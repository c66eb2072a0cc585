import Mathlib.Data.Finset.Card
import Mathlib.Tactic.Ring

/-!
# Scans for used addresses

A branch of addresses is scanned up to a gap of `gapLimit` that are not used. The discovery of an
open wallet reads windows of addresses; it finds what a scan of one address at a time finds and
stops where that stops, but it reads to the end of its last window, and throws when an address there
cannot be read (`addressScans_gapLimit`). The scan after a restore probes one index at a time; an
answer that does not come neither counts nor resets, and a branch without an error has `gapLimit`
confirmed unused addresses behind its last used one, not always next to each other. What an address
is, and how it is derived and read, are parameters.
-/

namespace XchainWallet

/-- `BALANCES_BATCH_MAX_ADDRESSES`. -/
def balancesBatchMaxAddresses : ℕ := 20

/-- `MAX_DERIVATION_INDEX`. -/
def maxDerivationIndex : ℕ := 0x7fffffff

/-- What becomes of one address: it cannot be derived, its use cannot be read, or it is known. -/
inductive AddressUse
  | failed
  | unknown
  | unused
  | used
deriving DecidableEq

/-! ### Scans of windows -/

/-- A branch as its scan sees it: the indexes whose addresses are all read as used or unused, those
that count as used, and the addresses that are found at an index. -/
structure BranchPlan (δ : Type) where
  answered : ℕ → Bool
  occupied : ℕ → Bool
  found : ℕ → List δ

/-- The variables of a scan; `next` is the index that it looks at next. -/
structure BranchScan (δ : Type) where
  fresh : List δ := []
  unusedRun : ℕ := 0
  next : ℕ := 0
deriving DecidableEq

namespace BranchPlan

variable {δ τ : Type}

/-- The branch of `scanBranch`: an address that is held counts as used and is not found again. -/
def single (usage : ℕ → AddressUse) (held : ℕ → Bool) (derived : ℕ → δ) : BranchPlan δ where
  answered i := usage i = .used ∨ usage i = .unused
  occupied i := usage i = .used ∨ held i
  found i := if usage i = .used ∧ held i = false then [derived i] else []

/-- The branch of `scanSharedBranch`: the address types that the signer knows share one index. -/
def shared (types : List τ) (usage : τ → ℕ → AddressUse) (held : τ → ℕ → Bool)
    (heldIndices : ℕ → Bool) (derived : τ → ℕ → δ) : BranchPlan δ where
  answered i := types.all fun t => usage t i = .used ∨ usage t i = .unused
  occupied i := heldIndices i || types.any (usage · i = .used)
  found i := types.filterMap fun t =>
    if usage t i = .used ∧ held t i = false then some (derived t i) else none

variable (p : BranchPlan δ) (gapLimit : ℕ)

/-- One turn of the loop over a window. -/
def visit (st : BranchScan δ) : BranchScan δ :=
  if st.unusedRun < gapLimit then
    { fresh := st.fresh ++ p.found st.next
      unusedRun := if p.occupied st.next then 0 else st.unusedRun + 1
      next := st.next + 1 }
  else st

/-- The loop over the windows, for a number of them at most. It throws where a window is not
answered. -/
def scan (window : ℕ) : ℕ → BranchScan δ → Option (Except Unit (BranchScan δ))
  | 0, _ => none
  | fuel + 1, st =>
    if st.unusedRun < gapLimit then
      if (List.range window).all fun i => p.answered (st.next + i) then
        scan window fuel ((p.visit gapLimit)^[window] st)
      else some (.error ())
    else some (.ok st)

/-- A scan that reads one address, looks at it and goes on. -/
def oneByOne : ℕ → BranchScan δ → Option (Except Unit (BranchScan δ))
  | 0, _ => none
  | fuel + 1, st =>
    if st.unusedRun < gapLimit then
      if p.answered st.next then oneByOne fuel (p.visit gapLimit st) else some (.error ())
    else some (.ok st)

/-- The scan stops after `n` turns. -/
def StopsAfter (st : BranchScan δ) (n : ℕ) : Prop :=
  (∀ m < n, ((p.visit gapLimit)^[m] st).unusedRun < gapLimit) ∧
    gapLimit ≤ ((p.visit gapLimit)^[n] st).unusedRun

variable {p gapLimit} {st r : BranchScan δ} {n : ℕ}

theorem visit_of_le (h : gapLimit ≤ st.unusedRun) : p.visit gapLimit st = st :=
  if_neg (Nat.not_lt.mpr h)

theorem StopsAfter.iterate_eq (h : p.StopsAfter gapLimit st n) {m : ℕ} (hm : n ≤ m) :
    (p.visit gapLimit)^[m] st = (p.visit gapLimit)^[n] st := by
  obtain ⟨k, rfl⟩ := Nat.exists_eq_add_of_le hm
  rw [Nat.add_comm, Function.iterate_add_apply]
  exact Function.iterate_fixed (visit_of_le h.2) k

/-- A turn that is taken goes on by one index. -/
theorem next_iterate {k : ℕ} (hgo : ∀ m < k, ((p.visit gapLimit)^[m] st).unusedRun < gapLimit) :
    ((p.visit gapLimit)^[k] st).next = st.next + k := by
  induction k with
  | zero => rfl
  | succ k ih =>
    rw [Function.iterate_succ_apply', visit, if_pos (hgo k (Nat.lt_succ_self k))]
    dsimp only
    rw [ih fun m hm => hgo m (Nat.lt_succ_of_lt hm), Nat.add_assoc]

theorem StopsAfter.unique (h : p.StopsAfter gapLimit st n) {m : ℕ}
    (h' : p.StopsAfter gapLimit st m) : n = m := by
  rcases Nat.lt_trichotomy n m with hlt | heq | hgt
  · exact absurd (h'.1 n hlt) (Nat.not_lt.mpr h.2)
  · exact heq
  · exact absurd (h.1 m hgt) (Nat.not_lt.mpr h'.2)

/-- What has stopped somewhere has stopped for the first time. -/
theorem exists_stopsAfter (h : gapLimit ≤ ((p.visit gapLimit)^[n] st).unusedRun) :
    ∃ m, p.StopsAfter gapLimit st m := by
  have hstops : ∃ m, gapLimit ≤ ((p.visit gapLimit)^[m] st).unusedRun := ⟨n, h⟩
  exact ⟨Nat.find hstops, fun m hm => Nat.lt_of_not_le (Nat.find_min hstops hm),
    Nat.find_spec hstops⟩

/-- The rest of a scan after `k` turns. -/
theorem StopsAfter.rest (h : p.StopsAfter gapLimit st n) (k : ℕ) :
    p.StopsAfter gapLimit ((p.visit gapLimit)^[k] st) (n - k) ∧
      (p.visit gapLimit)^[n - k] ((p.visit gapLimit)^[k] st) = (p.visit gapLimit)^[n] st := by
  have hend : (p.visit gapLimit)^[n - k] ((p.visit gapLimit)^[k] st) =
      (p.visit gapLimit)^[n] st := by
    rw [← Function.iterate_add_apply]
    exact h.iterate_eq (by omega)
  refine ⟨⟨fun m hm => ?_, hend ▸ h.2⟩, hend⟩
  rw [← Function.iterate_add_apply]
  exact h.1 (m + k) (by omega)

/-- **A scan of windows stops where the turns stop.** It reads the windows that begin before. -/
theorem scan_eq_ok_iff {window : ℕ} :
    (∃ fuel, p.scan gapLimit (window + 1) fuel st = some (.ok r)) ↔
      ∃ n k, p.StopsAfter gapLimit st n ∧ r = (p.visit gapLimit)^[n] st ∧ n ≤ k * (window + 1) ∧
        (∀ j < k, j * (window + 1) < n) ∧
          ∀ m < k * (window + 1), p.answered (st.next + m) = true := by
  constructor
  · rintro ⟨fuel, h⟩
    induction fuel generalizing st with
    | zero => cases h
    | succ fuel ih =>
      rw [scan] at h
      split_ifs at h with hrun hwindow
      · obtain ⟨n', k, hstops', hr, hle, hbegun, hall⟩ := ih h
        obtain ⟨n, hstops⟩ : ∃ n, p.StopsAfter gapLimit st n := by
          refine exists_stopsAfter (n := n' + (window + 1)) ?_
          rw [Function.iterate_add_apply]
          exact hstops'.2
        obtain ⟨hrest, hend⟩ := hstops.rest (window + 1)
        obtain rfl := hstops'.unique hrest
        have hpos : 0 < n := by
          refine Nat.pos_of_ne_zero fun hzero => ?_
          subst hzero
          exact absurd hrun (Nat.not_lt.mpr hstops.2)
        refine ⟨n, k + 1, hstops, hr.trans hend, by rw [Nat.succ_mul]; omega, fun j hj => ?_,
          fun m hm => ?_⟩
        · cases j with
          | zero => rwa [Nat.zero_mul]
          | succ j =>
            have hj := hbegun j (by omega)
            rw [Nat.succ_mul]
            omega
        · by_cases hfirst : m < window + 1
          · have hin := List.all_eq_true.mp hwindow m (List.mem_range.mpr hfirst)
            exact hin
          · rw [Nat.succ_mul] at hm
            have hk : 0 < k := Nat.pos_of_ne_zero fun hzero => by
              rw [hzero, Nat.zero_mul] at hm
              omega
            have hover := hbegun 0 hk
            have hnext := hall (m - (window + 1)) (by omega)
            rw [next_iterate fun m hm => hstops.1 m (by omega)] at hnext
            rwa [show st.next + m = st.next + (window + 1) + (m - (window + 1)) by omega]
      · cases h
      · obtain rfl := Except.ok.inj (Option.some.inj h)
        refine ⟨0, 0, ⟨fun m hm => absurd hm (Nat.not_lt_zero m), Nat.le_of_not_lt hrun⟩, rfl,
          Nat.zero_le _, fun j hj => absurd hj (Nat.not_lt_zero j), fun m hm => ?_⟩
        rw [Nat.zero_mul] at hm
        exact absurd hm (Nat.not_lt_zero m)
  · rintro ⟨n, k, hstops, rfl, hle, hbegun, hall⟩
    induction k generalizing st n with
    | zero =>
      rw [Nat.zero_mul, Nat.le_zero] at hle
      subst hle
      have hstop : gapLimit ≤ st.unusedRun := hstops.2
      exact ⟨1, if_neg (Nat.not_lt.mpr hstop)⟩
    | succ k ih =>
      have hpos := hbegun 0 (Nat.succ_pos k)
      rw [Nat.zero_mul] at hpos
      have hrun : st.unusedRun < gapLimit := hstops.1 0 hpos
      have hwindow : ((List.range (window + 1)).all fun i => p.answered (st.next + i)) = true := by
        refine List.all_eq_true.mpr fun i hi => hall i ?_
        rw [Nat.succ_mul]
        have hi := List.mem_range.mp hi
        omega
      obtain ⟨hrest, hend⟩ := hstops.rest (window + 1)
      obtain ⟨fuel, hfuel⟩ := ih _ hrest (by rw [Nat.succ_mul] at hle; omega) (fun j hj => by
          have hnext := hbegun (j + 1) (by omega)
          rw [Nat.succ_mul] at hnext
          omega) fun m hm => by
        have hk : 0 < k := Nat.pos_of_ne_zero fun hzero => by
          rw [hzero, Nat.zero_mul] at hm
          omega
        have hover := hbegun 1 (by omega)
        rw [Nat.one_mul] at hover
        rw [next_iterate fun m hm => hstops.1 m (by omega), Nat.add_assoc]
        refine hall _ ?_
        rw [Nat.succ_mul]
        omega
      refine ⟨fuel + 1, ?_⟩
      rw [scan, if_pos hrun, if_pos hwindow, hfuel, hend]

/-- One address at a time is a window of one. -/
theorem oneByOne_eq_scan (fuel : ℕ) (st : BranchScan δ) :
    p.oneByOne gapLimit fuel st = p.scan gapLimit 1 fuel st := by
  induction fuel generalizing st with
  | zero => rfl
  | succ fuel ih =>
    have hwindow : ((List.range 1).all fun i => p.answered (st.next + i)) = p.answered st.next := by
      simp
    rw [oneByOne, scan, hwindow, ih, Function.iterate_one]

theorem oneByOne_eq_ok_iff : (∃ fuel, p.oneByOne gapLimit fuel st = some (.ok r)) ↔
    ∃ n, p.StopsAfter gapLimit st n ∧ r = (p.visit gapLimit)^[n] st ∧
      ∀ m < n, p.answered (st.next + m) = true := by
  simp only [oneByOne_eq_scan]
  refine scan_eq_ok_iff.trans ?_
  simp only [Nat.zero_add, Nat.mul_one]
  constructor
  · rintro ⟨n, k, hstops, hr, hle, -, hall⟩
    exact ⟨n, hstops, hr, fun m hm => hall m (by omega)⟩
  · rintro ⟨n, hstops, hr, hall⟩
    exact ⟨n, n, hstops, hr, le_rfl, fun j hj => hj, hall⟩

end BranchPlan

section Branches

variable {δ τ : Type} (gapLimit fuel : ℕ)

def scanBranch (usage : ℕ → AddressUse) (held : ℕ → Bool) (derived : ℕ → δ) :
    Option (Except Unit (BranchScan δ)) :=
  (BranchPlan.single usage held derived).scan gapLimit balancesBatchMaxAddresses fuel {}

def scanSharedBranch (types : List τ) (usage : τ → ℕ → AddressUse) (held : τ → ℕ → Bool)
    (heldIndices : ℕ → Bool) (derived : τ → ℕ → δ) : Option (Except Unit (BranchScan δ)) :=
  (BranchPlan.shared types usage held heldIndices derived).scan gapLimit
    balancesBatchMaxAddresses fuel {}

end Branches

/-! ### The scan after a restore -/

/-- Why a type is not complete, or what the first probe without an answer left. -/
inductive ScanError
  | deadline
  | indexLimit
  | address
  | probe (index : ℕ)

structure ScannedAddress (δ : Type) where
  index : ℕ
  derived : δ
  used : Bool
  unknown : Bool

/-- The state of an address type. -/
structure TypeScan (τ δ : Type) where
  addressType : τ
  addresses : List (ScannedAddress δ) := []
  highestUsedIndex : Option ℕ := none
  consecutiveUnused : ℕ := 0
  incomplete : Bool := false
  error : Option ScanError := none

structure SharedScan (τ δ : Type) where
  states : List (TypeScan τ δ)
  consecutiveUnused : ℕ := 0

/-- What a scan meets at its indexes: the addresses and what becomes of them, whether it is aborted,
whether its time is over, and whether there is a key. -/
structure ScanWorld (τ δ : Type) where
  usage : τ → ℕ → AddressUse
  derived : τ → ℕ → δ
  aborted : ℕ → Bool
  late : ℕ → Bool
  keyed : ℕ → Bool

section Restore

variable {τ δ σ : Type} (world : ScanWorld τ δ) (gapLimit : ℕ)

def ScanWorld.record (t : τ) (index : ℕ) : ScannedAddress δ where
  index := index
  derived := world.derived t index
  used := world.usage t index = .used
  unknown := world.usage t index = .unknown

def TypeScan.fail (state : TypeScan τ δ) (error : ScanError) : TypeScan τ δ :=
  { state with incomplete := true, error := some error }

/-- `failState` for a state that is still active. -/
def TypeScan.failActive (error : ScanError) (state : TypeScan τ δ) : TypeScan τ δ :=
  if state.incomplete then state else state.fail error

def TypeScan.appendProbe (state : TypeScan τ δ) (index : ℕ) : TypeScan τ δ :=
  let use := world.usage state.addressType index
  { state with
    addresses := state.addresses ++ [world.record state.addressType index]
    highestUsedIndex := if use = .used then some index else state.highestUsedIndex
    error := if use = .unknown then state.error <|> some (.probe index) else state.error }

def TypeScan.updateSingleGap (state : TypeScan τ δ) (use : AddressUse) : TypeScan τ δ :=
  { state with
    consecutiveUnused :=
      if use = .used then 0
      else if use = .unknown then state.consecutiveUnused
      else state.consecutiveUnused + 1 }

/-- One turn, and whether it is the last. An address that cannot be derived throws. -/
def scanSingleIndex (state : TypeScan τ δ) (index : ℕ) : Except Unit (TypeScan τ δ × Bool) :=
  let use := world.usage state.addressType index
  let probed := (state.appendProbe world index).updateSingleGap use
  if world.aborted index then .error ()
  else if world.late index then .ok (state.fail .deadline, true)
  else if ¬world.keyed index ∨ use = .failed then .error ()
  else if gapLimit ≤ probed.consecutiveUnused then .ok (probed, true)
  else if index = maxDerivationIndex then .ok (probed.fail .indexLimit, true)
  else .ok (probed, false)

def updateSharedGap (run : ℕ) (probes : List AddressUse) : ℕ :=
  if .used ∈ probes then 0
  else if probes ≠ [] ∧ .unknown ∉ probes then run + 1
  else run

/-- The states after `deriveSharedAt`: a type whose address cannot be derived fails alone. -/
def SharedScan.derive (context : SharedScan τ δ) (index : ℕ) : List (TypeScan τ δ) :=
  context.states.map fun state =>
    if world.usage state.addressType index = .failed then state.failActive .address else state

def SharedScan.probe (context : SharedScan τ δ) (index : ℕ) : SharedScan τ δ :=
  let states := context.derive world index
  let active := states.filter (!·.incomplete)
  { states := states.map fun state =>
      if state.incomplete then state else state.appendProbe world index
    consecutiveUnused := updateSharedGap context.consecutiveUnused
      (active.map fun state => world.usage state.addressType index) }

def scanSharedIndex (context : SharedScan τ δ) (index : ℕ) :
    Except Unit (SharedScan τ δ × Bool) :=
  let failAll (context : SharedScan τ δ) (error : ScanError) :=
    { context with states := context.states.map (·.failActive error) }
  let probed := context.probe world index
  if world.aborted index then .error ()
  else if context.states.all (·.incomplete) then .ok (context, true)
  else if world.late index then .ok (failAll context .deadline, true)
  else if ¬world.keyed index then .error ()
  else if gapLimit ≤ probed.consecutiveUnused then .ok (probed, true)
  else if index = maxDerivationIndex then .ok (failAll probed .indexLimit, true)
  else .ok (probed, false)

/-- The loop over the indexes, for a number of them at most. -/
def scanIndexes (turn : σ → ℕ → Except Unit (σ × Bool)) : ℕ → ℕ → σ → Option (Except Unit σ)
  | 0, _, _ => none
  | fuel + 1, index, state =>
    match turn state index with
    | .error e => some (.error e)
    | .ok (state, true) => some (.ok state)
    | .ok (state, false) => scanIndexes turn fuel (index + 1) state

def scanChainType (fuel startIndex : ℕ) (t : τ) : Option (Except Unit (TypeScan τ δ)) :=
  scanIndexes (scanSingleIndex world gapLimit) fuel startIndex { addressType := t }

def scanSharedChainTypes (fuel startIndex : ℕ) (types : List τ) :
    Option (Except Unit (SharedScan τ δ)) :=
  scanIndexes (scanSharedIndex world gapLimit) fuel startIndex
    { states := types.map fun t => { addressType := t } }

/-- At least `n` indexes from `start` on are known to be unused, all behind the last used one. -/
def Confirmed (usage : ℕ → AddressUse) (start stop n : ℕ) : Prop :=
  ∃ unused : Finset ℕ, n ≤ unused.card ∧ ∀ j ∈ unused, start ≤ j ∧ j < stop ∧ usage j = .unused ∧
    ∀ k, start ≤ k → k < stop → usage k = .used → k < j

/-- The addresses of a type are those of the indexes up to `stop`, as the probes told them. -/
def TypeScan.Reads (state : TypeScan τ δ) (start stop : ℕ) : Prop :=
  state.addresses = (List.range' start (stop - start)).map (world.record state.addressType)

/-- What a complete type has behind it. -/
def TypeScan.Ends (state : TypeScan τ δ) (start : ℕ) : Prop :=
  state.incomplete = false → ∃ stop, start ≤ stop ∧ state.Reads world start stop ∧
    Confirmed (world.usage state.addressType) start stop gapLimit

/-- A type that `n` unused indexes are counted for before the turn of an index. -/
def TypeScan.Before (state : TypeScan τ δ) (start index n : ℕ) : Prop :=
  start ≤ index ∧ state.Reads world start index ∧
    Confirmed (world.usage state.addressType) start index n

/-- A shared scan before the turn of an index. -/
def SharedScan.Before (context : SharedScan τ δ) (start : ℕ) (types : List τ) (index : ℕ) : Prop :=
  context.states.map (·.addressType) = types ∧ ∀ state ∈ context.states, state.incomplete = false →
    state.Before world start index context.consecutiveUnused

def SharedScan.Ends (context : SharedScan τ δ) (start : ℕ) (types : List τ) : Prop :=
  context.states.map (·.addressType) = types ∧
    ∀ state ∈ context.states, state.Ends world gapLimit start

section Counting

variable {usage : ℕ → AddressUse} {start stop n : ℕ}

theorem confirmed_zero : Confirmed usage start stop 0 :=
  ⟨∅, Nat.zero_le _, fun j hj => absurd hj (Finset.notMem_empty j)⟩

theorem Confirmed.mono (h : Confirmed usage start stop n) {m : ℕ} (hm : m ≤ n) :
    Confirmed usage start stop m := by
  obtain ⟨unused, hcard, hunused⟩ := h
  exact ⟨unused, hm.trans hcard, hunused⟩

/-- An index that is not used leaves the count. -/
theorem Confirmed.kept (h : Confirmed usage start stop n) (hstop : usage stop ≠ .used) :
    Confirmed usage start (stop + 1) n := by
  obtain ⟨unused, hcard, hunused⟩ := h
  refine ⟨unused, hcard, fun j hj => ?_⟩
  obtain ⟨hstart, hlt, huse, hbehind⟩ := hunused j hj
  refine ⟨hstart, by omega, huse, fun k hk hkstop hused => ?_⟩
  rcases Nat.lt_succ_iff_lt_or_eq.mp hkstop with hbefore | rfl
  · exact hbehind k hk hbefore hused
  · exact absurd hused hstop

/-- An index that is known to be unused counts. -/
theorem Confirmed.counted (h : Confirmed usage start stop n) (hle : start ≤ stop)
    (hstop : usage stop = .unused) : Confirmed usage start (stop + 1) (n + 1) := by
  obtain ⟨before, hbefore, hin⟩ := h
  refine ⟨insert stop before, ?_, fun j hj => ?_⟩
  · rw [Finset.card_insert_of_notMem fun hmem => Nat.lt_irrefl _ (hin stop hmem).2.1]
    omega
  · rcases Finset.mem_insert.mp hj with rfl | hj
    · refine ⟨hle, Nat.lt_succ_self j, hstop, fun k _ hk hused => ?_⟩
      refine Nat.lt_of_le_of_ne (Nat.le_of_lt_succ hk) fun heq => ?_
      rw [heq, hstop] at hused
      cases hused
    · obtain ⟨hstart, hlt, huse, hbehind⟩ := hin j hj
      refine ⟨hstart, by omega, huse, fun k hk hkstop hused => ?_⟩
      rcases Nat.lt_succ_iff_lt_or_eq.mp hkstop with hbefore | rfl
      · exact hbehind k hk hbefore hused
      · rw [hstop] at hused
        cases hused

/-- A turn counts right for every type whose probe is one of its probes. -/
theorem Confirmed.shared {probes : List AddressUse} (h : Confirmed usage start stop n)
    (hle : start ≤ stop) (hmem : usage stop ∈ probes) (hfailed : usage stop ≠ .failed) :
    Confirmed usage start (stop + 1) (updateSharedGap n probes) := by
  unfold updateSharedGap
  split_ifs with hused hcount
  · exact confirmed_zero
  · refine h.counted hle ?_
    cases huse : usage stop with
    | failed => exact absurd huse hfailed
    | unknown => exact absurd (huse ▸ hmem) hcount.2
    | used => exact absurd (huse ▸ hmem) hused
    | unused => rfl
  · exact h.kept fun huse => hused (huse ▸ hmem)

end Counting

variable {world gapLimit} {start index : ℕ}

theorem TypeScan.Reads.append {state : TypeScan τ δ} (h : state.Reads world start index)
    (hle : start ≤ index) : (state.appendProbe world index).Reads world start (index + 1) := by
  have hindex : start + (index - start) = index := by omega
  rw [Reads, Nat.succ_sub hle, List.range'_1_concat, List.map_append, hindex]
  exact congrArg (· ++ _) h

/-- What holds from turn to turn decides what the last turn leaves. -/
theorem scanIndexes_induct {turn : σ → ℕ → Except Unit (σ × Bool)} {I : ℕ → σ → Prop}
    {Q : σ → Prop} (hgoes : ∀ index s s', I index s → turn s index = .ok (s', false) →
      I (index + 1) s')
    (hends : ∀ index s s', I index s → turn s index = .ok (s', true) → Q s')
    {fuel : ℕ} {s r : σ} (h : scanIndexes turn fuel index s = some (.ok r)) (hs : I index s) :
    Q r := by
  induction fuel generalizing index s with
  | zero => cases h
  | succ fuel ih =>
    rw [scanIndexes] at h
    split at h
    · cases h
    · next s' hturn =>
      obtain rfl := Except.ok.inj (Option.some.inj h)
      exact hends index s s' hs hturn
    · next s' hturn => exact ih h (hgoes index s s' hs hturn)

/-- A type after a turn that its probe took part in. -/
theorem TypeScan.Before.probed {state : TypeScan τ δ} {n : ℕ} {probes : List AddressUse}
    (h : state.Before world start index n) (hmem : world.usage state.addressType index ∈ probes)
    (hfailed : world.usage state.addressType index ≠ .failed) :
    (state.appendProbe world index).Before world start (index + 1) (updateSharedGap n probes) :=
  ⟨Nat.le_succ_of_le h.1, h.2.1.append h.1, h.2.2.shared h.1 hmem hfailed⟩

theorem TypeScan.Before.ends {state : TypeScan τ δ} {n : ℕ} (h : state.Before world start index n)
    (hn : gapLimit ≤ n) : state.Ends world gapLimit start :=
  fun _ => ⟨index, h.1, h.2.1, h.2.2.mono hn⟩

theorem scanSingleIndex_spec {state state' : TypeScan τ δ} {last : Bool}
    (hstate : state.Before world start index state.consecutiveUnused)
    (h : scanSingleIndex world gapLimit state index = .ok (state', last)) :
    state'.addressType = state.addressType ∧
      (last = false → state'.Before world start (index + 1) state'.consecutiveUnused) ∧
        (last = true → state'.Ends world gapLimit start) := by
  rw [scanSingleIndex] at h
  split_ifs at h with haborted hlate hthrown hgap hlimit
  · obtain ⟨rfl, rfl⟩ := Prod.mk.inj (Except.ok.inj h)
    exact ⟨rfl, fun hlast => (nomatch hlast), fun _ hcomplete => nomatch hcomplete⟩
  all_goals
    have hfailed : world.usage state.addressType index ≠ .failed := fun heq => hthrown (.inr heq)
    have hprobed := hstate.probed (List.mem_singleton.mpr rfl) hfailed
    have hrun : ((state.appendProbe world index).updateSingleGap
        (world.usage state.addressType index)).consecutiveUnused =
          updateSharedGap state.consecutiveUnused [world.usage state.addressType index] := by
      rw [TypeScan.updateSingleGap, TypeScan.appendProbe]
      dsimp only
      cases huse : world.usage state.addressType index with
      | failed => exact absurd huse hfailed
      | unknown | unused | used => rfl
    obtain ⟨rfl, rfl⟩ := Prod.mk.inj (Except.ok.inj h)
  · exact ⟨rfl, fun hlast => (nomatch hlast), fun _ => hprobed.ends (hrun ▸ hgap)⟩
  · exact ⟨rfl, fun hlast => (nomatch hlast), fun _ hcomplete => nomatch hcomplete⟩
  · exact ⟨rfl, fun _ => hrun.symm ▸ hprobed, fun hlast => nomatch hlast⟩

theorem scanChainType_ends {fuel : ℕ} {t : τ} {r : TypeScan τ δ}
    (h : scanChainType world gapLimit fuel start t = some (.ok r)) :
    r.addressType = t ∧ r.Ends world gapLimit start := by
  refine scanIndexes_induct
    (I := fun index s => s.addressType = t ∧ s.Before world start index s.consecutiveUnused)
    (Q := fun s => s.addressType = t ∧ s.Ends world gapLimit start)
    (fun index s s' hs hturn => ?_) (fun index s s' hs hturn => ?_) h
    ⟨rfl, le_rfl, ?_, confirmed_zero⟩
  · obtain ⟨htype, hgo, -⟩ := scanSingleIndex_spec hs.2 hturn
    exact ⟨htype.trans hs.1, hgo rfl⟩
  · obtain ⟨htype, -, hend⟩ := scanSingleIndex_spec hs.2 hturn
    exact ⟨htype.trans hs.1, hend rfl⟩
  · rw [TypeScan.Reads, Nat.sub_self]
    rfl

theorem TypeScan.failActive_incomplete (state : TypeScan τ δ) (error : ScanError) :
    (state.failActive error).incomplete = true := by
  unfold failActive
  split_ifs with h
  · exact h
  · rfl

@[simp] theorem TypeScan.failActive_addressType (state : TypeScan τ δ) (error : ScanError) :
    (state.failActive error).addressType = state.addressType := by
  unfold failActive
  split_ifs <;> rfl

variable {types : List τ}

/-- Where all types fail, nothing is complete. -/
theorem SharedScan.ends_failed {states : List (TypeScan τ δ)} {run : ℕ}
    (htypes : states.map (·.addressType) = types) (error : ScanError) :
    SharedScan.Ends world gapLimit ⟨states.map (·.failActive error), run⟩ start types := by
  refine ⟨?_, fun state hmem hcomplete => ?_⟩
  · simpa [Function.comp_def] using htypes
  · obtain ⟨before, -, rfl⟩ := List.mem_map.mp hmem
    rw [before.failActive_incomplete] at hcomplete
    cases hcomplete

theorem SharedScan.Before.probe {context : SharedScan τ δ}
    (h : context.Before world start types index) :
    (context.probe world index).Before world start types (index + 1) := by
  obtain ⟨htypes, hstates⟩ := h
  refine ⟨?_, fun state hmem hcomplete => ?_⟩
  · rw [← htypes, SharedScan.probe, SharedScan.derive]
    simp only [List.map_map]
    refine List.map_congr_left fun state _ => ?_
    dsimp only [Function.comp]
    split_ifs <;> simp [TypeScan.appendProbe]
  · obtain ⟨derived, hderived, rfl⟩ := List.mem_map.mp hmem
    split_ifs at hcomplete ⊢ with hactive
    · exact absurd hactive (ne_true_of_eq_false hcomplete)
    · have hprobe : derived ∈ (context.derive world index).filter (!·.incomplete) :=
        List.mem_filter.mpr ⟨hderived, by simp [hactive]⟩
      have hprobes := List.mem_map_of_mem
        (f := fun state : TypeScan τ δ => world.usage state.addressType index) hprobe
      obtain ⟨before, hbefore, rfl⟩ := List.mem_map.mp hderived
      split_ifs at hactive hprobes ⊢ with hfailed
      · exact absurd (before.failActive_incomplete _) hactive
      · exact (hstates before hbefore (Bool.eq_false_iff.mpr hactive)).probed hprobes hfailed

theorem scanSharedIndex_spec {context context' : SharedScan τ δ} {last : Bool}
    (hcontext : context.Before world start types index)
    (h : scanSharedIndex world gapLimit context index = .ok (context', last)) :
    (last = false → context'.Before world start types (index + 1)) ∧
      (last = true → context'.Ends world gapLimit start types) := by
  have hprobe := hcontext.probe
  rw [scanSharedIndex] at h
  split_ifs at h with haborted hall hlate hkeyed hgap hlimit
  all_goals obtain ⟨rfl, rfl⟩ := Prod.mk.inj (Except.ok.inj h)
  · refine ⟨fun hlast => (nomatch hlast), fun _ => ⟨hcontext.1, fun state hmem hcomplete => ?_⟩⟩
    rw [List.all_eq_true.mp hall state hmem] at hcomplete
    cases hcomplete
  · exact ⟨fun hlast => (nomatch hlast), fun _ => SharedScan.ends_failed hcontext.1 _⟩
  · exact ⟨fun hlast => (nomatch hlast), fun _ => ⟨hprobe.1, fun state hmem hcomplete =>
      (hprobe.2 state hmem hcomplete).ends hgap hcomplete⟩⟩
  · exact ⟨fun hlast => (nomatch hlast), fun _ => SharedScan.ends_failed hprobe.1 _⟩
  · exact ⟨fun _ => hprobe, fun hlast => (nomatch hlast)⟩

theorem scanSharedChainTypes_ends {fuel : ℕ} {r : SharedScan τ δ}
    (h : scanSharedChainTypes world gapLimit fuel start types = some (.ok r)) :
    r.Ends world gapLimit start types := by
  refine scanIndexes_induct (I := fun index s => s.Before world start types index)
    (Q := fun s => s.Ends world gapLimit start types)
    (fun index s s' hs hturn => (scanSharedIndex_spec hs hturn).1 rfl)
    (fun index s s' hs hturn => (scanSharedIndex_spec hs hturn).2 rfl) h
    ⟨?_, fun state hmem _ => ?_⟩
  · simp [Function.comp_def]
  · obtain ⟨t, -, rfl⟩ := List.mem_map.mp hmem
    refine ⟨le_rfl, ?_, confirmed_zero⟩
    rw [TypeScan.Reads, Nat.sub_self]
    rfl

end Restore

/-- **What the scans of a branch find.** Windows of any size find what single addresses find and
stop there, as soon as all addresses of the windows that begin before are known; a type that a
restore reports complete has `gapLimit` indexes behind its last used one that were found unused. -/
theorem addressScans_gapLimit {τ δ : Type} (gapLimit : ℕ) :
    (∀ (p : BranchPlan δ) (window : ℕ) (r : BranchScan δ),
      (∃ fuel, p.scan gapLimit (window + 1) fuel {} = some (.ok r)) ↔
        (∃ fuel, p.oneByOne gapLimit fuel {} = some (.ok r)) ∧
          ∃ k, r.next ≤ k * (window + 1) ∧ (∀ j < k, j * (window + 1) < r.next) ∧
            ∀ i < k * (window + 1), p.answered i = true) ∧
    ∀ (world : ScanWorld τ δ) (start fuel : ℕ),
      (∀ (t : τ) (r : TypeScan τ δ), scanChainType world gapLimit fuel start t = some (.ok r) →
        r.addressType = t ∧ r.Ends world gapLimit start) ∧
      ∀ (types : List τ) (r : SharedScan τ δ),
        scanSharedChainTypes world gapLimit fuel start types = some (.ok r) →
          r.Ends world gapLimit start types := by
  refine ⟨fun p window r => ?_, fun world start fuel =>
    ⟨fun t r => scanChainType_ends, fun types r => scanSharedChainTypes_ends⟩⟩
  rw [BranchPlan.scan_eq_ok_iff, BranchPlan.oneByOne_eq_ok_iff]
  constructor
  · rintro ⟨n, k, hstops, rfl, hle, hbegun, hall⟩
    have hnext := BranchPlan.next_iterate hstops.1
    simp only [Nat.zero_add] at hnext hall
    refine ⟨⟨n, hstops, rfl, fun m hm => ?_⟩, k, by rwa [hnext], by rwa [hnext], hall⟩
    rw [Nat.zero_add]
    exact hall m (Nat.lt_of_lt_of_le hm hle)
  · rintro ⟨⟨n, hstops, rfl, -⟩, k, hle, hbegun, hall⟩
    rw [BranchPlan.next_iterate hstops.1, Nat.zero_add] at hle hbegun
    refine ⟨n, k, hstops, rfl, hle, hbegun, fun m hm => ?_⟩
    rw [Nat.zero_add]
    exact hall m hm

/-- A branch of unused addresses of which the second one cannot be read. -/
private def unreadSecond (i : ℕ) : AddressUse :=
  if i = 1 then .unknown else .unused

/-- With a gap of one address, a scan of single addresses is done before it comes to the address
that cannot be read; the window throws. -/
theorem not_scanBranch_eq_oneByOne :
    (BranchPlan.single unreadSecond (fun _ => false) id).oneByOne 1 2 {} = some (.ok ⟨[], 1, 1⟩) ∧
      ∀ fuel r, scanBranch 1 fuel unreadSecond (fun _ => false) id ≠ some (.ok r) := by
  refine ⟨by decide, fun fuel r => ?_⟩
  cases fuel with
  | zero => exact fun h => nomatch h
  | succ fuel =>
    have hwindow : ((List.range balancesBatchMaxAddresses).all fun i =>
        (BranchPlan.single unreadSecond (fun _ => false) id).answered (0 + i)) ≠ true := by
      decide
    rw [scanBranch, BranchPlan.scan, if_pos Nat.zero_lt_one, if_neg hwindow]
    exact fun h => nomatch h

end XchainWallet
