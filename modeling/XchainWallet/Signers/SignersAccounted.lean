import XchainWallet.Signers.SignerPool

/-!
# Every unlocked signer is accounted for

A signer that was unlocked is locked, or in the pool, or in the hand of the operation that has
unlocked it (`PoolWorld.Accounted`), as long as no read of `populate`'s ownership check rejects.
Signers go into the pool under a current token only, so the ones in the pool are of operations
that began in the session at hand. `Lands` is the shape that every stretch between two awaits
has, and the one lemma about each of them.
-/

namespace XchainWallet

open Option (some.inj)

namespace PoolWorld

variable {s t : PoolWorld} {i startedIn : ℕ}

/-! ### The invariant -/

/-- The signer is locked or in the pool. -/
def Safe (s : PoolWorld) (u : Signer) : Prop := u ∈ s.locked ∨ ∃ walletId, (walletId, u) ∈ s.signers

/-- The operation holds a signer of its own, and a token of the session in which it began. -/
structure PcSound (i startedIn : ℕ) (pc : PoolPc) : Prop where
  token : ∀ token, pc.token = some token → token.session = startedIn
  signer : ∀ u, pc.signer = some u → u.op = i

structure Accounted (s : PoolWorld) : Prop where
  ops : ∀ i op, s.ops i = some op → PcSound i op.startedIn op.pc
  pooled : ∀ walletId u, (walletId, u) ∈ s.signers →
    ∃ op, s.ops u.op = some op ∧ op.startedIn = s.session
  unlocked : ∀ u ∈ s.unlocked, s.Safe u ∨ ∃ op, s.ops u.op = some op ∧ op.pc.signer = some u

theorem Accounted.start : start.Accounted where
  ops := fun _ _ hop => nomatch hop
  pooled := fun _ _ hmem => nomatch hmem
  unlocked := fun _ hmem => nomatch hmem

/-! ### What becomes of a signer -/

/-- A change of the pool that loses no signer, and brings none in. -/
structure Keeps (s t : PoolWorld) : Prop where
  session : t.session = s.session
  ops : t.ops = s.ops
  unlocked : t.unlocked = s.unlocked
  safe : ∀ u, s.Safe u → t.Safe u
  signers : ∀ entry ∈ t.signers, entry ∈ s.signers

theorem keeps_beginMutation (s : PoolWorld) (walletId : String) :
    s.Keeps (s.beginMutation walletId).1 :=
  ⟨rfl, rfl, rfl, fun _ h => h, fun _ h => h⟩

theorem keeps_lock (s : PoolWorld) (signer : Signer) : s.Keeps (s.lock signer) :=
  ⟨rfl, rfl, rfl, fun _ h => h.imp_left (List.mem_append_left _), fun _ h => h⟩

theorem safe_lock (s : PoolWorld) (signer : Signer) : (s.lock signer).Safe signer :=
  .inl (List.mem_append_right _ List.mem_cons_self)

variable {walletId : String}

/-- A signer that the pool gives up for a wallet is locked. -/
theorem mem_locked_of_find {u : Signer}
    (h : Keyed.find Prod.fst walletId s.signers = some (walletId, u)) :
    u ∈ s.locked ++ ((Keyed.find Prod.fst walletId s.signers).map Prod.snd).toList := by
  rw [h]
  exact List.mem_append_right _ List.mem_cons_self

theorem keeps_evict (s : PoolWorld) (walletId : String) : s.Keeps (s.evict walletId) where
  session := rfl
  ops := rfl
  unlocked := rfl
  safe := by
    rintro u (hlocked | ⟨walletId', hmem⟩)
    · exact .inl (List.mem_append_left _ hlocked)
    · have hleft : (walletId', u) ∈ (s.evict walletId).signers ∨
          Keyed.find Prod.fst walletId s.signers = some (walletId', u) :=
        Keyed.mem_erase_or_find hmem
      rcases hleft with hmem | hfind
      · exact .inr ⟨walletId', hmem⟩
      · obtain rfl : walletId' = walletId := Keyed.key_of_find hfind
        exact .inl (mem_locked_of_find hfind)
  signers := fun _ h => Keyed.mem_of_mem_erase h

theorem safe_pool_of_safe (walletId : String) (signer : Signer) {u : Signer} (h : s.Safe u) :
    (s.pool walletId signer).Safe u := by
  rcases h with hlocked | ⟨walletId', hmem⟩
  · exact .inl (List.mem_append_left _ hlocked)
  · have hleft : (walletId', u) ∈ (s.pool walletId signer).signers ∨
        Keyed.find Prod.fst walletId s.signers = some (walletId', u) :=
      Keyed.mem_upsert_or_find hmem
    rcases hleft with hmem | hfind
    · exact .inr ⟨walletId', hmem⟩
    · obtain rfl : walletId' = walletId := Keyed.key_of_find hfind
      exact .inl (mem_locked_of_find hfind)

theorem safe_pool (s : PoolWorld) (walletId : String) (signer : Signer) :
    (s.pool walletId signer).Safe signer :=
  .inr ⟨walletId, Keyed.self_mem_upsert (walletId, signer) s.signers⟩

/-! ### Stretches between two awaits -/

/-- What a stretch of operation `i` does to the pool, `held` being the signer that the operation
had in hand: no signer is lost but the one that the operation still has in hand. -/
structure Lands (s : PoolWorld) (i startedIn : ℕ) (held : Option Signer)
    (r : PoolWorld × PoolPc) : Prop where
  session : r.1.session = s.session
  ops : r.1.ops = s.ops
  safe : ∀ u, s.Safe u → r.1.Safe u
  signers : ∀ walletId u, (walletId, u) ∈ r.1.signers →
    (walletId, u) ∈ s.signers ∨ u.op = i ∧ startedIn = s.session
  unlocked : ∀ u ∈ r.1.unlocked, u ∈ s.unlocked ∨ r.1.Safe u ∨ r.2.signer = some u
  held : ∀ u, held = some u → r.1.Safe u ∨ r.2.signer = some u
  sound : PcSound i startedIn r.2

variable {r : PoolWorld × PoolPc}

/-- A stretch that begins with a change that keeps all signers. -/
theorem Lands.after {held : Option Signer} (hkeeps : s.Keeps t) (h : t.Lands i startedIn held r) :
    s.Lands i startedIn held r where
  session := h.session.trans hkeeps.session
  ops := h.ops.trans hkeeps.ops
  safe := fun u hu => h.safe u (hkeeps.safe u hu)
  signers := by
    intro walletId u hu
    rcases h.signers walletId u hu with hu | ⟨hop, hsession⟩
    · exact .inl (hkeeps.signers _ hu)
    · exact .inr ⟨hop, hsession.trans hkeeps.session⟩
  unlocked := fun u hu => hkeeps.unlocked ▸ h.unlocked u hu
  held := h.held
  sound := h.sound

/-- A stretch that has put its signer into safety before. -/
theorem Lands.of_safe {u : Signer} (h : s.Lands i startedIn none r) (hu : s.Safe u) :
    s.Lands i startedIn (some u) r :=
  { h with
    held := by
      intro v hv
      obtain ⟨⟩ := hv
      exact .inl (h.safe u hu) }

/-- A stretch that changes nothing but where the operation awaits. -/
theorem Lands.stay {held : Option Signer} {pc : PoolPc} (hheld : held = pc.signer)
    (hsound : PcSound i startedIn pc) : s.Lands i startedIn held (s, pc) where
  session := rfl
  ops := rfl
  safe := fun _ h => h
  signers := fun _ _ h => .inl h
  unlocked := fun _ h => .inl h
  held := fun _ hu => .inr (hheld ▸ hu)
  sound := hsound

theorem pcSound_settled (outcome : PoolOutcome) : PcSound i startedIn (.settled outcome) :=
  ⟨nofun, nofun⟩

theorem lands_settled (outcome : PoolOutcome) : s.Lands i startedIn none (s, .settled outcome) :=
  .stay rfl (pcSound_settled outcome)

theorem lands_abandon (signer : Signer) (error : PoolError) :
    s.Lands i startedIn (some signer) (s.abandon signer error) := by
  rw [abandon]
  exact .after (s.keeps_lock signer) ((lands_settled _).of_safe (s.safe_lock signer))

/-- A signer goes into the pool in the session in which its operation began. -/
theorem Lands.pool {u : Signer} (hop : u.op = i) (hsession : startedIn = s.session)
    (h : (s.pool walletId u).Lands i startedIn none r) :
    s.Lands i startedIn (some u) r where
  session := h.session
  ops := h.ops
  safe := fun v hv => h.safe v (safe_pool_of_safe walletId u hv)
  signers := by
    intro walletId' v hv
    rcases h.signers walletId' v hv with hv | hown
    · rcases Keyed.mem_upsert hv with hv | hv
      · obtain ⟨-, rfl⟩ := Prod.mk.inj hv
        exact .inr ⟨hop, hsession⟩
      · exact .inl hv
    · exact .inr hown
  unlocked := h.unlocked
  held := by
    intro v hv
    obtain ⟨⟩ := hv
    exact .inl (h.safe u (s.safe_pool walletId u))
  sound := h.sound

/-- A stretch that begins with an unlock has the new signer in hand. -/
theorem Lands.unlock (h : (s.unlock i).1.Lands i startedIn (some (s.unlock i).2) r) :
    s.Lands i startedIn none r where
  session := h.session
  ops := h.ops
  safe := h.safe
  signers := h.signers
  unlocked := by
    intro u hu
    rcases h.unlocked u hu with hu | hu
    · rcases List.mem_append.mp hu with hu | hu
      · exact .inl hu
      · exact .inr (h.held u (congrArg some (List.mem_singleton.mp hu).symm))
    · exact .inr hu
  held := nofun
  sound := h.sound

theorem lands_populateNext (opts : PopulateOpts) (summary : PopulateSummary)
    (todo : List PoolWallet) (hsession : s.session = startedIn) :
    s.Lands i startedIn none (populateNext opts s summary todo) := by
  induction todo generalizing s summary with
  | nil => exact lands_settled _
  | cons w todo ih =>
    have hbegun := s.keeps_beginMutation w.id
    rw [populateNext]
    split
    · exact .after hbegun (ih _ hsession)
    · split
      · exact .after hbegun (ih _ hsession)
      · refine .after hbegun (.stay rfl ⟨?_, nofun⟩)
        intro token htoken
        obtain ⟨⟩ := htoken
        exact hsession

section Turns

variable {turn : PopulateTurn} {signer : Signer} {summary : PopulateSummary}
  (htoken : turn.token.session = startedIn)

include htoken

theorem lands_populateDrop :
    s.Lands i startedIn (some signer) (populateDrop turn s signer summary) := by
  rw [populateDrop]
  refine .after (s.keeps_lock signer) (.of_safe ?_ (s.safe_lock signer))
  split
  · exact lands_settled _
  · next hsession =>
    exact lands_populateNext _ _ _ ((not_not.mp hsession).symm.trans htoken)

theorem lands_populateSkip : s.Lands i startedIn none (populateSkip turn s) := by
  rw [populateSkip]
  split
  · exact lands_settled _
  · next hsession =>
    exact lands_populateNext _ _ _ ((not_not.mp hsession).symm.trans htoken)

theorem lands_populatePool (hop : signer.op = i)
    (hcurrent : s.isCurrent turn.wallet.id turn.token = true) :
    s.Lands i startedIn (some signer) (populatePool turn s signer summary) := by
  have hsession : turn.token.session = s.session := (of_decide_eq_true hcurrent).1
  rw [populatePool]
  exact .pool hop (htoken.symm.trans hsession)
    (lands_populateNext _ _ _ (hsession.symm.trans htoken))

theorem lands_populateUnlocked (hop : signer.op = i) :
    s.Lands i startedIn (some signer) (populateUnlocked turn s signer) := by
  rw [populateUnlocked]
  split
  · exact lands_populateDrop htoken
  · next hcurrent =>
    split
    · refine .stay rfl ⟨?_, ?_⟩
      · intro token hpc
        exact some.inj hpc ▸ htoken
      · intro u hu
        exact some.inj hu ▸ hop
    · exact lands_populatePool htoken hop (not_not.mp hcurrent)

theorem lands_populateChecked (hop : signer.op = i) (owns : Option Bool) :
    s.Lands i startedIn (some signer) (populateChecked turn s signer (.ok owns)) := by
  rw [populateChecked]
  split
  · exact lands_populateDrop htoken
  · next hcurrent =>
    have hsession : turn.token.session = s.session := (of_decide_eq_true (not_not.mp hcurrent)).1
    split
    · refine .after (s.keeps_lock signer) (.of_safe ?_ (s.safe_lock signer))
      exact lands_populateNext _ _ _ (hsession.symm.trans htoken)
    · exact lands_populatePool htoken hop (not_not.mp hcurrent)

end Turns

theorem lands_captureCurrent {token : PoolToken} {signer : Signer} {rest : PoolWorld × PoolPc}
    (hrest : s.isCurrent walletId token = true → s.Lands i startedIn (some signer) rest) :
    s.Lands i startedIn (some signer) (s.captureCurrent walletId token signer rest) := by
  rw [captureCurrent]
  split
  · next hcurrent => exact hrest hcurrent
  · exact lands_abandon signer _

theorem isCurrent_session {token : PoolToken} (h : s.isCurrent walletId token = true) :
    token.session = s.session :=
  (of_decide_eq_true h).1

/-- The reads of the check in `populate` do not reject. -/
def ReadsAnswer (s : PoolWorld) (a : PoolAct) : Prop :=
  ∀ i reads op turn signer, a = .resume i (.checked reads) → s.ops i = some op →
    op.pc = .checking turn signer → ∃ owns, seedOwnsStoredAddresses reads = .ok owns

/-- An operation that comes back from an `await` loses no signer. -/
theorem lands_resume {op : PoolOp} {answer : PoolAnswer} (hsound : PcSound i op.startedIn op.pc)
    (hreads : ∀ reads turn signer, answer = .checked reads → op.pc = .checking turn signer →
      ∃ owns, seedOwnsStoredAddresses reads = .ok owns) (h : s.resume i op answer = some r) :
    s.Lands i op.startedIn op.pc.signer r := by
  obtain ⟨startedIn, pc⟩ := op
  have htoken := hsound.token
  have hop := hsound.signer
  cases answer with
  | listed wallets =>
    simp only [resume] at h
    split at h
    · exact some.inj h ▸ lands_settled _
    · split at h
      · exact some.inj h ▸ lands_settled _
      · next hsession =>
        exact some.inj h ▸ lands_populateNext _ _ _ (not_not.mp hsession)
    · cases h
  | unlocked result =>
    simp only [resume] at h
    split at h
    · exact some.inj h ▸ lands_populateSkip (htoken _ rfl)
    · exact some.inj h ▸ .unlock (lands_populateUnlocked (htoken _ rfl) rfl)
    · exact some.inj h ▸ lands_settled _
    · obtain ⟨⟩ := h
      refine .unlock (lands_captureCurrent fun _ => .stay rfl ⟨htoken, ?_⟩)
      exact fun u hu => some.inj hu ▸ rfl
    · exact some.inj h ▸ lands_settled _
    · split at h
      · next hcurrent =>
        obtain ⟨⟩ := h
        have hsession := (htoken _ rfl).symm.trans (isCurrent_session hcurrent)
        exact .unlock (.pool rfl hsession (lands_settled _))
      · exact some.inj h ▸ .unlock (lands_abandon _ _)
    · cases h
  | checked reads =>
    simp only [resume] at h
    split at h
    · obtain ⟨⟩ := h
      obtain ⟨owns, howns⟩ := hreads reads _ _ rfl rfl
      rw [howns]
      exact lands_populateChecked (htoken _ rfl) (hop _ rfl) owns
    · split at h
      · exact some.inj h ▸ lands_abandon _ _
      · obtain ⟨⟩ := h
        refine lands_captureCurrent fun _ => ?_
        split
        · exact .stay rfl ⟨htoken, hop⟩
        · exact lands_abandon _ _
    · cases h
  | sealed result =>
    simp only [resume] at h
    split at h
    · exact some.inj h ▸ lands_abandon _ _
    · exact some.inj h ▸ .stay rfl ⟨htoken, hop⟩
    · cases h
  | read current =>
    simp only [resume] at h
    split at h
    · exact some.inj h ▸ lands_abandon _ _
    · obtain ⟨⟩ := h
      exact lands_captureCurrent fun _ => .stay rfl ⟨htoken, hop⟩
    · cases h
  | written result =>
    simp only [resume] at h
    split at h
    · exact some.inj h ▸ lands_abandon _ _
    · obtain ⟨⟩ := h
      refine lands_captureCurrent fun hcurrent => ?_
      have hsession := (htoken _ rfl).symm.trans (isCurrent_session hcurrent)
      exact .pool (hop _ rfl) hsession (lands_settled _)
    · cases h

/-- An operation has no signer in hand when it begins. -/
theorem lands_begin (call : PoolCall) : s.Lands i s.session none (s.begin call) := by
  cases call with
  | populate opts =>
    rw [PoolWorld.begin]
    split
    · exact lands_settled _
    · exact .stay rfl ⟨nofun, nofun⟩
  | captureOne wallet bip39Passphrase =>
    rw [PoolWorld.begin]
    split
    · exact lands_settled _
    · refine .after (s.keeps_beginMutation wallet.id) (.stay rfl ⟨?_, nofun⟩)
      exact fun token htoken => some.inj htoken ▸ rfl
  | unlockOne walletId =>
    rw [PoolWorld.begin]
    refine .after (s.keeps_beginMutation walletId) (.stay rfl ⟨?_, nofun⟩)
    exact fun token htoken => some.inj htoken ▸ rfl

/-! ### Steps -/

theorem setOp_self (s : PoolWorld) (i : ℕ) (op : PoolOp) : (s.setOp i op).ops i = some op :=
  Function.update_self ..

theorem setOp_of_ne (s : PoolWorld) {i j : ℕ} (op : PoolOp) (h : j ≠ i) :
    (s.setOp i op).ops j = s.ops j := Function.update_of_ne h ..

/-- A stretch of operation `i` keeps all signers accounted for. -/
theorem Accounted.land (h : s.Accounted) {held : Option Signer}
    (hlands : s.Lands i startedIn held r)
    (hheld : ∀ op, s.ops i = some op → op.startedIn = startedIn ∧ op.pc.signer = held) :
    (r.1.setOp i ⟨startedIn, r.2⟩).Accounted where
  ops := by
    intro j op hj
    by_cases hji : j = i
    · subst hji
      obtain rfl := some.inj ((setOp_self ..).symm.trans hj)
      exact hlands.sound
    · rw [setOp_of_ne _ _ hji, hlands.ops] at hj
      exact h.ops j op hj
  pooled := by
    intro walletId u hu
    have hsession : (r.1.setOp i ⟨startedIn, r.2⟩).session = s.session := hlands.session
    rw [hsession]
    rcases hlands.signers walletId u hu with hold | ⟨rfl, hown⟩
    · obtain ⟨op, hop, hstarted⟩ := h.pooled walletId u hold
      by_cases hui : u.op = i
      · rw [hui] at hop ⊢
        exact ⟨_, setOp_self .., (hheld op hop).1.symm.trans hstarted⟩
      · refine ⟨op, ?_, hstarted⟩
        rw [setOp_of_ne _ _ hui, hlands.ops]
        exact hop
    · exact ⟨_, setOp_self .., hown⟩
  unlocked := by
    intro u hu
    have hinhand : r.2.signer = some u →
        ∃ op, (r.1.setOp i ⟨startedIn, r.2⟩).ops u.op = some op ∧ op.pc.signer = some u := by
      intro hsigner
      rw [hlands.sound.signer u hsigner]
      exact ⟨_, setOp_self .., hsigner⟩
    rcases hlands.unlocked u hu with hold | hsafe | hsigner
    · rcases h.unlocked u hold with hsafe | ⟨op, hop, hsigner⟩
      · exact .inl (hlands.safe u hsafe)
      · by_cases hui : u.op = i
        · have hwas := (hheld op (hui ▸ hop)).2
          exact (hlands.held u (hwas.symm.trans hsigner)).imp id hinhand
        · refine .inr ⟨op, ?_, hsigner⟩
          rw [setOp_of_ne _ _ hui, hlands.ops]
          exact hop
    · exact .inl hsafe
    · exact .inr (hinhand hsigner)

theorem Accounted.evict (h : s.Accounted) (walletId : String) : (s.evict walletId).Accounted where
  ops := h.ops
  pooled := fun walletId' u hu =>
    h.pooled walletId' u ((s.keeps_evict walletId).signers _ hu)
  unlocked := fun u hu => (h.unlocked u hu).imp_left ((s.keeps_evict walletId).safe u)

theorem Accounted.lockAll (h : s.Accounted) : s.lockAll.Accounted where
  ops := h.ops
  pooled := fun _ _ hu => nomatch hu
  unlocked := by
    intro u hu
    refine (h.unlocked u hu).imp_left fun hsafe => .inl ?_
    rcases hsafe with hlocked | ⟨walletId, hmem⟩
    · exact List.mem_append_left _ hlocked
    · exact List.mem_append_right _ (List.mem_map_of_mem hmem)

/-- One step keeps all signers accounted for, unless a read of the check in `populate`
rejects. -/
theorem Accounted.step {a : PoolAct} (h : s.Accounted) (hreads : s.ReadsAnswer a)
    (hstep : s.step a = some t) : t.Accounted := by
  cases a with
  | begin i call =>
    simp only [PoolWorld.step] at hstep
    split at hstep
    · cases hstep
    · next hnone =>
      obtain ⟨⟩ := hstep
      refine h.land (lands_begin call) fun op hop => ?_
      rw [hnone] at hop
      cases hop
  | resume i answer =>
    simp only [PoolWorld.step] at hstep
    split at hstep
    · cases hstep
    · next op hop =>
      obtain ⟨r, hr, rfl⟩ := Option.map_eq_some_iff.mp hstep
      refine h.land (lands_resume (h.ops i op hop) ?_ hr) fun op' hop' => ?_
      · rintro reads turn signer rfl hpc
        exact hreads i reads op turn signer rfl hop hpc
      · obtain rfl := some.inj (hop.symm.trans hop')
        exact ⟨rfl, rfl⟩
  | evict walletId => exact some.inj hstep ▸ h.evict walletId
  | lockAll => exact some.inj hstep ▸ h.lockAll

/-! ### Runs -/

/-- Every signer of an operation that has settled is in the pool or locked. -/
def SettledSafe (s : PoolWorld) : Prop :=
  ∀ u ∈ s.unlocked, ∀ op outcome, s.ops u.op = some op → op.pc = .settled outcome → s.Safe u

/-- Of an operation that began before the session was locked no signer is in the pool, and every
one is locked, the one apart that the operation still has in hand. -/
def LockedAway (s : PoolWorld) : Prop :=
  ∀ u ∈ s.unlocked, ∀ op, s.ops u.op = some op → op.startedIn < s.session →
    (∀ walletId, (walletId, u) ∉ s.signers) ∧ (u ∈ s.locked ∨ op.pc.signer = some u)

theorem Accounted.settledSafe (h : s.Accounted) : s.SettledSafe := by
  intro u hu op outcome hop hsettled
  rcases h.unlocked u hu with hsafe | ⟨op', hop', hsigner⟩
  · exact hsafe
  · obtain rfl := some.inj (hop.symm.trans hop')
    rw [hsettled] at hsigner
    cases hsigner

theorem Accounted.lockedAway (h : s.Accounted) : s.LockedAway := by
  intro u hu op hop hbefore
  have hout : ∀ walletId, (walletId, u) ∉ s.signers := by
    intro walletId hmem
    obtain ⟨op', hop', hsession⟩ := h.pooled walletId u hmem
    obtain rfl := some.inj (hop.symm.trans hop')
    omega
  refine ⟨hout, ?_⟩
  rcases h.unlocked u hu with (hlocked | ⟨walletId, hmem⟩) | ⟨op', hop', hsigner⟩
  · exact .inl hlocked
  · exact absurd hmem (hout walletId)
  · obtain rfl := some.inj (hop.symm.trans hop')
    exact .inr hsigner

/-- **No unlocked signer is lost, as long as the check in `populate` gets its reads.** Whatever the
operations, their order and their failures: in every state of the run the signers of settled
operations are in the pool or locked; and of an operation that began before a `lockAll` no signer
is in the pool, and every one is locked once the operation has settled. -/
theorem signers_accounted (acts : List PoolAct)
    (hreads : Transition.Under ReadsAnswer step start acts) :
    Transition.Throughout (fun s => s.SettledSafe ∧ s.LockedAway) step start acts := by
  have haccounted := Transition.throughout_of_under
    (fun _ _ _ hs hG hstep => Accounted.step hs hG hstep) Accounted.start hreads
  exact haccounted.mono fun _ hs => ⟨hs.settledSafe, hs.lockedAway⟩

/-- A passphrase wallet whose passphrase is not stored yet. -/
def legacyWallet : PoolWallet where
  id := "w1"
  name := "Savings"
  passphraseEnabled := true
  encryptedPassphrase := none
  kdfParams := ⟨"argon2id", 3, 65536, 1, some [7]⟩

/-- A password and a typed passphrase. -/
def typedPassphrase : PopulateOpts := ⟨some "password", "passphrase", false, none⟩

/-- The vault has an account, and its addresses cannot be read. -/
def rejectedReads : OwnershipReads where
  comparable := true
  accounts := .ok ["a1"]
  addresses := fun _ => .error "vault is locked"
  publicKey := fun _ => .error "unreachable"

/-- A wallet unlocked with its password, and locked with the session. -/
theorem unlockOne_then_lockAll :
    Transition.Throughout (fun s => s.SettledSafe ∧ s.LockedAway) step start
      [.begin 0 (.unlockOne "w1"), .resume 0 (.unlocked (.ok ())), .lockAll] := by
  refine signers_accounted _ (.cons ?_ rfl (.cons ?_ rfl (.cons ?_ rfl trivial)))
  · intro i reads op turn signer h
    cases h
  · intro i reads op turn signer h
    cases h
  · intro i reads op turn signer h
    cases h

/-- The read of the addresses rejects while `populate` has the signer of a wallet in hand:
`populate` rejects, and the signer is neither in the pool nor locked, not even by `lockAll`. -/
theorem rejected_read_leaks_a_signer :
    ∃ s u outcome, Transition.run step start
        [.begin 0 (.populate typedPassphrase), .resume 0 (.listed (.ok [legacyWallet])),
          .resume 0 (.unlocked (.ok ())), .resume 0 (.checked rejectedReads), .lockAll] = some s ∧
      u ∈ s.unlocked ∧ s.ops u.op = some ⟨0, .settled outcome⟩ ∧ ¬s.Safe u := by
  have hsummary : (Transition.run step start
      [.begin 0 (.populate typedPassphrase), .resume 0 (.listed (.ok [legacyWallet])),
        .resume 0 (.unlocked (.ok ())), .resume 0 (.checked rejectedReads), .lockAll]).map
        (fun s => (s.unlocked, s.locked, s.signers, s.ops 0)) =
      some ([⟨0, 0⟩], [], [], some ⟨0, .settled (.threw (.failed "vault is locked"))⟩) := by
    decide
  obtain ⟨s, hs, hall⟩ := Option.map_eq_some_iff.mp hsummary
  obtain ⟨hunlocked, hall⟩ := Prod.mk.inj hall
  obtain ⟨hlocked, hall⟩ := Prod.mk.inj hall
  obtain ⟨hsigners, hop⟩ := Prod.mk.inj hall
  refine ⟨s, ⟨0, 0⟩, _, hs, ?_, hop, ?_⟩
  · rw [hunlocked]
    exact List.mem_cons_self
  · rintro (hmem | ⟨walletId, hmem⟩)
    · rw [hlocked] at hmem
      cases hmem
    · rw [hsigners] at hmem
      cases hmem

end PoolWorld

end XchainWallet
