import XchainWallet.Flows.ReservationLedger

/-!
# What is reserved stays reserved

While no load comes back to a ledger that is hydrated already (`LoadsOnce`), memory holds every
entry that is due. While, besides, the saves land in the order in which they were issued and none
fails (`SavesInOrder`), the store holds every due entry whose reserve has resolved: its own save
has landed, and every save behind that one was taken with the entry in memory.
-/

namespace XchainWallet

open Transition LedgerWorld

namespace LedgerWorld

variable {ttlMs : ℤ} {s t : LedgerWorld} {a : LedgerAct}

/-! ### The conditions -/

/-- No load comes back to a ledger that is hydrated. -/
def LoadsOnce (s : LedgerWorld) (a : LedgerAct) : Prop := ∀ i, a = .hydrate i → s.hydrated = false

/-- The save that ends is the oldest one under way, and it has landed. -/
def SavesInOrder (s : LedgerWorld) (a : LedgerAct) : Prop :=
  ∀ i ok, a = .saved i ok → ok = true ∧ s.saves.head?.map LedgerSave.call = some i

/-! ### The properties -/

/-- Every entry that is due is in memory. -/
def MemoryHolds (s : LedgerWorld) : Prop := ∀ o ∈ s.due, o ∈ s.mem

/-- The store holds the entry, with or without the stamp that a load gives it. -/
def Stores (stored : List Reservation) (r : Reservation) : Prop :=
  ∃ v ∈ stored, r = v ∨ ∃ now, r = v.stamped now

/-- Every due entry whose reserve has resolved is in the store. -/
def StoreHolds (s : LedgerWorld) : Prop := ∀ o ∈ s.due, o.ref ∈ s.resolved → Stores s.stored o.val

/-! ### Memory -/

/-- What keeps the entries in memory. -/
structure Kept (s : LedgerWorld) : Prop where
  ready : ∀ i call, s.calls i = some (.ready call) → s.hydrated = true
  early : s.hydrated = false → s.due = []
  memory : s.MemoryHolds

theorem Kept.start (now : ℤ) (stored : List Reservation) : (start now stored).Kept where
  ready := nofun
  early := fun _ => rfl
  memory := fun _ ho => ho

/-- A call that goes on to an `await` before its body, or ends. -/
theorem Kept.setCall (h : s.Kept) {i : ℕ} {pc : Option LedgerPc}
    (hready : ∀ call, pc = some (.ready call) → s.hydrated = true) : (s.setCall i pc).Kept where
  ready := by
    intro j call hj
    by_cases hji : j = i
    · subst hji
      exact hready call ((s.setCall_self j pc).symm.trans hj)
    · exact h.ready j call ((s.setCall_of_ne pc hji).symm.trans hj)
  early := h.early
  memory := h.memory

theorem Kept.hydrate (h : s.Kept) (hfirst : s.hydrated = false)
    (entries : Option (List Reservation)) : (s.hydrate entries).Kept where
  ready := fun _ _ _ => rfl
  early := nofun
  memory := by
    intro o ho
    rw [LedgerWorld.hydrate, h.early hfirst] at ho
    exact ho

theorem mem_of_mem_filter_append {p : HoldObj → Bool} {due mem objs : List HoldObj}
    (h : ∀ o ∈ due, o ∈ mem) : ∀ o ∈ due.filter p ++ objs, o ∈ mem.filter p ++ objs := by
  intro o ho
  rcases List.mem_append.mp ho with ho | ho
  · obtain ⟨hdue, hp⟩ := List.mem_filter.mp ho
    exact List.mem_append_left _ (List.mem_filter.mpr ⟨h o hdue, hp⟩)
  · exact List.mem_append_right _ ho

theorem Kept.edit (h : s.Kept) (hhydrated : s.hydrated = true) (keeps : Reservation → Bool)
    (added : Option Reservation) : (s.edit keeps added).Kept where
  ready := fun _ _ _ => hhydrated
  early := fun hfalse => absurd (hfalse.symm.trans hhydrated) nofun
  memory := mem_of_mem_filter_append h.memory

theorem Kept.persist (h : s.Kept) (i : ℕ) (reserved : Option ℕ) : (s.persist i reserved).Kept :=
  ⟨h.ready, h.early, h.memory⟩

theorem Kept.change (h : s.Kept) (hhydrated : s.hydrated = true) (i : ℕ)
    (keeps : Reservation → Bool) (added : Option Reservation) :
    (s.change i keeps added).Kept := by
  rw [LedgerWorld.change]
  split
  · exact ((h.edit hhydrated keeps added).persist i _).setCall nofun
  · exact (h.edit hhydrated keeps added).setCall nofun

theorem Kept.body (h : s.Kept) (hhydrated : s.hydrated = true) (i : ℕ) (call : LedgerCall) :
    (s.body ttlMs i call).Kept := by
  cases call with
  | reserve entry | releaseByAddress chainId address =>
    rw [LedgerWorld.body]
    split
    · exact h.setCall nofun
    · exact h.change hhydrated i _ _
  | release id =>
    rw [LedgerWorld.body]
    exact h.change hhydrated i _ _
  | localDeltas chainId excludeId => exact h.setCall nofun

/-- One step keeps the entries in memory, unless it is a load that comes back too late. -/
theorem Kept.step (h : s.Kept) (ha : s.LoadsOnce a) (hstep : s.step ttlMs a = some t) : t.Kept := by
  cases a with
  | clock now =>
    obtain ⟨⟩ := hstep
    exact ⟨h.ready, h.early, h.memory⟩
  | begin i call =>
    simp only [step] at hstep
    split at hstep
    · obtain ⟨⟩ := hstep
      refine h.setCall fun call' hpc => ?_
      split at hpc
      · assumption
      · cases hpc
    · cases hstep
  | fetch i ok =>
    simp only [step] at hstep
    split at hstep
    · obtain ⟨⟩ := hstep
      exact h.setCall nofun
    · cases hstep
  | hydrate i =>
    simp only [step] at hstep
    split at hstep
    · obtain ⟨⟩ := hstep
      exact (h.hydrate (ha i rfl) _).setCall fun _ _ => rfl
    · cases hstep
  | run i =>
    simp only [step] at hstep
    split at hstep
    · next call hcall =>
      obtain ⟨⟩ := hstep
      exact h.body (h.ready i call hcall) i call
    · cases hstep
  | saved i ok =>
    simp only [step] at hstep
    obtain ⟨save, -, rfl⟩ := Option.map_eq_some_iff.mp hstep
    have hended : (s.endSave save ok).Kept := ⟨h.ready, h.early, h.memory⟩
    exact hended.setCall nofun

/-! ### The store -/

/-- What keeps the entries in the store. A due entry is in the snapshot of its own save and in
every snapshot behind it. -/
structure StoreKept (s : LedgerWorld) : Prop extends Kept s where
  due_lt : ∀ o ∈ s.due, o.ref < s.nextRef
  resolved_lt : ∀ r ∈ s.resolved, r < s.nextRef
  reserved_lt : ∀ save ∈ s.saves, ∀ r, save.reserved = some r → r < s.nextRef
  unsaved : s.hydrated = false → s.saves = [] ∧ s.resolved = []
  loaded : s.hydrated = false → ∀ i call entries,
    s.calls i = some (.loaded call (some entries)) → entries = s.stored
  stored : s.StoreHolds
  snapshots : ∀ o ∈ s.due, o.ref ∈ s.resolved → ∀ save ∈ s.saves, o ∈ save.snapshot
  pending : ∀ o ∈ s.due, ∀ before save after, s.saves = before ++ save :: after →
    save.reserved = some o.ref → ∀ w ∈ save :: after, o ∈ w.snapshot

theorem StoreKept.start (now : ℤ) (stored : List Reservation) : (start now stored).StoreKept where
  toKept := Kept.start now stored
  due_lt := nofun
  resolved_lt := nofun
  reserved_lt := nofun
  unsaved := fun _ => ⟨rfl, rfl⟩
  loaded := nofun
  stored := nofun
  snapshots := nofun
  pending := nofun

theorem StoreKept.setCall (h : s.StoreKept) {i : ℕ} {pc : Option LedgerPc}
    (hready : ∀ call, pc = some (.ready call) → s.hydrated = true)
    (hloaded : s.hydrated = false → ∀ call entries, pc = some (.loaded call (some entries)) →
      entries = s.stored) : (s.setCall i pc).StoreKept where
  toKept := h.toKept.setCall hready
  due_lt := h.due_lt
  resolved_lt := h.resolved_lt
  reserved_lt := h.reserved_lt
  unsaved := h.unsaved
  loaded := by
    intro hfirst j call entries hj
    by_cases hji : j = i
    · subst hji
      exact hloaded hfirst call entries ((s.setCall_self j pc).symm.trans hj)
    · exact h.loaded hfirst j call entries ((s.setCall_of_ne pc hji).symm.trans hj)
  stored := h.stored
  snapshots := h.snapshots
  pending := h.pending

theorem mem_holdObjs {o : HoldObj} {ref : ℕ} {rs : List Reservation} (h : o ∈ holdObjs ref rs) :
    ref ≤ o.ref ∧ o.ref < ref + (holdObjs ref rs).length ∧ o.val ∈ rs := by
  induction rs generalizing ref with
  | nil => cases h
  | cons r rs ih =>
    rw [holdObjs, List.length_cons]
    rcases List.mem_cons.mp h with rfl | h
    · refine ⟨Nat.le_refl _, ?_, (.head _)⟩
      dsimp only
      omega
    · obtain ⟨hle, hlt, hval⟩ := ih h
      refine ⟨?_, ?_, List.mem_cons_of_mem _ hval⟩
      · omega
      · omega

/-- The first load: what it brings is what the store holds. -/
theorem StoreKept.hydrate (h : s.StoreKept) (hfirst : s.hydrated = false)
    {entries : Option (List Reservation)} (hentries : ∀ rs, entries = some rs → rs = s.stored) :
    (s.hydrate entries).StoreKept where
  toKept := h.toKept.hydrate hfirst entries
  due_lt := by
    intro o ho
    rw [LedgerWorld.hydrate, h.early hfirst] at ho
    exact (mem_holdObjs ho).2.1
  resolved_lt := by
    intro r hr
    rw [LedgerWorld.hydrate, (h.unsaved hfirst).2] at hr
    obtain ⟨o, ho, rfl⟩ := List.mem_map.mp hr
    exact (mem_holdObjs ho).2.1
  reserved_lt := by
    intro save hsave
    rw [LedgerWorld.hydrate, (h.unsaved hfirst).1] at hsave
    cases hsave
  unsaved := nofun
  loaded := nofun
  stored := by
    intro o ho _
    rw [LedgerWorld.hydrate, h.early hfirst] at ho
    obtain ⟨-, -, hval⟩ := mem_holdObjs ho
    obtain ⟨v, hv, hstamped⟩ := List.mem_map.mp hval
    refine ⟨v, ?_, .inr ⟨s.now, hstamped.symm⟩⟩
    cases entries with
    | none => cases hv
    | some rs => exact hentries rs rfl ▸ hv
  snapshots := by
    intro o ho _ save hsave
    rw [LedgerWorld.hydrate, (h.unsaved hfirst).1] at hsave
    cases hsave
  pending := by
    intro o ho before save after hsaves
    rw [LedgerWorld.hydrate, (h.unsaved hfirst).1] at hsaves
    exact absurd hsaves.symm (by simp)

/-- Dropping entries endangers none of the others. -/
theorem StoreKept.drop (h : s.StoreKept) (hhydrated : s.hydrated = true)
    (keeps : Reservation → Bool) : (s.edit keeps none).StoreKept := by
  have hdue : ∀ o ∈ (s.edit keeps none).due, o ∈ s.due := by
    intro o ho
    simp only [edit, Option.toList_none, List.map_nil, List.append_nil] at ho
    exact (List.mem_filter.mp ho).1
  exact {
    toKept := h.toKept.edit hhydrated keeps none
    due_lt := fun o ho => h.due_lt o (hdue o ho)
    resolved_lt := h.resolved_lt
    reserved_lt := h.reserved_lt
    unsaved := h.unsaved
    loaded := h.loaded
    stored := fun o ho => h.stored o (hdue o ho)
    snapshots := fun o ho => h.snapshots o (hdue o ho)
    pending := fun o ho => h.pending o (hdue o ho) }

/-- What is due after an edit was due before, or is the entry that was added. -/
theorem mem_due_edit {keeps : Reservation → Bool} {added : Option Reservation} {o : HoldObj}
    (ho : o ∈ (s.edit keeps added).due) :
    o ∈ s.due ∨ o.ref = s.nextRef ∧ added.map (fun _ => s.nextRef) = some o.ref := by
  rcases List.mem_append.mp ho with ho | ho
  · exact .inl (List.mem_filter.mp ho).1
  · obtain ⟨r, hr, rfl⟩ := List.mem_map.mp ho
    rw [Option.mem_toList] at hr
    exact .inr ⟨rfl, by rw [hr]; rfl⟩

/-- The save behind an edit has all that is due. -/
theorem StoreKept.editSave (h : s.StoreKept) (hhydrated : s.hydrated = true) (i : ℕ)
    (keeps : Reservation → Bool) (added : Option Reservation) :
    ((s.edit keeps added).persist i (added.map fun _ => s.nextRef)).StoreKept := by
  have hkept := h.toKept.edit hhydrated keeps added
  have hlt : ∀ r, added.map (fun _ => s.nextRef) = some r → r < (s.edit keeps added).nextRef := by
    intro r hr
    obtain ⟨r', rfl, rfl⟩ := Option.map_eq_some_iff.mp hr
    simp [edit]
  have hle : s.nextRef ≤ (s.edit keeps added).nextRef := Nat.le_add_right ..
  have hnew : s.nextRef ∉ s.resolved := fun hr => Nat.lt_irrefl _ (h.resolved_lt _ hr)
  refine {
    toKept := hkept.persist i _
    due_lt := fun o ho => ?_
    resolved_lt := fun r hr => Nat.lt_of_lt_of_le (h.resolved_lt r hr) hle
    reserved_lt := fun save hsave r hr => ?_
    unsaved := fun hfalse => absurd (hfalse.symm.trans hhydrated) nofun
    loaded := fun hfalse => absurd (hfalse.symm.trans hhydrated) nofun
    stored := fun o ho hr => ?_
    snapshots := fun o ho hr save hsave => ?_
    pending := fun o ho before save after hsaves hreserved w hw => ?_ }
  · rcases mem_due_edit ho with hold | ⟨-, hadded⟩
    · exact Nat.lt_of_lt_of_le (h.due_lt o hold) hle
    · exact hlt o.ref hadded
  · rcases List.mem_append.mp hsave with hsave | hsave
    · exact Nat.lt_of_lt_of_le (h.reserved_lt save hsave r hr) hle
    · obtain rfl := List.mem_singleton.mp hsave
      exact hlt r hr
  · rcases mem_due_edit ho with hold | ⟨href, -⟩
    · exact h.stored o hold hr
    · exact absurd (href ▸ hr) hnew
  · rcases List.mem_append.mp hsave with hsave | hsave
    · rcases mem_due_edit ho with hold | ⟨href, -⟩
      · exact h.snapshots o hold hr save hsave
      · exact absurd (href ▸ hr) hnew
    · obtain rfl := List.mem_singleton.mp hsave
      exact hkept.memory o ho
  · -- the new save is the last one, so it is behind every other
    rcases List.eq_nil_or_concat after with rfl | ⟨after, last, hafter⟩
    · obtain ⟨-, hlast⟩ := List.append_inj' hsaves rfl
      rw [List.mem_singleton.mp hw, ← List.singleton_inj.mp hlast]
      exact hkept.memory o ho
    · rw [List.concat_eq_append] at hafter
      subst hafter
      have hsplit : ((s.edit keeps added).persist i (added.map fun _ => s.nextRef)).saves =
          (before ++ save :: after) ++ [last] := by
        rw [List.append_assoc]
        exact hsaves
      obtain ⟨hbefore, hlast⟩ := List.append_inj' hsplit rfl
      have hbefore : s.saves = before ++ save :: after := hbefore
      rw [← List.cons_append] at hw
      rcases List.mem_append.mp hw with hw | hw
      · rcases mem_due_edit ho with hold | ⟨href, -⟩
        · exact h.pending o hold before save after hbefore hreserved w hw
        · have hmem : save ∈ s.saves := by
            rw [hbefore]
            exact List.mem_append_right _ (.head _)
          exact absurd (h.reserved_lt save hmem _ hreserved) (href ▸ Nat.lt_irrefl _)
      · rw [List.mem_singleton.mp hw, ← List.singleton_inj.mp hlast]
        exact hkept.memory o ho

theorem StoreKept.change (h : s.StoreKept) (hhydrated : s.hydrated = true) (i : ℕ)
    (keeps : Reservation → Bool) (added : Option Reservation) :
    (s.change i keeps added).StoreKept := by
  rw [LedgerWorld.change]
  split
  · exact (h.editSave hhydrated i keeps added).setCall nofun fun _ => nofun
  · next hsame =>
    obtain rfl : added = none := not_not.mp (not_or.mp hsame).1
    exact (h.drop hhydrated keeps).setCall nofun fun _ => nofun

theorem StoreKept.body (h : s.StoreKept) (hhydrated : s.hydrated = true) (i : ℕ)
    (call : LedgerCall) : (s.body ttlMs i call).StoreKept := by
  cases call with
  | reserve entry | releaseByAddress chainId address =>
    rw [LedgerWorld.body]
    split
    · exact h.setCall nofun fun _ => nofun
    · exact h.change hhydrated i _ _
  | release id =>
    rw [LedgerWorld.body]
    exact h.change hhydrated i _ _
  | localDeltas chainId excludeId => exact h.setCall nofun fun _ => nofun

/-- The oldest save lands: the store now has what its call has reserved. -/
theorem StoreKept.endSave (h : s.StoreKept) {save : LedgerSave} {rest : List LedgerSave}
    (hsaves : s.saves = save :: rest) : (s.endSave save true).StoreKept := by
  have hrest : (s.endSave save true).saves = rest := by simp [LedgerWorld.endSave, hsaves]
  have hnotearly : s.hydrated ≠ false := by
    intro hfalse
    exact absurd (hsaves.symm.trans (h.unsaved hfalse).1) nofun
  -- a due entry that counts as resolved now is in the save, and in all behind it
  have hin : ∀ o ∈ s.due, o.ref ∈ s.resolved ++ save.reserved.toList →
      ∀ w ∈ save :: rest, o ∈ w.snapshot := by
    intro o ho hr
    rcases List.mem_append.mp hr with hr | hr
    · exact fun w hw => h.snapshots o ho hr w (hsaves ▸ hw)
    · exact h.pending o ho [] save rest hsaves (Option.mem_toList.mp hr)
  refine {
    toKept := ⟨h.ready, h.early, h.memory⟩
    due_lt := h.due_lt
    resolved_lt := fun r hr => ?_
    reserved_lt := fun w hw => ?_
    unsaved := fun hfalse => absurd hfalse hnotearly
    loaded := fun hfalse => absurd hfalse hnotearly
    stored := fun o ho hr => ?_
    snapshots := fun o ho hr w hw => ?_
    pending := fun o ho before w after hsplit => ?_ }
  · rcases List.mem_append.mp hr with hr | hr
    · exact h.resolved_lt r hr
    · exact h.reserved_lt save (hsaves ▸ (.head _)) r (Option.mem_toList.mp hr)
  · rw [hrest] at hw
    exact h.reserved_lt w (hsaves ▸ List.mem_cons_of_mem _ hw)
  · exact ⟨o.val, List.mem_map_of_mem (hin o ho hr save (.head _)), .inl rfl⟩
  · rw [hrest] at hw
    exact hin o ho hr w (.tail _ hw)
  · rw [hrest] at hsplit
    exact h.pending o ho (save :: before) w after (by rw [hsaves, hsplit]; rfl)

/-- One step keeps the entries in the store, while the loads and the saves come back as they
went out. -/
theorem StoreKept.step (h : s.StoreKept) (hload : s.LoadsOnce a) (hsave : s.SavesInOrder a)
    (hstep : s.step ttlMs a = some t) : t.StoreKept := by
  cases a with
  | clock now =>
    obtain ⟨⟩ := hstep
    exact { h with toKept := ⟨h.ready, h.early, h.memory⟩ }
  | begin i call =>
    simp only [step] at hstep
    split at hstep
    · obtain ⟨⟩ := hstep
      refine h.setCall (fun call' hpc => ?_) fun hfirst call' entries hpc => ?_
      · split at hpc
        · assumption
        · cases hpc
      · rw [hfirst] at hpc
        cases hpc
    · cases hstep
  | fetch i ok =>
    simp only [step] at hstep
    split at hstep
    · obtain ⟨⟩ := hstep
      refine h.setCall nofun fun hfirst call entries hpc => ?_
      obtain ⟨-, hentries⟩ := LedgerPc.loaded.inj (Option.some.inj hpc)
      split at hentries
      · exact (Option.some.inj hentries).symm
      · cases hentries
    · cases hstep
  | hydrate i =>
    simp only [step] at hstep
    split at hstep
    · next call entries hcall =>
      obtain ⟨⟩ := hstep
      have hfirst := hload i rfl
      refine (h.hydrate hfirst fun rs hrs => ?_).setCall (fun _ _ => rfl) nofun
      exact h.loaded hfirst i call rs (hrs ▸ hcall)
    · cases hstep
  | run i =>
    simp only [step] at hstep
    split at hstep
    · next call hcall =>
      obtain ⟨⟩ := hstep
      exact h.body (h.ready i call hcall) i call
    · cases hstep
  | saved i ok =>
    simp only [step] at hstep
    obtain ⟨save, hfind, rfl⟩ := Option.map_eq_some_iff.mp hstep
    obtain ⟨rfl, hhead⟩ := hsave i ok rfl
    obtain ⟨first, hfirst, hcall⟩ := Option.map_eq_some_iff.mp hhead
    obtain ⟨rest, hsaves⟩ := List.head?_eq_some_iff.mp hfirst
    obtain rfl : first = save := by
      rw [hsaves, List.find?_cons_of_pos (by simpa using hcall)] at hfind
      exact Option.some.inj hfind
    exact (h.endSave hsaves).setCall nofun fun _ => nofun

/-! ### What ends a reservation -/

/-- The call takes the entry out: it releases it, reserves its id anew, or is a reserve that finds
it expired. -/
def Ends (ttlMs : ℤ) (s : LedgerWorld) (r : Reservation) : LedgerCall → Prop
  | .reserve entry => r.id = entry.id ∨ r.isExpired ttlMs s.now
  | .release id => r.id = id
  | .releaseByAddress chainId address => r.chainId = chainId ∧ r.address = some address
  | .localDeltas _ _ => False

theorem mem_due_change {i : ℕ} {keeps : Reservation → Bool} {added : Option Reservation}
    {o : HoldObj} (ho : o ∈ s.due) (hkeeps : keeps o.val = true) :
    o ∈ (s.change i keeps added).due := by
  have hedit : o ∈ (s.edit keeps added).due :=
    List.mem_append_left _ (List.mem_filter.mpr ⟨ho, hkeeps⟩)
  rw [change]
  split
  · exact hedit
  · exact hedit

/-- An entry is due until a call ends it. -/
theorem mem_due_step {o : HoldObj} (ho : o ∈ s.due)
    (hends : ∀ i call, a = .run i → s.calls i = some (.ready call) → ¬Ends ttlMs s o.val call)
    (hstep : s.step ttlMs a = some t) : o ∈ t.due := by
  cases a with
  | clock now =>
    obtain ⟨⟩ := hstep
    exact ho
  | begin i call | fetch i ok =>
    simp only [step] at hstep
    split at hstep
    · exact Option.some.inj hstep ▸ ho
    · cases hstep
  | hydrate i =>
    simp only [step] at hstep
    split at hstep
    · obtain ⟨⟩ := hstep
      exact List.mem_append_left _ ho
    · cases hstep
  | run i =>
    simp only [step] at hstep
    split at hstep
    · next call hcall =>
      obtain ⟨⟩ := hstep
      have hnot := hends i call rfl hcall
      cases call with
      | reserve entry =>
        obtain ⟨hid, hlive⟩ := not_or.mp hnot
        rw [body]
        split
        · exact ho
        · exact mem_due_change ho (decide_eq_true ⟨hid, hlive⟩)
      | release id =>
        rw [body]
        exact mem_due_change ho (decide_eq_true hnot)
      | releaseByAddress chainId address =>
        rw [body]
        split
        · exact ho
        · exact mem_due_change ho (decide_eq_true hnot)
      | localDeltas chainId excludeId => exact ho
    · cases hstep
  | saved i ok =>
    simp only [step] at hstep
    obtain ⟨save, -, rfl⟩ := Option.map_eq_some_iff.mp hstep
    exact ho

/-! ### Runs -/

/-- **What is reserved stays reserved, as long as the ledger is loaded once.** Whatever the calls
and their order: while no load comes back to a hydrated ledger, every due entry is in memory in
every state of the run; while the saves also land in the order in which they went out, every due
entry whose reserve has resolved is in the store as well. An entry is due until it is released,
reserved anew or found expired. -/
theorem reservations_kept (ttlMs now : ℤ) (stored : List Reservation) (acts : List LedgerAct) :
    (Transition.Under LoadsOnce (step ttlMs) (start now stored) acts →
      Transition.Throughout MemoryHolds (step ttlMs) (start now stored) acts) ∧
      (Transition.Under (fun s a => s.LoadsOnce a ∧ s.SavesInOrder a) (step ttlMs)
          (start now stored) acts →
        Transition.Throughout (fun s => s.MemoryHolds ∧ s.StoreHolds) (step ttlMs)
          (start now stored) acts) ∧
      ∀ s a t o, o ∈ s.due → s.step ttlMs a = some t →
        (∀ i call, a = .run i → s.calls i = some (.ready call) → ¬Ends ttlMs s o.val call) →
        o ∈ t.due := by
  refine ⟨fun hload => ?_, fun hguard => ?_, fun s a t o ho hstep hends => ?_⟩
  · have hkept := throughout_of_under (fun _ _ _ hs ha hstep => Kept.step hs ha hstep)
      (Kept.start now stored) hload
    exact hkept.mono fun _ h => h.memory
  · have hkept := throughout_of_under
      (fun _ _ _ hs ha hstep => StoreKept.step hs ha.1 ha.2 hstep)
      (StoreKept.start now stored) hguard
    exact hkept.mono fun _ h => ⟨h.memory, h.stored⟩
  · exact mem_due_step ho hends hstep

/-- A reservation of five coins. -/
def sampleReservation : Reservation where
  id := "r1"
  chainId := "btc"
  tick := "XCP"
  amount := "5"
  stamp := none
  address := none

/-- One reservation over an empty store is in memory, and in the store once its save has
landed. -/
theorem single_reservation_kept :
    Transition.Throughout (fun s => s.MemoryHolds ∧ s.StoreHolds) (step 1800000) (start 0 [])
      [.begin 0 (.reserve sampleReservation), .fetch 0 true, .hydrate 0, .run 0,
        .saved 0 true] := by
  refine (reservations_kept 1800000 0 [] _).2.1 ?_
  refine .cons ⟨nofun, nofun⟩ rfl ?_
  refine .cons ⟨nofun, nofun⟩ rfl ?_
  refine .cons ⟨fun _ _ => rfl, nofun⟩ rfl ?_
  refine .cons ⟨nofun, nofun⟩ rfl ?_
  refine .cons ⟨nofun, fun i ok h => ?_⟩ rfl trivial
  obtain ⟨rfl, rfl⟩ := LedgerAct.saved.inj h
  exact ⟨rfl, rfl⟩

/-- Two first calls load the store side by side. The one that comes back second takes the
reservation that the first has made, and that has resolved, out of memory again; the next
reserve writes the loss to the store. -/
theorem second_load_drops_a_reservation :
    ∃ s o, run (step 1800000) (start 0 [])
        [.begin 0 (.reserve sampleReservation), .begin 1 (.localDeltas "btc" none),
          .fetch 0 true, .fetch 1 true, .hydrate 0, .run 0, .saved 0 true, .hydrate 1, .run 1,
          .begin 2 (.reserve { sampleReservation with id := "r2" }), .run 2, .saved 2 true] =
          some s ∧
      o ∈ s.due ∧ o.ref ∈ s.resolved ∧ o ∉ s.mem ∧ o.val ∉ s.stored := by
  have hsummary : (run (step 1800000) (start 0 [])
      [.begin 0 (.reserve sampleReservation), .begin 1 (.localDeltas "btc" none),
        .fetch 0 true, .fetch 1 true, .hydrate 0, .run 0, .saved 0 true, .hydrate 1, .run 1,
        .begin 2 (.reserve { sampleReservation with id := "r2" }), .run 2, .saved 2 true]).map
        (fun s => (s.due, s.resolved, s.mem, s.stored)) =
      some ([⟨0, { sampleReservation with stamp := some 0 }⟩,
          ⟨1, { sampleReservation with id := "r2", stamp := some 0 }⟩], [0, 1],
        [⟨1, { sampleReservation with id := "r2", stamp := some 0 }⟩],
        [{ sampleReservation with id := "r2", stamp := some 0 }]) := by
    decide
  obtain ⟨s, hs, hall⟩ := Option.map_eq_some_iff.mp hsummary
  obtain ⟨hdue, hall⟩ := Prod.mk.inj hall
  obtain ⟨hresolved, hall⟩ := Prod.mk.inj hall
  obtain ⟨hmem, hstored⟩ := Prod.mk.inj hall
  refine ⟨s, ⟨0, { sampleReservation with stamp := some 0 }⟩, hs, ?_, ?_, ?_, ?_⟩
  · rw [hdue]
    decide
  · rw [hresolved]
    decide
  · rw [hmem]
    decide
  · rw [hstored]
    decide

end LedgerWorld

end XchainWallet
