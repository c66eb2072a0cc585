import XchainWallet.Keyed.List
import XchainWallet.Queue.Settlement

/-!
# The settlement journal

The live journal is a list of objects: the flush retires a record by the identity of its
object, so an `OwedObj` carries a reference beside the record, and whatever the code builds
anew gets a reference that was not used before. Two things change the live journal apart from
the flush: a settlement writer records a write (`recordOneOwedSettlement`), and the stored
journal is read (`mergeOwedSettlements`). Both keep one record for each `PendingTx`.
-/

namespace XchainWallet

/-- `OWED_SETTLEMENT_LIMIT`. -/
def owedSettlementLimit : ℕ := 50

/-- A record of the live journal, with the identity of its object. -/
structure OwedObj where
  ref : ℕ
  val : OwedRecord
deriving DecidableEq, Repr

/-- The `PendingTx` that the record names. -/
abbrev OwedObj.pendingTxId (o : OwedObj) : String := o.val.pendingTxId

/-- `owedRecordKey(record)`. -/
def owedRecordKey (owed : OwedRecord) : String :=
  if owed.id = "" then "pending:" ++ owed.pendingTxId else owed.id

/-- `capOwedSettlements()`: `slice(-OWED_SETTLEMENT_LIMIT)`. -/
def capOwedSettlements {α : Type} (owed : List α) : List α :=
  owed.drop (owed.length - owedSettlementLimit)

/-- `owed.walletId && prunedWallets.has(owed.walletId)`. -/
def OwedRecord.PrunedIn (pruned : List String) (owed : OwedRecord) : Prop :=
  ∃ walletId ∈ nonEmpty owed.walletId, walletId ∈ pruned

instance (pruned : List String) (owed : OwedRecord) : Decidable (owed.PrunedIn pruned) :=
  inferInstanceAs (Decidable (∃ walletId ∈ nonEmpty owed.walletId, walletId ∈ pruned))

/-- `foldOwedSettlement(prior, next) === next`. -/
def OwedRecord.YieldsTo (prior next : OwedRecord) : Prop :=
  prior.pendingTxId ≠ next.pendingTxId ∨
    ¬prior.Closes ∧ prior.op ≠ .reveal ∧ prior.patch = none

instance (prior next : OwedRecord) : Decidable (prior.YieldsTo next) :=
  inferInstanceAs (Decidable (_ ∨ _))

/-- `recordOneOwedSettlement` on the record that it has built. -/
def recordOneOwedSettlement (nextRef : ℕ) (owed : List OwedObj) (record : OwedRecord) :
    List OwedObj :=
  if record.pendingTxId = "" then owed
  else
    let prior := owed.find? fun o => o.pendingTxId = record.pendingTxId
    match foldOwedSettlement (prior.map OwedObj.val) record with
    | none => owed
    | some folded =>
      let others := owed.filter fun o => o.pendingTxId ≠ record.pendingTxId
      capOwedSettlements (others ++ [⟨nextRef, folded⟩])

/-! ### Reading the stored journal -/

/-- The variables of the loop in `mergeOwedSettlements`. -/
structure OwedMerge where
  nextRef : ℕ
  held : List String
  replaced : List (ℕ × OwedObj) := []
  restored : List OwedObj := []

/-- One stored record. A `Map` that is built from the live objects keeps the last one of a
`PendingTx`. -/
def OwedMerge.step (pruned : List String) (live : List OwedObj) (m : OwedMerge)
    (owed : OwedRecord) : OwedMerge :=
  if owed.pendingTxId = "" ∨ owed.PrunedIn pruned then m
  else
    match live.reverse.find? fun o => o.pendingTxId = owed.pendingTxId with
    | some l =>
      if (∀ p ∈ m.replaced, p.1 ≠ l.ref) ∧ owedRecordKey l.val ≠ owedRecordKey owed ∧
          ¬owed.YieldsTo l.val then
        let folded := (foldOwedSettlement (some owed) l.val).getD owed
        { m with nextRef := m.nextRef + 1, replaced := (l.ref, ⟨m.nextRef, folded⟩) :: m.replaced }
      else m
    | none =>
      if owed.pendingTxId ∈ m.held then m
      else { m with
        nextRef := m.nextRef + 1
        held := owed.pendingTxId :: m.held
        restored := m.restored ++ [⟨m.nextRef, owed⟩] }

/-- `replaced.get(s) ?? s`. -/
def OwedMerge.current (m : OwedMerge) (o : OwedObj) : OwedObj :=
  ((m.replaced.find? fun p => p.1 = o.ref).map Prod.snd).getD o

/-- The loop of `mergeOwedSettlements` over the stored records. -/
def OwedMerge.loop (pruned : List String) (live : List OwedObj) (nextRef : ℕ)
    (persisted : List OwedRecord) : OwedMerge :=
  persisted.foldl (OwedMerge.step pruned live)
    { nextRef := nextRef, held := live.map OwedObj.pendingTxId }

/-- The live records that stay: one that the key held before and holds no more was drained by
another writer. -/
def withoutDrained (persisted : List OwedRecord) (known : List String) (owed : List OwedObj) :
    List OwedObj :=
  owed.filter fun o => owedRecordKey o.val ∉ known ∨
    owedRecordKey o.val ∈ persisted.map owedRecordKey

/-- `mergeOwedSettlements(persisted, known)`, with the next free reference. -/
def mergeOwedSettlements (pruned : List String) (persisted : List OwedRecord)
    (known : List String) (nextRef : ℕ) (owed : List OwedObj) : List OwedObj × ℕ :=
  let live := withoutDrained persisted known owed
  if persisted.isEmpty then (live, nextRef)
  else
    let m := OwedMerge.loop pruned live nextRef persisted
    (capOwedSettlements (m.restored ++ live.map m.current), m.nextRef)

/-! ### One record for each `PendingTx` -/

theorem capOwedSettlements_sublist {α : Type} (owed : List α) :
    (capOwedSettlements owed).Sublist owed :=
  List.drop_sublist _ _

theorem capOwedSettlements_of_length_le {α : Type} {owed : List α}
    (h : owed.length ≤ owedSettlementLimit) : capOwedSettlements owed = owed := by
  rw [capOwedSettlements, Nat.sub_eq_zero_of_le h, List.drop_zero]

/-- A fold names the `PendingTx` of the later record. -/
theorem pendingTxId_foldOwedSettlement {prior : Option OwedRecord} {next folded : OwedRecord}
    (h : foldOwedSettlement prior next = some folded) : folded.pendingTxId = next.pendingTxId := by
  cases prior with
  | none => exact Option.some.inj h ▸ rfl
  | some prior =>
    rw [foldOwedSettlement] at h
    split at h
    · exact Option.some.inj h ▸ rfl
    · split at h
      · cases h
      · split at h
        · split at h
          · cases h
          · exact Option.some.inj h ▸ rfl
        · split at h
          · exact Option.some.inj h ▸ rfl
          · exact Option.some.inj h ▸ rfl

/-- A live journal: one object for each `PendingTx`, and references that tell its objects apart
and are all used up. -/
structure Journal.Sound (nextRef : ℕ) (owed : List OwedObj) : Prop where
  distinct : Keyed.Distinct OwedObj.pendingTxId owed
  ref_inj : ∀ o ∈ owed, ∀ o' ∈ owed, o.ref = o'.ref → o = o'
  ref_lt : ∀ o ∈ owed, o.ref < nextRef

namespace Journal

variable {nextRef : ℕ} {owed : List OwedObj} {pruned known : List String}
  {persisted : List OwedRecord}

theorem Sound.nil (nextRef : ℕ) : Sound nextRef [] :=
  ⟨List.nodup_nil, by simp, by simp⟩

theorem Sound.sublist {kept : List OwedObj} (h : Sound nextRef owed) (hs : kept.Sublist owed) :
    Sound nextRef kept where
  distinct := h.distinct.sublist (hs.map _)
  ref_inj := fun o ho o' ho' => h.ref_inj o (hs.subset ho) o' (hs.subset ho')
  ref_lt := fun o ho => h.ref_lt o (hs.subset ho)

/-- A recorded write leaves the objects of other `PendingTx`s and adds at most one new object. -/
theorem mem_recordOneOwedSettlement {record : OwedRecord} {o : OwedObj}
    (h : o ∈ recordOneOwedSettlement nextRef owed record) : o ∈ owed ∨ o.ref = nextRef := by
  rw [recordOneOwedSettlement] at h
  split at h
  · exact .inl h
  · dsimp only at h
    split at h
    · exact .inl h
    · rcases List.mem_append.mp ((capOwedSettlements_sublist _).subset h) with h | h
      · exact .inl (List.mem_filter.mp h).1
      · exact .inr (by rw [List.mem_singleton.mp h])

theorem Sound.recordOneOwedSettlement (h : Sound nextRef owed) (record : OwedRecord) :
    Sound (nextRef + 1) (recordOneOwedSettlement nextRef owed record) := by
  have hmono : Sound (nextRef + 1) owed :=
    ⟨h.distinct, h.ref_inj, fun o ho => Nat.lt_succ_of_lt (h.ref_lt o ho)⟩
  rw [XchainWallet.recordOneOwedSettlement]
  split
  · exact hmono
  · dsimp only
    split
    · exact hmono
    · next folded hfold =>
      refine Sound.sublist ?_ (capOwedSettlements_sublist _)
      have hpid := pendingTxId_foldOwedSettlement hfold
      refine ⟨?_, ?_, ?_⟩
      · refine Keyed.Distinct.append (h.distinct.filter _) (by simp [Keyed.Distinct]) ?_
        intro o ho b hb
        obtain rfl := List.mem_singleton.mp ho
        have hne := (List.mem_filter.mp hb).2
        simpa [OwedObj.pendingTxId, hpid] using hne
      · intro o ho o' ho' href
        simp only [List.mem_append, List.mem_filter, List.mem_singleton] at ho ho'
        rcases ho with ⟨ho, -⟩ | rfl <;> rcases ho' with ⟨ho', -⟩ | rfl
        · exact h.ref_inj o ho o' ho' href
        · exact absurd href (Nat.ne_of_lt (h.ref_lt o ho))
        · exact absurd href.symm (Nat.ne_of_lt (h.ref_lt o' ho'))
        · rfl
      · intro o ho
        rcases List.mem_append.mp ho with ho | ho
        · exact Nat.lt_succ_of_lt (h.ref_lt o (List.mem_filter.mp ho).1)
        · rw [List.mem_singleton.mp ho]
          exact Nat.lt_succ_self _

end Journal

/-! ### The merge -/

namespace OwedMerge

variable {pruned : List String} {live : List OwedObj} {start : ℕ} {m : OwedMerge}

/-- The objects that the merge has built. -/
def built (m : OwedMerge) : List OwedObj := m.restored ++ m.replaced.map Prod.snd

/-- What the loop keeps, over the live objects `live` and from the reference `start` on. -/
structure Inv (live : List OwedObj) (start : ℕ) (m : OwedMerge) : Prop where
  le : start ≤ m.nextRef
  fresh : ∀ o ∈ m.built, start ≤ o.ref ∧ o.ref < m.nextRef
  ref_inj : ∀ o ∈ m.built, ∀ o' ∈ m.built, o.ref = o'.ref → o = o'
  replaces : ∀ p ∈ m.replaced, ∃ l ∈ live, l.ref = p.1 ∧ l.pendingTxId = p.2.pendingTxId
  held : ∀ l ∈ live, l.pendingTxId ∈ m.held
  restores : ∀ o ∈ m.restored, o.pendingTxId ∈ m.held ∧ ∀ l ∈ live, l.pendingTxId ≠ o.pendingTxId
  distinct : Keyed.Distinct OwedObj.pendingTxId m.restored

private theorem Inv.ref_inj_cons (h : m.Inv live start) (record : OwedRecord)
    (built : List OwedObj) (hbuilt : ∀ o ∈ built, o = ⟨m.nextRef, record⟩ ∨ o ∈ m.built) :
    (∀ o ∈ built, start ≤ o.ref ∧ o.ref < m.nextRef + 1) ∧
      ∀ o ∈ built, ∀ o' ∈ built, o.ref = o'.ref → o = o' := by
  refine ⟨fun o ho => ?_, fun o ho o' ho' href => ?_⟩
  · rcases hbuilt o ho with rfl | ho
    · exact ⟨h.le, Nat.lt_succ_self _⟩
    · exact ⟨(h.fresh o ho).1, Nat.lt_succ_of_lt (h.fresh o ho).2⟩
  · rcases hbuilt o ho with rfl | ho <;> rcases hbuilt o' ho' with rfl | ho'
    · rfl
    · exact absurd href.symm (Nat.ne_of_lt (h.fresh o' ho').2)
    · exact absurd href (Nat.ne_of_lt (h.fresh o ho).2)
    · exact h.ref_inj o ho o' ho' href

theorem Inv.step (h : m.Inv live start) (owed : OwedRecord) :
    (m.step pruned live owed).Inv live start := by
  rw [OwedMerge.step]
  split
  · exact h
  · split
    · next l hl =>
      split
      · -- a live record is folded onto the stored one
        dsimp only
        have hmem : l ∈ live := List.mem_reverse.mp (List.mem_of_find?_eq_some hl)
        have hpid : l.pendingTxId = owed.pendingTxId := by simpa using List.find?_some hl
        set folded := (foldOwedSettlement (some owed) l.val).getD owed with hfolded
        have hfpid : folded.pendingTxId = l.pendingTxId := by
          rw [hfolded]
          cases hfold : foldOwedSettlement (some owed) l.val with
          | none => exact hpid.symm
          | some r => exact pendingTxId_foldOwedSettlement hfold
        obtain ⟨hfresh, hinj⟩ := h.ref_inj_cons folded
          (m.restored ++ (⟨m.nextRef, folded⟩ :: m.replaced.map Prod.snd)) (by
            intro o ho
            simp only [List.mem_append, List.mem_cons] at ho
            rcases ho with ho | rfl | ho
            · exact .inr (List.mem_append_left _ ho)
            · exact .inl rfl
            · exact .inr (List.mem_append_right _ ho))
        exact {
          le := Nat.le_succ_of_le h.le
          fresh := hfresh
          ref_inj := hinj
          replaces := by
            intro p hp
            rcases List.mem_cons.mp hp with rfl | hp
            · exact ⟨l, hmem, rfl, hfpid.symm⟩
            · exact h.replaces p hp
          held := h.held
          restores := h.restores
          distinct := h.distinct }
      · exact h
    · next hnone =>
      split
      · exact h
      · next hheld =>
        obtain ⟨hfresh, hinj⟩ := h.ref_inj_cons owed
          ((m.restored ++ [⟨m.nextRef, owed⟩]) ++ m.replaced.map Prod.snd) (by
            intro o ho
            simp only [List.mem_append, List.mem_singleton] at ho
            rcases ho with (ho | rfl) | ho
            · exact .inr (List.mem_append_left _ ho)
            · exact .inl rfl
            · exact .inr (List.mem_append_right _ ho))
        exact {
          le := Nat.le_succ_of_le h.le
          fresh := hfresh
          ref_inj := hinj
          replaces := h.replaces
          held := fun l hl => .tail _ (h.held l hl)
          restores := by
            intro o ho
            rcases List.mem_append.mp ho with ho | ho
            · exact ⟨List.mem_cons_of_mem _ (h.restores o ho).1, (h.restores o ho).2⟩
            · obtain rfl := List.mem_singleton.mp ho
              refine ⟨(.head _), fun l hl heq => hheld ?_⟩
              have hheq : l.pendingTxId = owed.pendingTxId := heq
              exact hheq ▸ h.held l hl
          distinct := by
            refine h.distinct.append (by simp [Keyed.Distinct]) ?_
            intro o ho b hb
            obtain rfl := List.mem_singleton.mp ho
            intro heq
            have hheq : b.pendingTxId = owed.pendingTxId := heq
            exact hheld (hheq ▸ (h.restores b hb).1) }

theorem Inv.loop (pruned : List String) (live : List OwedObj) (start : ℕ)
    (persisted : List OwedRecord) : (loop pruned live start persisted).Inv live start := by
  have hinit : Inv live start { nextRef := start, held := live.map OwedObj.pendingTxId } := by
    refine ⟨Nat.le_refl _, ?_, ?_, ?_, ?_, ?_, ?_⟩ <;> simp [built, Keyed.Distinct]
    exact fun l hl => ⟨l, hl, rfl⟩
  rw [OwedMerge.loop]
  generalize ({ nextRef := start, held := live.map OwedObj.pendingTxId } : OwedMerge) = m at hinit
  induction persisted generalizing m with
  | nil => exact hinit
  | cons owed persisted ih => exact ih _ (hinit.step owed)

/-- A live object stays, or gives way to one that was built for the same `PendingTx`. -/
theorem Inv.current (h : m.Inv live start) (hlive : Journal.Sound start live) {l : OwedObj}
    (hl : l ∈ live) :
    (m.current l = l ∨ m.current l ∈ m.built) ∧ (m.current l).pendingTxId = l.pendingTxId := by
  rw [OwedMerge.current]
  cases hfind : m.replaced.find? fun p => p.1 = l.ref with
  | none => exact ⟨.inl rfl, rfl⟩
  | some p =>
    have hp := List.mem_of_find?_eq_some hfind
    have href : p.1 = l.ref := by simpa using List.find?_some hfind
    obtain ⟨l', hl', href', hpid⟩ := h.replaces p hp
    obtain rfl := hlive.ref_inj l' hl' l hl (href'.trans href)
    exact ⟨.inr (List.mem_append_right _ (List.mem_map_of_mem hp)), hpid.symm⟩

end OwedMerge

namespace Journal

variable {nextRef : ℕ} {owed : List OwedObj} {pruned known : List String}
  {persisted : List OwedRecord}

variable (pruned known persisted) in
/-- What the merge leaves is a live journal. -/
theorem Sound.mergeOwedSettlements (h : Sound nextRef owed) :
    Sound (mergeOwedSettlements pruned persisted known nextRef owed).2
        (mergeOwedSettlements pruned persisted known nextRef owed).1 ∧
      nextRef ≤ (XchainWallet.mergeOwedSettlements pruned persisted known nextRef owed).2 ∧
      ∀ o ∈ (XchainWallet.mergeOwedSettlements pruned persisted known nextRef owed).1,
        o ∈ owed ∨ nextRef ≤ o.ref := by
  have hlive : Sound nextRef (withoutDrained persisted known owed) :=
    h.sublist List.filter_sublist
  have hsub : ∀ o ∈ withoutDrained persisted known owed, o ∈ owed :=
    fun o ho => (List.mem_filter.mp ho).1
  rw [XchainWallet.mergeOwedSettlements]
  generalize withoutDrained persisted known owed = live at hlive hsub
  dsimp only
  split
  · exact ⟨hlive, Nat.le_refl _, fun o ho => .inl (hsub o ho)⟩
  · have hinv := OwedMerge.Inv.loop pruned live nextRef persisted
    generalize OwedMerge.loop pruned live nextRef persisted = m at hinv
    have hmem : ∀ o ∈ m.restored ++ live.map m.current, o ∈ m.built ∨ o ∈ live := by
      intro o ho
      rcases List.mem_append.mp ho with ho | ho
      · exact .inl (List.mem_append_left _ ho)
      · obtain ⟨l, hl, rfl⟩ := List.mem_map.mp ho
        rcases (hinv.current hlive hl).1 with heq | hb
        · exact .inr (heq.symm ▸ hl)
        · exact .inl hb
    refine ⟨Sound.sublist ⟨?_, ?_, ?_⟩ (capOwedSettlements_sublist _), hinv.le, fun o ho => ?_⟩
    · have hpids : Keyed.Distinct OwedObj.pendingTxId (live.map m.current) := by
        have hsame : (live.map m.current).map OwedObj.pendingTxId = live.map OwedObj.pendingTxId := by
          rw [List.map_map]
          exact List.map_congr_left fun l hl => (hinv.current hlive hl).2
        rw [Keyed.Distinct, hsame]
        exact hlive.distinct
      refine hinv.distinct.append hpids ?_
      intro a ha b hb
      obtain ⟨l, hl, rfl⟩ := List.mem_map.mp ha
      rw [(hinv.current hlive hl).2]
      exact ((hinv.restores b hb).2 l hl).symm
    · intro o ho o' ho' href
      rcases hmem o ho with ho | ho <;> rcases hmem o' ho' with ho' | ho'
      · exact hinv.ref_inj o ho o' ho' href
      · have hlt := Nat.lt_of_lt_of_le (hlive.ref_lt o' ho') (hinv.fresh o ho).1
        exact absurd href.symm (Nat.ne_of_lt hlt)
      · have hlt := Nat.lt_of_lt_of_le (hlive.ref_lt o ho) (hinv.fresh o' ho').1
        exact absurd href (Nat.ne_of_lt hlt)
      · exact hlive.ref_inj o ho o' ho' href
    · intro o ho
      rcases hmem o ho with ho | ho
      · exact (hinv.fresh o ho).2
      · exact Nat.lt_of_lt_of_le (hlive.ref_lt o ho) hinv.le
    · rcases hmem o ((capOwedSettlements_sublist _).subset ho) with ho | ho
      · exact .inr (hinv.fresh o ho).1
      · exact .inl (hsub o ho)

end Journal

/-! ### A journal that is read into an empty one -/

/-- The stored records that are restored next to none: the first one of each `PendingTx` that is
not held yet. -/
def restorableOwed : List String → List OwedRecord → List OwedRecord
  | _, [] => []
  | held, owed :: persisted =>
    if owed.pendingTxId = "" ∨ owed.pendingTxId ∈ held then restorableOwed held persisted
    else owed :: restorableOwed (owed.pendingTxId :: held) persisted

/-- The records that a new process reads. -/
def restoredJournal (persisted : List OwedRecord) : List OwedRecord :=
  capOwedSettlements (restorableOwed [] persisted)

namespace Journal

theorem restorableOwed_spec (held : List String) (persisted : List OwedRecord) :
    Keyed.Distinct OwedRecord.pendingTxId (restorableOwed held persisted) ∧
      ∀ owed ∈ restorableOwed held persisted, owed.pendingTxId ≠ "" ∧ owed.pendingTxId ∉ held := by
  induction persisted generalizing held with
  | nil => exact ⟨List.nodup_nil, by simp [restorableOwed]⟩
  | cons owed persisted ih =>
    rw [restorableOwed]
    split
    · exact ih held
    · next h =>
      rw [not_or] at h
      obtain ⟨hdistinct, hmem⟩ := ih (owed.pendingTxId :: held)
      refine ⟨List.nodup_cons.mpr ⟨fun hin => ?_, hdistinct⟩, fun o ho => ?_⟩
      · obtain ⟨o, ho, heq⟩ := List.mem_map.mp hin
        exact (hmem o ho).2 (heq ▸ (.head _))
      · rcases List.mem_cons.mp ho with rfl | ho
        · exact h
        · exact ⟨(hmem o ho).1, fun hin => (hmem o ho).2 (.tail _ hin)⟩

/-- Records of different `PendingTx`s are all restored. -/
theorem restorableOwed_eq_self {held : List String} {persisted : List OwedRecord}
    (hdistinct : Keyed.Distinct OwedRecord.pendingTxId persisted)
    (h : ∀ owed ∈ persisted, owed.pendingTxId ≠ "" ∧ owed.pendingTxId ∉ held) :
    restorableOwed held persisted = persisted := by
  induction persisted generalizing held with
  | nil => rfl
  | cons owed persisted ih =>
    obtain ⟨hne, hdistinct⟩ := hdistinct.cons
    obtain ⟨hid, hheld⟩ := h owed (.head _)
    rw [restorableOwed, if_neg (not_or.mpr ⟨hid, hheld⟩)]
    refine congrArg _ (ih hdistinct fun o ho => ?_)
    refine ⟨(h o (.tail _ ho)).1, fun hin => ?_⟩
    rcases List.mem_cons.mp hin with heq | hin
    · exact hne o ho heq
    · exact (h o (.tail _ ho)).2 hin

/-- A record that is read back from a stored journal is read back again from what was read. -/
theorem restoredJournal_of_sublist {persisted kept : List OwedRecord}
    (h : kept.Sublist (restoredJournal persisted)) : restoredJournal kept = kept := by
  have hsub := h.trans (capOwedSettlements_sublist _)
  obtain ⟨hdistinct, hmem⟩ := restorableOwed_spec [] persisted
  have hlength : kept.length ≤ owedSettlementLimit := by
    have hle := h.length_le
    rw [restoredJournal, capOwedSettlements, List.length_drop] at hle
    omega
  rw [restoredJournal, restorableOwed_eq_self (hdistinct.sublist (hsub.map _))
    fun o ho => hmem o (hsub.subset ho)]
  exact capOwedSettlements_of_length_le hlength

theorem distinct_restoredJournal (persisted : List OwedRecord) :
    Keyed.Distinct OwedRecord.pendingTxId (restoredJournal persisted) :=
  (restorableOwed_spec [] persisted).1.sublist ((capOwedSettlements_sublist _).map _)

private theorem restored_foldl (m : OwedMerge) (persisted : List OwedRecord) :
    (persisted.foldl (OwedMerge.step [] []) m).restored.map OwedObj.val =
      m.restored.map OwedObj.val ++ restorableOwed m.held persisted := by
  induction persisted generalizing m with
  | nil => simp [restorableOwed]
  | cons owed persisted ih =>
    have hpruned : ¬owed.PrunedIn [] := fun ⟨_, _, h⟩ => nomatch h
    rw [List.foldl_cons, ih, restorableOwed, OwedMerge.step]
    by_cases hid : owed.pendingTxId = ""
    · rw [if_pos (.inl hid), if_pos (.inl hid)]
    · rw [if_neg (not_or.mpr ⟨hid, hpruned⟩)]
      simp only [List.reverse_nil, List.find?_nil]
      by_cases hheld : owed.pendingTxId ∈ m.held
      · rw [if_pos hheld, if_pos (.inr hheld)]
      · rw [if_neg hheld, if_neg (not_or.mpr ⟨hid, hheld⟩)]
        simp

/-- A process that holds no record reads the stored ones back. -/
theorem mergeOwedSettlements_nil (persisted : List OwedRecord) (nextRef : ℕ) :
    ((mergeOwedSettlements [] persisted [] nextRef []).1.map OwedObj.val) =
      restoredJournal persisted := by
  rw [mergeOwedSettlements]
  cases persisted with
  | nil => rfl
  | cons owed persisted =>
    have h := restored_foldl { nextRef, held := [] } (owed :: persisted)
    simp only [List.map_nil, List.nil_append] at h
    simp only [withoutDrained, List.filter_nil, List.isEmpty_cons, List.map_nil, List.append_nil,
      restoredJournal, OwedMerge.loop, capOwedSettlements, List.map_drop, Bool.false_eq_true,
      if_false]
    rw [h, ← h, List.length_map]

end Journal

end XchainWallet
