import XchainWallet.Uri.Fountain

/-!
# Parts of one message

A property of the items that the assembler holds, if reducing one by another keeps it, is kept by
the whole loop (`Holding.drain`). For parts of one transmission the property is that the fragment is
the exclusive or of the message's fragments at the indexes (`UrTransmission.Sound`). So whatever
parts of it are scanned, nothing else is ever held, the result is the message, and the message is
whole when each pure part was scanned.
-/

namespace XchainWallet

open Wire Checks Chunks FountainAssembler

theorem arraysEqualSet_iff {a b : List ℤ} (ha : a.Nodup) :
    arraysEqualSet a b = true ↔ a.Perm b := by
  simp only [arraysEqualSet, decide_eq_true_eq, List.all_eq_true]
  constructor
  · rintro ⟨hlength, hsub⟩
    exact (List.subperm_of_subset ha hsub).perm_of_length_le hlength.ge
  · intro hperm
    exact ⟨hperm.length_eq, fun i hi => hperm.mem_iff.mp hi⟩

theorem mem_indexesBelow {n : ℕ} {i : ℤ} : i ∈ indexesBelow n ↔ 0 ≤ i ∧ i < n := by
  rw [indexesBelow, List.mem_map]
  constructor
  · rintro ⟨m, hm, rfl⟩
    rw [List.mem_range] at hm
    omega
  · rintro ⟨hlow, hhigh⟩
    exact ⟨i.toNat, by rw [List.mem_range]; omega, by omega⟩

@[simp]
theorem length_indexesBelow (n : ℕ) : (indexesBelow n).length = n := by
  rw [indexesBelow, List.length_map, List.length_range]

theorem nodup_indexesBelow (n : ℕ) : (indexesBelow n).Nodup :=
  List.nodup_range.map fun i j h => by exact_mod_cast h

/-- The indexes of a part are those of fragments, unless its number is zero. -/
theorem mem_chooseFragments {chooser : PartChooser} {seqNum seqLen checksum : ℕ} (hseq : 1 ≤ seqNum)
    {i : ℤ} (h : i ∈ chooser.chooseFragments seqNum seqLen checksum) : i ∈ indexesBelow seqLen := by
  rw [mem_indexesBelow]
  rw [PartChooser.chooseFragments] at h
  split_ifs at h
  · rw [List.mem_singleton.mp h]
    omega
  · obtain ⟨n, hn, rfl⟩ := List.mem_map.mp h
    have hlt := chooser.lt _ _ _ n hn
    omega

theorem nodup_chooseFragments (chooser : PartChooser) (seqNum seqLen checksum : ℕ) :
    (chooser.chooseFragments seqNum seqLen checksum).Nodup := by
  rw [PartChooser.chooseFragments]
  split_ifs
  · exact List.nodup_singleton _
  · exact (chooser.nodup _ _ _).map fun i j h => by exact_mod_cast h

theorem contains_iff {a b : List ℤ} : contains a b = true ↔ ∀ i ∈ b, i ∈ a := by
  simp [contains, List.all_eq_true]

namespace FountainAssembler

/-! ### Properties of the items -/

/-- The items have a property, and those of one index are received, no index twice. -/
structure Holding (Q : FountainItem → Prop) (a : FountainAssembler) : Prop where
  simple : ∀ item ∈ a.simple, Q item
  mixed : ∀ item ∈ a.mixed, Q item
  queue : ∀ item ∈ a.queue, Q item
  received : a.simple.map (·.indexes) = a.received.map fun idx => [idx]
  nodup : a.received.Nodup

/-- Reducing one item by another keeps the property. -/
def ReduceClosed (Q : FountainItem → Prop) : Prop := ∀ p q, Q p → Q q → Q (reduce p q)

section Holding

variable {Q : FountainItem → Prop} {a : FountainAssembler} {item : FountainItem} {idx : ℤ}

theorem holding_create : Holding Q create where
  simple _ h := by cases h
  mixed _ h := by cases h
  queue _ h := by cases h
  received := rfl
  nodup := List.nodup_nil

theorem Holding.reduceMixedBy (hQ : ReduceClosed Q) (h : Holding Q a) (hitem : Q item) :
    Holding Q (a.reduceMixedBy item) where
  simple := h.simple
  mixed other hother := by
    obtain ⟨m, hm, rfl⟩ := List.mem_map.mp (List.mem_filter.mp hother).1
    exact hQ m item (h.mixed m hm) hitem
  queue other hother := by
    rcases List.mem_append.mp hother with hother | hother
    · exact h.queue other hother
    · obtain ⟨m, hm, rfl⟩ := List.mem_map.mp (List.mem_filter.mp hother).1
      exact hQ m item (h.mixed m hm) hitem
  received := h.received
  nodup := h.nodup

/-- A new item of one index. -/
theorem Holding.addSimple (h : Holding Q a) (hitem : Q item) (hindexes : item.indexes = [idx])
    (hnew : idx ∉ a.received) :
    Holding Q { a with simple := a.simple ++ [item], received := a.received ++ [idx] } where
  simple other hother := by
    rcases List.mem_append.mp hother with hother | hother
    · exact h.simple other hother
    · rwa [List.mem_singleton.mp hother]
  mixed := h.mixed
  queue := h.queue
  received := by
    rw [List.map_append, List.map_append, h.received, List.map_singleton, List.map_singleton,
      hindexes]
  nodup := by
    rw [List.nodup_append]
    refine ⟨h.nodup, List.nodup_singleton idx, fun i hi j hj => ?_⟩
    rw [List.mem_singleton.mp hj]
    rintro rfl
    exact hnew hi

theorem reduce_foldl_closed (hQ : ReduceClosed Q) {items : List FountainItem}
    (hitems : ∀ other ∈ items, Q other) (hitem : Q item) : Q (items.foldl reduce item) := by
  induction items generalizing item with
  | nil => exact hitem
  | cons other items ih =>
    exact ih (fun m hm => hitems m (.tail _ hm))
      (hQ item other hitem (hitems other (.head _)))

theorem Holding.processMixed (hQ : ReduceClosed Q) (h : Holding Q a) (hitem : Q item) :
    Holding Q (a.processMixed item) := by
  have hreduced : Q (a.mixed.foldl reduce (a.simple.foldl reduce item)) :=
    reduce_foldl_closed hQ h.mixed (reduce_foldl_closed hQ h.simple hitem)
  rw [FountainAssembler.processMixed]
  split_ifs
  · exact h
  dsimp only
  split_ifs
  · refine ⟨h.simple, h.mixed, fun other hother => ?_, h.received, h.nodup⟩
    rcases List.mem_append.mp hother with hother | hother
    · exact h.queue other hother
    · rwa [List.mem_singleton.mp hother]
  · have hafter := h.reduceMixedBy hQ hreduced
    refine ⟨hafter.simple, fun other hother => ?_, hafter.queue, hafter.received, hafter.nodup⟩
    rcases List.mem_append.mp hother with hother | hother
    · exact hafter.mixed other hother
    · rwa [List.mem_singleton.mp hother]

theorem Holding.processSimple (hQ : ReduceClosed Q) (h : Holding Q a) (hitem : Q item)
    (hindexes : item.indexes = [idx]) : Holding Q (a.processSimple idx item).1 := by
  rw [FountainAssembler.processSimple]
  split_ifs with hnew
  · exact h
  have hadded := h.addSimple hitem hindexes hnew
  dsimp only
  split_ifs
  · exact ⟨hadded.simple, hadded.mixed, hadded.queue, hadded.received, hadded.nodup⟩
  · exact hadded
  · exact hadded.reduceMixedBy hQ hitem

/-- One turn of the loop. -/
theorem Holding.turn (hQ : ReduceClosed Q) (h : Holding Q a) {rest : List FountainItem}
    (hqueue : a.queue = item :: rest) : Holding Q (turn { a with queue := rest } item).1 := by
  have hitem : Q item := h.queue item (by rw [hqueue]; exact (.head _))
  have hrest : Holding Q { a with queue := rest } :=
    ⟨h.simple, h.mixed, fun other hother => h.queue other (by
      rw [hqueue]
      exact List.mem_cons_of_mem _ hother), h.received, h.nodup⟩
  rw [FountainAssembler.turn]
  split
  · rename_i idx hindexes
    exact hrest.processSimple hQ hitem hindexes
  · exact hrest.processMixed hQ hitem

/-- **The loop keeps the property.** -/
theorem Holding.drain (hQ : ReduceClosed Q) (h : Holding Q a) : Holding Q (drain a).1 :=
  (drain_keeps (fun _ _ _ hholding _ hqueue => hholding.turn hQ hqueue) h).1

end Holding

/-! ### The header -/

/-- The header of the message that is assembled. -/
def header (a : FountainAssembler) : Option (List ℤ) × ℕ × ℕ × ℕ :=
  (a.expectedIndexes, a.messageLength, a.checksum, a.fragmentLength)

theorem header_turn (a : FountainAssembler) (item : FountainItem) :
    (turn a item).1.header = a.header := by
  rw [turn]
  split
  · rw [processSimple]
    split_ifs
    · rfl
    dsimp only
    split_ifs <;> rfl
  · rw [processMixed]
    split_ifs
    · rfl
    dsimp only
    split_ifs <;> rfl

theorem header_drain (a : FountainAssembler) : (drain a).1.header = a.header :=
  (drain_keeps (P := fun b => b.header = a.header) (fun b item rest hb _ _ =>
    (header_turn { b with queue := rest } item).trans hb) rfl).1

/-! ### What arrives -/

/-- The index is received, or an item of it is queued. -/
def Coming (idx : ℤ) (a : FountainAssembler) : Prop :=
  a.complete = true ∨ idx ∈ a.received ∨ ∃ item ∈ a.queue, item.indexes = [idx]

/-- A turn forgets no index. -/
theorem coming_turn {idx : ℤ} {a : FountainAssembler} {item : FountainItem}
    {rest : List FountainItem} (h : Coming idx a) (hrunning : a.complete = false)
    (hqueue : a.queue = item :: rest) : Coming idx (turn { a with queue := rest } item).1 := by
  have hcases : idx ∈ a.received ∨ item.indexes = [idx] ∨ ∃ other ∈ rest, other.indexes = [idx] := by
    rcases h with hcomplete | hreceived | ⟨other, hother, hindexes⟩
    · rw [hcomplete] at hrunning
      cases hrunning
    · exact .inl hreceived
    · rw [hqueue] at hother
      rcases List.mem_cons.mp hother with rfl | hother
      · exact .inr (.inl hindexes)
      · exact .inr (.inr ⟨other, hother, hindexes⟩)
  rw [turn]
  split
  · rename_i i hindexes
    have hitem : item.indexes = [idx] → idx = i := by
      intro heq
      rw [hindexes] at heq
      exact (List.cons.inj heq).1.symm
    rw [processSimple]
    split_ifs with hold
    · rcases hcases with hreceived | heq | hrest
      · exact .inr (.inl hreceived)
      · rw [← hitem heq] at hold
        exact .inr (.inl hold)
      · exact .inr (.inr hrest)
    dsimp only
    have hafter : idx ∈ a.received ++ [i] ∨ ∃ other ∈ rest, other.indexes = [idx] := by
      rcases hcases with hreceived | heq | hrest
      · exact .inl (List.mem_append_left _ hreceived)
      · rw [hitem heq]
        exact .inl (List.mem_append_right _ (List.mem_singleton.mpr rfl))
      · exact .inr hrest
    split_ifs
    · exact .inl rfl
    · exact .inr hafter
    · rcases hafter with hreceived | ⟨other, hother, hindexes⟩
      · exact .inr (.inl hreceived)
      · exact .inr (.inr ⟨other, List.mem_append_left _ hother, hindexes⟩)
  · rename_i hnot
    have hafter : idx ∈ a.received ∨ ∃ other ∈ rest, other.indexes = [idx] := by
      rcases hcases with hreceived | heq | hrest
      · exact .inl hreceived
      · exact absurd heq (hnot idx)
      · exact .inr hrest
    rw [processMixed]
    split_ifs
    · exact .inr hafter
    dsimp only
    split_ifs
    all_goals
      rcases hafter with hreceived | ⟨other, hother, hindexes⟩
      · exact .inr (.inl hreceived)
      · exact .inr (.inr ⟨other, List.mem_append_left _ hother, hindexes⟩)

end FountainAssembler

/-! ### Transmissions -/

/-- A message and how it is cut in fragments, which hold all of it. -/
structure UrTransmission where
  message : List UInt8
  seqLen : ℕ
  fragmentLength : ℕ
  fits : message.length ≤ seqLen * fragmentLength

namespace UrTransmission

variable (T : UrTransmission)

/-- The checksum of the message. -/
def checksum : ℕ := (crc32 T.message).toNat

/-- The indexes of the fragments. -/
def indexes : List ℤ := indexesBelow T.seqLen

/-- The header that its parts declare. -/
def header : Option (List ℤ) × ℕ × ℕ × ℕ :=
  (some T.indexes, T.message.length, T.checksum, T.fragmentLength)

/-- The fragment at an index: as many bytes of the message, and zeros behind its end. -/
def fragment (i : ℤ) : List UInt8 :=
  (List.range T.fragmentLength).map fun k => T.message.getD (i.toNat * T.fragmentLength + k) 0

/-- The exclusive or of the fragments at some indexes. -/
def mix (indexes : List ℤ) : List UInt8 := xorAt T.fragmentLength T.fragment indexes

/-- The part of a number, as the sender makes it. -/
def part (chooser : PartChooser) (seqNum : ℕ) : FountainPart where
  seqNum := seqNum
  seqLen := T.seqLen
  messageLength := T.message.length
  checksum := T.checksum
  fragment := T.mix (chooser.chooseFragments seqNum T.seqLen T.checksum)

/-- The transmission is within the bounds that the assembler sets. -/
def WithinCaps : Prop :=
  T.message ≠ [] ∧ T.seqLen ≤ urMaxSeqLen ∧ T.message.length ≤ urMaxMessageBytes ∧
    T.fragmentLength ≤ urMaxFragmentBytes

/-- The item is the exclusive or of the fragments at its indexes. -/
structure Sound (item : FountainItem) : Prop where
  nodup : item.indexes.Nodup
  mem : ∀ i ∈ item.indexes, i ∈ T.indexes
  fragment : item.fragment = T.mix item.indexes

variable {T}

theorem length_fragment (i : ℤ) : (T.fragment i).length = T.fragmentLength := by
  rw [fragment, List.length_map, List.length_range]

theorem length_mix (indexes : List ℤ) : (T.mix indexes).length = T.fragmentLength :=
  length_xorAt length_fragment indexes

theorem nodup_indexes : T.indexes.Nodup := nodup_indexesBelow _

theorem mem_indexes {i : ℤ} : i ∈ T.indexes ↔ 0 ≤ i ∧ i < T.seqLen := mem_indexesBelow

theorem seqLen_pos (h : 1 ≤ T.message.length) : 0 < T.seqLen := by
  have hfits := T.fits
  refine Nat.pos_of_ne_zero fun hzero => ?_
  rw [hzero, Nat.zero_mul] at hfits
  omega

/-- **Reducing keeps an item sound**: what is taken away is what the smaller item mixes. -/
theorem reduceClosed_sound : FountainAssembler.ReduceClosed T.Sound := by
  intro p q hp hq
  rw [reduce]
  split_ifs with hreduce
  · have hsub := contains_iff.mp hreduce.1
    refine ⟨hp.nodup.filter _, fun i hi => hp.mem i (List.mem_filter.mp hi).1, ?_⟩
    rw [hp.fragment, hq.fragment]
    exact xorAt_diff length_fragment hp.nodup hq.nodup hsub
  · exact hp

/-- The item that a part of the transmission is queued as. -/
theorem sound_part (chooser : PartChooser) {seqNum : ℕ} (hseq : 1 ≤ seqNum) :
    T.Sound ⟨chooser.chooseFragments seqNum T.seqLen T.checksum,
      T.mix (chooser.chooseFragments seqNum T.seqLen T.checksum)⟩ := by
  exact ⟨nodup_chooseFragments chooser _ _ _, fun i hi => mem_chooseFragments hseq hi, rfl⟩

/-- The fragments in order make up the message, and zeros behind it. -/
theorem take_flatMap_fragment :
    (T.indexes.flatMap T.fragment).take T.message.length = T.message := by
  have hjoined : ∀ n : ℕ, ((List.range n).map fun i : ℕ => (i : ℤ)).flatMap T.fragment =
      (List.range (n * T.fragmentLength)).map fun k => T.message.getD k 0 := by
    intro n
    induction n with
    | zero => simp
    | succ n ih =>
      have hlast : T.fragment (n : ℤ) = (List.range T.fragmentLength).map fun k =>
            T.message.getD (n * T.fragmentLength + k) 0 := by
        rw [fragment, Int.toNat_natCast]
      rw [List.range_succ, List.map_append, List.flatMap_append, ih, Nat.succ_mul, List.range_add,
        List.map_append, List.map_map, List.map_singleton, List.flatMap_singleton, hlast]
      rfl
  have hfits := T.fits
  rw [indexes, indexesBelow, hjoined, ← List.map_take, List.take_range, min_eq_left hfits]
  refine List.ext_getElem (by simp) fun k _ hk => ?_
  rw [List.getElem_map, List.getElem_range, List.getD_eq_getElem _ _ hk]

/-! ### The assembler of a transmission -/

/-- The assembler holds sound items of the transmission, and its result is the message, which it has
as soon as all indexes are received. -/
structure Assembling (T : UrTransmission) (a : FountainAssembler) : Prop where
  holding : a.Holding T.Sound
  header : a.header = T.header
  result : ∀ r, a.result = some r → r = T.message
  missing : a.complete = false → ¬a.received.Perm T.indexes

section Assembling

variable {a : FountainAssembler} {item : FountainItem} {idx : ℤ}

/-- The fragments in order, once all indexes are received. -/
theorem joined_of_perm (h : a.Holding T.Sound) (hperm : a.received.Perm T.indexes) :
    joined a.simple = T.indexes.flatMap T.fragment := by
  obtain ⟨sorted, hsorted⟩ : ∃ sorted, a.simple.mergeSort
      (fun p q => p.indexes.headD 0 ≤ q.indexes.headD 0) = sorted := ⟨_, rfl⟩
  have hsimple : sorted.Perm a.simple := by
    rw [← hsorted]
    exact List.mergeSort_perm _ _
  have hpairwise : sorted.Pairwise fun p q => p.indexes.headD 0 ≤ q.indexes.headD 0 := by
    have hle : (a.simple.mergeSort fun p q => p.indexes.headD 0 ≤ q.indexes.headD 0).Pairwise
        fun p q => decide (p.indexes.headD 0 ≤ q.indexes.headD 0) = true := by
      refine List.pairwise_mergeSort (fun p q r hpq hqr => ?_) (fun p q => ?_) _
      · simp only [decide_eq_true_eq] at hpq hqr ⊢
        omega
      · simp only [Bool.or_eq_true, decide_eq_true_eq]
        omega
    rw [hsorted] at hle
    exact hle.imp fun hpq => of_decide_eq_true hpq
  -- sorted by their indexes, the items come in the order of the indexes
  have hreceived : a.simple.map (·.indexes.headD 0) = a.received := by
    have hheads := congrArg (List.map fun indexes : List ℤ => indexes.headD 0) h.received
    rw [List.map_map, List.map_map] at hheads
    simpa [Function.comp_def] using hheads
  have hindexes : sorted.map (·.indexes.headD 0) = T.indexes := by
    have hperm' : (sorted.map (·.indexes.headD 0)).Perm T.indexes := by
      refine (hsimple.map _).trans ?_
      rw [hreceived]
      exact hperm
    have hinOrder : T.indexes.Pairwise (· ≤ ·) := by
      rw [indexes, indexesBelow, List.pairwise_map]
      exact List.pairwise_lt_range.imp fun hij => by exact_mod_cast hij.le
    exact List.Perm.eq_of_pairwise' (List.pairwise_map.mpr hpairwise) hinOrder hperm'
  have hfragment : ∀ item ∈ sorted, item.fragment = T.fragment (item.indexes.headD 0) := by
    intro item hitem
    have hmem := hsimple.mem_iff.mp hitem
    have hone : item.indexes ∈ a.received.map fun idx => [idx] := by
      rw [← h.received]
      exact List.mem_map_of_mem hmem
    obtain ⟨idx, -, hidx⟩ := List.mem_map.mp hone
    rw [(h.simple item hmem).fragment, ← hidx, mix, xorAt_singleton length_fragment]
    rfl
  rw [joined, hsorted, ← hindexes, List.flatMap_map]
  exact List.flatMap_congr hfragment

/-- A fragment of the transmission is processed, and nothing is thrown. -/
theorem Assembling.processSimple (h : Assembling T a) (hitem : T.Sound item)
    (hindexes : item.indexes = [idx]) :
    Assembling T (a.processSimple idx item).1 ∧ (a.processSimple idx item).2 = none := by
  have hholding := h.holding.processSimple reduceClosed_sound hitem hindexes
  obtain ⟨hexpected, hlength, hchecksum, -⟩ := by
    simpa [FountainAssembler.header, UrTransmission.header] using h.header
  rw [FountainAssembler.processSimple] at hholding ⊢
  split_ifs at hholding ⊢ with hnew
  · exact ⟨h, rfl⟩
  have hadded := h.holding.addSimple hitem hindexes hnew
  have hequal := arraysEqualSet_iff (b := T.indexes) hadded.nodup
  have hexpected' : a.expectedIndexes.getD [] = T.indexes := by rw [hexpected, Option.getD_some]
  dsimp only at hholding hequal ⊢
  rw [hexpected'] at hholding ⊢
  by_cases hall : arraysEqualSet (a.received ++ [idx]) T.indexes = true
  · have hmessage : (FountainAssembler.joined (a.simple ++ [item])).take a.messageLength =
        T.message := by
      have hjoined := joined_of_perm hadded (hequal.mp hall)
      rw [hjoined, hlength]
      exact take_flatMap_fragment
    have hcrc : (crc32 T.message).toNat = a.checksum % 2 ^ 32 := by
      rw [hchecksum, checksum]
      exact (Nat.mod_eq_of_lt (crc32 T.message).toNat_lt).symm
    rw [if_pos hall, hmessage, if_pos hcrc] at hholding ⊢
    refine ⟨⟨hholding, h.header, fun r hr => (Option.some.inj hr).symm, fun hcomplete => ?_⟩, rfl⟩
    cases hcomplete
  · rw [if_neg hall] at hholding ⊢
    exact ⟨⟨hholding, h.header, h.result, fun _ hperm => hall (hequal.mpr hperm)⟩, rfl⟩

theorem Assembling.processMixed (h : Assembling T a) (hitem : T.Sound item) :
    Assembling T (a.processMixed item) := by
  have hholding := h.holding.processMixed reduceClosed_sound hitem
  rw [FountainAssembler.processMixed] at hholding ⊢
  split_ifs at hholding ⊢
  · exact h
  dsimp only at hholding ⊢
  split_ifs at hholding ⊢
  · exact ⟨hholding, h.header, h.result, h.missing⟩
  · exact ⟨hholding, h.header, h.result, h.missing⟩

/-- **One turn of the loop** over parts of the transmission. -/
theorem Assembling.turn (h : Assembling T a) {rest : List FountainItem}
    (hqueue : a.queue = item :: rest) :
    Assembling T (turn { a with queue := rest } item).1 ∧
      (turn { a with queue := rest } item).2 = none := by
  have hitem : T.Sound item := h.holding.queue item (by rw [hqueue]; exact (.head _))
  have hrest : Assembling T { a with queue := rest } :=
    ⟨⟨h.holding.simple, h.holding.mixed, fun other hother => h.holding.queue other (by
      rw [hqueue]
      exact List.mem_cons_of_mem _ hother), h.holding.received, h.holding.nodup⟩,
      h.header, h.result, h.missing⟩
  rw [FountainAssembler.turn]
  split
  · rename_i idx hindexes
    exact hrest.processSimple hitem hindexes
  · exact ⟨hrest.processMixed hitem, rfl⟩

/-- **The loop** over parts of the transmission throws nothing and works the queue off. -/
theorem Assembling.drain (h : Assembling T a) : Assembling T (drain a).1 ∧ (drain a).2 = none ∧
      ((drain a).1.complete = true ∨ (drain a).1.queue = []) := by
  obtain ⟨hafter, hend⟩ := drain_keeps (P := Assembling T)
    (fun b item rest hb _ hqueue => (hb.turn hqueue).1) h
  have hnone := drain_no_throw (P := Assembling T)
    (fun b item rest hb _ hqueue => hb.turn hqueue) h
  exact ⟨hafter, hnone, hend hnone⟩

/-- A part of the transmission that is queued. -/
theorem Assembling.queued (h : Assembling T a) (chooser : PartChooser) {seqNum : ℕ}
    (hseq : 1 ≤ seqNum) : Assembling T (a.queued chooser (T.part chooser seqNum)) := by
  refine ⟨⟨h.holding.simple, h.holding.mixed, fun other hother => ?_, h.holding.received,
    h.holding.nodup⟩, h.header, h.result, h.missing⟩
  rcases List.mem_append.mp hother with hother | hother
  · exact h.holding.queue other hother
  · rw [List.mem_singleton.mp hother]
    exact sound_part chooser hseq

end Assembling

/-! ### Runs -/

/-- Between two parts: nothing is taken yet, or the queue is worked off. -/
def Underway (T : UrTransmission) (a : FountainAssembler) : Prop :=
  a = .create ∨ Assembling T a ∧ (a.complete = true ∨ a.queue = [])

/-- A part has the header of the transmission. -/
def SharesHeader (T : UrTransmission) (part : FountainPart) : Prop :=
  part.seqLen = T.seqLen ∧ part.messageLength = T.message.length ∧ part.checksum = T.checksum ∧
    part.fragment.length = T.fragmentLength

section Underway

variable {a started : FountainAssembler} {part : FountainPart} {chooser : PartChooser}

theorem sharesHeader_part (chooser : PartChooser) (seqNum : ℕ) : T.SharesHeader (T.part chooser seqNum) :=
  ⟨rfl, rfl, rfl, length_mix _⟩

/-- The assembler that has taken the header of a part. -/
theorem assembling_of_validate (h : Underway T a) (hheader : T.SharesHeader part)
    (hvalidate : a.validate part = .ok (started, true)) : Assembling T started := by
  obtain ⟨hseqLen, hlength, hchecksum, hfragment⟩ := hheader
  rcases h with rfl | ⟨h, -⟩
  · simp only [FountainAssembler.validate, FountainAssembler.create, bind_eq_ok, refuseIf_eq_ok,
      pure_eq_ok, Prod.mk.injEq, and_true] at hvalidate
    obtain ⟨_, -, _, -, _, -, _, hconsistent, rfl⟩ := hvalidate
    refine ⟨⟨?_, ?_, ?_, rfl, List.nodup_nil⟩, ?_, ?_, fun _ hperm => ?_⟩
    · intro item hitem
      cases hitem
    · intro item hitem
      cases hitem
    · intro item hitem
      cases hitem
    · rw [FountainAssembler.header, hseqLen, hlength, hchecksum, hfragment]
      rfl
    · intro r hr
      cases hr
    · have hpos : 0 < T.seqLen := seqLen_pos (by omega)
      have hnone := hperm.length_eq
      rw [indexes, length_indexesBelow] at hnone
      rw [← hnone] at hpos
      exact absurd hpos (lt_irrefl 0)
  · obtain ⟨hexpected, -⟩ := by
      simpa [FountainAssembler.header, UrTransmission.header] using h.header
    simp only [FountainAssembler.validate, hexpected, Except.ok.injEq, Prod.mk.injEq] at hvalidate
    obtain ⟨rfl, -⟩ := hvalidate
    exact h

/-- A part of a transmission that is within the bounds is taken. -/
theorem validate_part (chooser : PartChooser) (hcaps : T.WithinCaps) (h : Underway T a)
    (seqNum : ℕ) :
    ∃ started, a.validate (T.part chooser seqNum) = .ok (started, true) := by
  obtain ⟨hseqLen, hlength, hchecksum, hbytes⟩ := sharesHeader_part (T := T) chooser seqNum
  obtain ⟨hnonempty, hcap, hcap', hcap''⟩ := hcaps
  rcases h with rfl | ⟨h, -⟩
  · have hpositive : 1 ≤ T.message.length := List.length_pos_iff.mpr hnonempty
    have hfits := T.fits
    simp only [FountainAssembler.validate, FountainAssembler.create, bind_eq_ok, refuseIf_eq_ok,
      pure_eq_ok, Prod.mk.injEq, and_true, hseqLen, hlength, hbytes]
    exact ⟨_, (), by omega, (), by omega, (), by omega, (), by omega, rfl⟩
  · obtain ⟨hexpected, hlength', hchecksum', hbytes'⟩ := by
      simpa [FountainAssembler.header, UrTransmission.header] using h.header
    refine ⟨a, ?_⟩
    simp only [FountainAssembler.validate, hexpected, hlength', hchecksum', hbytes', hseqLen, hlength,
      hbytes, Except.ok.injEq, Prod.mk.injEq, true_and, decide_eq_true_eq]
    exact ⟨length_indexesBelow _, hchecksum.symm, trivial⟩

/-- **One part** of the transmission. -/
theorem Underway.receive (h : Underway T a) {seqNum : ℕ} (hseq : 1 ≤ seqNum) :
    Underway T (a.receive chooser (T.part chooser seqNum)).1 := by
  cases hcomplete : a.complete with
  | true =>
    rw [receive_of_complete _ hcomplete]
    exact h
  | false =>
    by_cases htaken : ∃ started, a.validate (T.part chooser seqNum) = .ok (started, true)
    · obtain ⟨started, hvalidate⟩ := htaken
      have hstarted := assembling_of_validate h (sharesHeader_part chooser seqNum) hvalidate
      obtain ⟨hafter, -, hend⟩ := (hstarted.queued chooser hseq).drain
      rw [(receive_of_taken hcomplete hvalidate).1]
      exact .inr ⟨hafter, hend⟩
    · rw [receive_of_not_taken fun started hvalidate => htaken ⟨started, hvalidate⟩]
      exact h

end Underway

end UrTransmission

namespace FountainAssembler

section Coming

variable {a : FountainAssembler} {chooser : PartChooser} {part : FountainPart} {idx : ℤ}

theorem coming_drain (h : Coming idx a) : Coming idx (drain a).1 :=
  (drain_keeps (fun _ _ _ hcoming hrunning hqueue => coming_turn hcoming hrunning hqueue) h).1

/-- A part that is taken sets the header and nothing else. -/
theorem validate_eq_taken {started : FountainAssembler}
    (h : a.validate part = .ok (started, true)) :
    started.received = a.received ∧ started.queue = a.queue ∧ started.result = a.result ∧
      started.simple = a.simple ∧ started.mixed = a.mixed := by
  rw [validate] at h
  cases hexpected : a.expectedIndexes with
  | none =>
    simp only [hexpected, bind_eq_ok, refuseIf_eq_ok, pure_eq_ok, Prod.mk.injEq, and_true] at h
    obtain ⟨_, -, _, -, _, -, _, -, rfl⟩ := h
    exact ⟨rfl, rfl, rfl, rfl, rfl⟩
  | some expected =>
    simp only [hexpected, Except.ok.injEq, Prod.mk.injEq] at h
    obtain ⟨rfl, -⟩ := h
    exact ⟨rfl, rfl, rfl, rfl, rfl⟩

/-- No part makes the assembler forget an index. -/
theorem coming_receive (h : Coming idx a) : Coming idx (a.receive chooser part).1 := by
  cases hcomplete : a.complete with
  | true =>
    rw [receive_of_complete _ hcomplete]
    exact h
  | false =>
    by_cases htaken : ∃ started, a.validate part = .ok (started, true)
    · obtain ⟨started, hvalidate⟩ := htaken
      obtain ⟨hreceived, hqueue, -⟩ := validate_eq_taken hvalidate
      rw [(receive_of_taken hcomplete hvalidate).1]
      refine coming_drain ?_
      rcases h with hdone | hreceived' | ⟨item, hitem, hindexes⟩
      · rw [hdone] at hcomplete
        cases hcomplete
      · exact .inr (.inl (by rw [queued, hreceived]; exact hreceived'))
      · refine .inr (.inr ⟨item, ?_, hindexes⟩)
        rw [queued, hqueue]
        exact List.mem_append_left _ hitem
    · rw [receive_of_not_taken fun started hvalidate => htaken ⟨started, hvalidate⟩]
      exact h

theorem coming_foldl {parts : List FountainPart} (h : Coming idx a) :
    Coming idx (parts.foldl (fun a part => (a.receive chooser part).1) a) := by
  induction parts generalizing a with
  | nil => exact h
  | cons part parts ih => exact ih (coming_receive h)

/-- A pure part that is taken is on its way. -/
theorem coming_of_taken (chooser : PartChooser) {started : FountainAssembler} (hrunning : a.complete = false)
    (hvalidate : a.validate part = .ok (started, true))
    (hpure : part.seqNum ≤ part.seqLen) :
    Coming ((part.seqNum : ℤ) - 1) (a.receive chooser part).1 := by
  rw [(receive_of_taken hrunning hvalidate).1]
  refine coming_drain (.inr (.inr ⟨_, List.mem_append_right _ (List.mem_singleton.mpr rfl), ?_⟩))
  exact if_pos hpure

end Coming

end FountainAssembler

namespace UrTransmission

variable {T : UrTransmission} {chooser : PartChooser}

/-- The parts of some numbers. -/
def parts (T : UrTransmission) (chooser : PartChooser) (numbers : List ℕ+) : List FountainPart :=
  numbers.map fun seqNum : ℕ+ => T.part chooser seqNum

/-- **The run**: whatever parts of the transmission are scanned, the assembler is under way. -/
theorem underway_assemble (chooser : PartChooser) (numbers : List ℕ+) :
    Underway T (assemble chooser (T.parts chooser numbers)) := by
  induction numbers using List.reverseRecOn with
  | nil => exact .inl rfl
  | append_singleton numbers seqNum ih =>
    rw [parts, List.map_append, assemble, List.foldl_append]
    exact ih.receive seqNum.pos

/-- A pure part that the assembler meets is on its way. -/
theorem coming_pure {a : FountainAssembler} (hcaps : T.WithinCaps) (h : Underway T a) {idx : ℤ}
    {seqNum : ℕ+} (hseqNum : (seqNum : ℕ) = idx.toNat + 1) (hidx : idx ∈ T.indexes) :
    FountainAssembler.Coming idx (a.receive chooser (T.part chooser seqNum)).1 := by
  obtain ⟨hlow, hhigh⟩ := mem_indexes.mp hidx
  cases hcomplete : a.complete with
  | true => exact coming_receive (.inl hcomplete)
  | false =>
    obtain ⟨started, hvalidate⟩ := validate_part chooser hcaps h seqNum
    have hcoming := coming_of_taken chooser hcomplete hvalidate (by
      change (seqNum : ℕ) ≤ T.seqLen
      omega)
    have hindex : ((seqNum : ℕ) : ℤ) - 1 = idx := by omega
    rw [part, hindex] at hcoming
    exact hcoming

/-- All indexes of a transmission that is assembled are received: the message is whole. -/
theorem Assembling.result_of_coming {a : FountainAssembler} (h : Assembling T a)
    (hend : a.complete = true ∨ a.queue = [])
    (hcoming : ∀ idx ∈ T.indexes, FountainAssembler.Coming idx a) : a.result = some T.message := by
  cases hcomplete : a.complete with
  | true =>
    obtain ⟨r, hr⟩ := Option.isSome_iff_exists.mp hcomplete
    rw [hr, h.result r hr]
  | false =>
    have hqueue : a.queue = [] := by
      rcases hend with hdone | hqueue
      · rw [hdone] at hcomplete
        cases hcomplete
      · exact hqueue
    have hsub : ∀ idx ∈ T.indexes, idx ∈ a.received := by
      intro idx hidx
      rcases hcoming idx hidx with hdone | hreceived | ⟨item, hitem, -⟩
      · rw [hdone] at hcomplete
        cases hcomplete
      · exact hreceived
      · rw [hqueue] at hitem
        cases hitem
    have hwithin : ∀ idx ∈ a.received, idx ∈ T.indexes := by
      intro idx hidx
      have hone : [idx] ∈ a.simple.map (·.indexes) := by
        rw [h.holding.received]
        exact List.mem_map_of_mem hidx
      obtain ⟨item, hitem, hindexes⟩ := List.mem_map.mp hone
      exact (h.holding.simple item hitem).mem idx (by rw [hindexes]; exact List.mem_singleton.mpr rfl)
    have hperm := (List.perm_ext_iff_of_nodup h.holding.nodup nodup_indexes).mpr fun idx =>
      ⟨hwithin idx, hsub idx⟩
    exact absurd hperm (h.missing hcomplete)

end UrTransmission

open UrTransmission

/-- **Parts of one transmission**, in any order and however often. The assembler holds fragments of
the message and exclusive ors of them, and its result is the message. Where the transmission is
within the bounds that the assembler sets, it has the result once each pure part was scanned. -/
theorem fountain_parts_kept (chooser : PartChooser) (T : UrTransmission) (numbers : List ℕ+) :
    (∀ item ∈ (FountainAssembler.assemble chooser (T.parts chooser numbers)).simple,
      ∃ i, item.indexes = [i] ∧ i ∈ T.indexes ∧ item.fragment = T.fragment i) ∧
    (∀ item ∈ (FountainAssembler.assemble chooser (T.parts chooser numbers)).mixed,
      (∀ i ∈ item.indexes, i ∈ T.indexes) ∧ item.fragment = T.mix item.indexes) ∧
    (∀ r, (FountainAssembler.assemble chooser (T.parts chooser numbers)).result = some r →
      r = T.message) ∧
    (T.WithinCaps → (∀ seqNum : ℕ+, (seqNum : ℕ) ≤ T.seqLen → seqNum ∈ numbers) →
      (FountainAssembler.assemble chooser (T.parts chooser numbers)).result = some T.message) := by
  have hunderway := underway_assemble (T := T) chooser numbers
  refine ⟨?_, ?_, ?_, fun hcaps hpure => ?_⟩
  · intro item hitem
    rcases hunderway with hfresh | ⟨h, -⟩
    · rw [hfresh] at hitem
      cases hitem
    · have hone := List.mem_map_of_mem (f := FountainItem.indexes) hitem
      rw [h.holding.received] at hone
      obtain ⟨i, -, hi⟩ := List.mem_map.mp hone
      have hsound := h.holding.simple item hitem
      refine ⟨i, hi.symm, hsound.mem i (by rw [← hi]; exact List.mem_singleton.mpr rfl), ?_⟩
      rw [hsound.fragment, ← hi, mix, xorAt_singleton length_fragment]
  · intro item hitem
    rcases hunderway with hfresh | ⟨h, -⟩
    · rw [hfresh] at hitem
      cases hitem
    · have hsound := h.holding.mixed item hitem
      exact ⟨hsound.mem, hsound.fragment⟩
  · intro r hr
    rcases hunderway with hfresh | ⟨h, -⟩
    · rw [hfresh] at hr
      cases hr
    · exact h.result r hr
  · have hcoming : ∀ idx ∈ T.indexes, FountainAssembler.Coming idx
        (FountainAssembler.assemble chooser (T.parts chooser numbers)) := by
      intro idx hidx
      obtain ⟨hlow, hhigh⟩ := mem_indexes.mp hidx
      -- the pure part of the index, and the parts before and after it
      obtain ⟨seqNum, hseqNum⟩ : ∃ seqNum : ℕ+, (seqNum : ℕ) = idx.toNat + 1 :=
        ⟨⟨idx.toNat + 1, Nat.succ_pos _⟩, rfl⟩
      obtain ⟨before, after, rfl⟩ := List.append_of_mem (hpure seqNum (by omega))
      have hbefore := underway_assemble (T := T) chooser before
      rw [parts, List.map_append, List.map_cons, FountainAssembler.assemble, List.foldl_append,
        List.foldl_cons]
      exact FountainAssembler.coming_foldl (coming_pure hcaps hbefore hseqNum hidx)
    rcases hunderway with hfresh | ⟨h, hend⟩
    · have hpos := seqLen_pos (List.length_pos_iff.mpr hcaps.1)
      rw [hfresh] at hcoming
      rcases hcoming 0 (mem_indexes.mpr (by omega)) with hcomplete | hreceived | ⟨item, hitem, -⟩
      · cases hcomplete
      · cases hreceived
      · cases hitem
    · exact h.result_of_coming hend hcoming

/-- A message whose fragments are longer than the bound is refused, so it is never whole. -/
theorem fragment_over_cap_refused :
    ¬∀ (chooser : PartChooser) (T : UrTransmission) (numbers : List ℕ+),
      (∀ seqNum : ℕ+, (seqNum : ℕ) ≤ T.seqLen → seqNum ∈ numbers) →
      (FountainAssembler.assemble chooser (T.parts chooser numbers)).complete = true := by
  intro h
  obtain ⟨n, hn⟩ : ∃ n, n = urMaxFragmentBytes + 1 := ⟨_, rfl⟩
  let T : UrTransmission := ⟨List.replicate n 0, 1, n, by
    rw [List.length_replicate, Nat.one_mul]⟩
  let chooser : PartChooser := ⟨fun _ _ _ => [], fun _ _ _ => List.nodup_nil, fun _ _ _ i hi => by
    cases hi⟩
  have hcomplete := h chooser T [1] fun seqNum hle => by
    have hone : seqNum = 1 := le_antisymm hle (one_le (a := seqNum))
    rw [hone]
    exact List.mem_singleton.mpr rfl
  have hrefused : ∀ started, FountainAssembler.create.validate (T.part chooser 1) ≠
      .ok (started, true) := by
    intro started hvalidate
    simp only [FountainAssembler.validate, FountainAssembler.create, bind_eq_ok, refuseIf_eq_ok] at hvalidate
    obtain ⟨_, -, _, -, _, hfragment, -⟩ := hvalidate
    rw [(sharesHeader_part (T := T) chooser 1).2.2.2] at hfragment
    have hlong : urMaxFragmentBytes < T.fragmentLength := by
      change urMaxFragmentBytes < n
      omega
    exact hfragment hlong
  have hsame : FountainAssembler.assemble chooser (T.parts chooser [1]) = .create :=
    FountainAssembler.receive_of_not_taken hrefused
  rw [hsame] at hcomplete
  cases hcomplete

end XchainWallet
