import XchainWallet.Uri.Fountain

/-!
# The loop of the assembler ends

A turn of the loop of `FountainAssembler.receive` takes an item from the queue, and reducing the
stored mixed parts by it may put others there. Nothing is assumed of the state that the loop starts
in, nor of the part: the index lists may repeat an index, be empty, or hold indexes that the message
does not have. The loop ends since each turn leaves less `work`. The stored parts themselves come
down as well: what is reduced by a fragment loses its indexes, and a turn in which no stored part
does queues nothing new.
-/

namespace XchainWallet

namespace FountainAssembler

/-- The sizes of the index sets of some parts, together. -/
def indexSetSizes (items : List FountainItem) : ℕ :=
  (items.map fun m => m.indexes.toFinset.card).sum

/-- The loop goes from one state to another by a turn that throws nothing. -/
def TurnsTo (a b : FountainAssembler) : Prop :=
  a.complete = false ∧
    ∃ item rest, a.queue = item :: rest ∧ turn { a with queue := rest } item = (b, none)

/-- No stored mixed part has come down to one index. -/
def Unresolved (a : FountainAssembler) : Prop := ∀ m ∈ a.mixed, m.indexes.length ≠ 1

/-! ### The end of the loop -/

theorem TurnsTo.work_lt {a b : FountainAssembler} (h : a.TurnsTo b) : b.work < a.work := by
  obtain ⟨-, item, rest, hqueue, hturn⟩ := h
  have hless := work_turn_lt hqueue
  rwa [hturn] at hless

/-- **No run of the loop goes on for ever.** -/
theorem no_endless_run : ¬∃ run : ℕ → FountainAssembler, ∀ n, (run n).TurnsTo (run (n + 1)) := by
  rintro ⟨run, hrun⟩
  have hbound : ∀ n, (run n).work + n ≤ (run 0).work := by
    intro n
    induction n with
    | zero => exact le_rfl
    | succ n ih =>
      have hless := (hrun n).work_lt
      omega
  have hover := hbound ((run 0).work + 1)
  omega

variable (a : FountainAssembler)

/-- No state comes back. -/
theorem not_transGen_turnsTo : ¬Relation.TransGen TurnsTo a a := by
  have hless : ∀ {b}, Relation.TransGen TurnsTo a b → b.work < a.work := by
    intro b h
    induction h with
    | single hturn => exact hturn.work_lt
    | tail _ hturn ih => exact hturn.work_lt.trans ih
  intro h
  exact lt_irrefl _ (hless h)

/-- **The loop is a run of turns**, and it ends where the message is whole, the queue is empty, or
the next turn throws. -/
theorem exists_run_drain : ∃ last, Relation.ReflTransGen TurnsTo a last ∧
      ((drain a = (last, none) ∧ (last.complete = true ∨ last.queue = [])) ∨
        ∃ item rest e, last.complete = false ∧ last.queue = item :: rest ∧
          turn { last with queue := rest } item = ((drain a).1, some e) ∧
            (drain a).2 = some e) := by
  induction hwork : a.work using Nat.strong_induction_on generalizing a with
  | _ n ih =>
    cases hcomplete : a.complete with
    | true => exact ⟨a, .refl, .inl ⟨drain_of_complete hcomplete, .inl hcomplete⟩⟩
    | false =>
      cases hqueue : a.queue with
      | nil => exact ⟨a, .refl, .inl ⟨drain_of_nil hqueue, .inr hqueue⟩⟩
      | cons item rest =>
        have hdrain := drain_of_cons hcomplete hqueue
        rcases hturn : turn { a with queue := rest } item with ⟨next, e⟩
        rw [hturn] at hdrain
        cases e with
        | some e =>
          refine ⟨a, .refl, .inr ⟨item, rest, e, hcomplete, hqueue, ?_, ?_⟩⟩
          · rw [hdrain, hturn]
          · rw [hdrain]
        | none =>
          have hstep : a.TurnsTo next := ⟨hcomplete, item, rest, hqueue, hturn⟩
          obtain ⟨last, hrun, hlast⟩ := ih next.work (hwork ▸ hstep.work_lt) next rfl
          rw [hdrain]
          exact ⟨last, .head hstep hrun, hlast⟩

/-! ### The sizes of the stored parts -/

/-- A part that is reduced by another loses the indexes of the other, and there are some. -/
theorem reduce_indexes (m item : FountainItem) : (reduce m item).indexes = m.indexes ∨
      ((reduce m item).indexes.toFinset.card + item.indexes.toFinset.card =
        m.indexes.toFinset.card ∧ 0 < item.indexes.toFinset.card) := by
  rw [reduce]
  split_ifs with hinside
  · rcases Nat.eq_zero_or_pos item.indexes.toFinset.card with hnone | hsome
    · left
      have hnil : item.indexes = [] := by simpa using hnone
      simp [setDifference, hnil]
    · right
      have hdiff : (setDifference m.indexes item.indexes).toFinset =
          m.indexes.toFinset \ item.indexes.toFinset := by
        ext i
        simp [setDifference]
      have hsub : item.indexes.toFinset ⊆ m.indexes.toFinset := by
        intro i hi
        have hall := hinside.1
        simp only [contains, List.all_eq_true, decide_eq_true_eq] at hall
        exact List.mem_toFinset.mpr (hall i (List.mem_toFinset.mp hi))
      rw [hdiff]
      exact ⟨Finset.card_sdiff_add_card_eq_card hsub, hsome⟩
  · exact .inl rfl

theorem card_reduce_le (m item : FountainItem) :
    (reduce m item).indexes.toFinset.card ≤ m.indexes.toFinset.card := by
  rcases reduce_indexes m item with hsame | ⟨hless, -⟩
  · rw [hsame]
  · omega

/-- What is left of some parts that are reduced by an item. -/
private abbrev kept (items : List FountainItem) (item : FountainItem) : List FountainItem :=
  (items.map (reduce · item)).filter (·.indexes.length ≠ 1)

/-- Those of them that come down to one index. -/
private abbrev moved (items : List FountainItem) (item : FountainItem) : List FountainItem :=
  (items.map (reduce · item)).filter (·.indexes.length = 1)

private theorem card_of_length_one {l : List ℤ} (h : l.length = 1) : l.toFinset.card = 1 := by
  obtain ⟨i, rfl⟩ := List.length_eq_one_iff.mp h
  simp

theorem indexSetSizes_cons (m : FountainItem) (items : List FountainItem) :
    indexSetSizes (m :: items) = m.indexes.toFinset.card + indexSetSizes items := by
  rw [indexSetSizes, List.map_cons, List.sum_cons, indexSetSizes]

section Reducing

variable {m : FountainItem} {items : List FountainItem} (item : FountainItem)

private theorem kept_cons_of_one (h : (reduce m item).indexes.length = 1) :
    kept (m :: items) item = kept items item := by simp [kept, h]

private theorem kept_cons (h : (reduce m item).indexes.length ≠ 1) :
    kept (m :: items) item = reduce m item :: kept items item := by simp [kept, h]

private theorem moved_cons (h : (reduce m item).indexes.length ≠ 1) :
    moved (m :: items) item = moved items item := by simp [moved, h]

private theorem kept_le : indexSetSizes (kept items item) ≤ indexSetSizes items := by
  induction items with
  | nil => exact le_rfl
  | cons m items ih =>
    have hm := card_reduce_le m item
    by_cases hone : (reduce m item).indexes.length = 1
    · rw [kept_cons_of_one item hone, indexSetSizes_cons]
      omega
    · rw [kept_cons item hone, indexSetSizes_cons, indexSetSizes_cons]
      omega

/-- Reducing some parts takes indexes away, or leaves all their indexes. -/
private theorem kept_lt_or : indexSetSizes (kept items item) < indexSetSizes items ∨
      moved items item = [] ∧ (kept items item).map (·.indexes) = items.map (·.indexes) := by
  induction items with
  | nil => exact .inr ⟨rfl, rfl⟩
  | cons m items ih =>
    have hm := card_reduce_le m item
    have hrest : indexSetSizes (kept items item) ≤ indexSetSizes items := kept_le item
    by_cases hone : (reduce m item).indexes.length = 1
    · left
      have hcard := card_of_length_one hone
      rw [kept_cons_of_one item hone, indexSetSizes_cons]
      omega
    · rw [kept_cons item hone, moved_cons item hone, indexSetSizes_cons, indexSetSizes_cons]
      rcases reduce_indexes m item with hindexes | ⟨hless, hsome⟩
      · refine ih.imp (fun hless => by omega) fun hstops => ⟨hstops.1, ?_⟩
        rw [List.map_cons, List.map_cons, hindexes, hstops.2]
      · left
        omega

/-- Where a part comes down to one index, the part that it was reduced by fits in what is lost. -/
private theorem kept_add_lt_or (hitems : ∀ m ∈ items, m.indexes.length ≠ 1) :
    indexSetSizes (kept items item) + item.indexes.toFinset.card < indexSetSizes items ∨
      moved items item = [] := by
  induction items with
  | nil => exact .inr rfl
  | cons m items ih =>
    have hm := card_reduce_le m item
    have hrest : indexSetSizes (kept items item) ≤ indexSetSizes items := kept_le item
    by_cases hone : (reduce m item).indexes.length = 1
    · left
      have hcard := card_of_length_one hone
      rw [kept_cons_of_one item hone, indexSetSizes_cons]
      rcases reduce_indexes m item with hindexes | ⟨hless, -⟩
      · exact absurd (hindexes ▸ hone) (hitems m (.head _))
      · omega
    · rw [kept_cons item hone, moved_cons item hone, indexSetSizes_cons, indexSetSizes_cons]
      exact (ih fun m hm => hitems m (.tail _ hm)).imp_left fun hless => by omega

end Reducing

private theorem queue_reduceMixedBy (item : FountainItem) :
    (a.reduceMixedBy item).queue = a.queue ++ moved a.mixed item := rfl

private theorem mixed_reduceMixedBy (item : FountainItem) :
    (a.reduceMixedBy item).mixed = kept a.mixed item := rfl

/-- **Reducing the stored parts by a fragment** makes their index sets smaller, or it stops: it
queues nothing and leaves all index lists as they are. -/
theorem reduceMixedBy_smaller (item : FountainItem) :
    indexSetSizes (a.reduceMixedBy item).mixed < indexSetSizes a.mixed ∨
      (a.reduceMixedBy item).queue = a.queue ∧
        (a.reduceMixedBy item).mixed.map (·.indexes) = a.mixed.map (·.indexes) := by
  refine (kept_lt_or item).imp_right fun hstops => ⟨?_, hstops.2⟩
  rw [queue_reduceMixedBy, hstops.1, List.append_nil]

/-! ### The turns -/

theorem unresolved_reduceMixedBy (item : FountainItem) : (a.reduceMixedBy item).Unresolved := by
  intro m hm
  simpa using (List.mem_filter.mp hm).2

/-- What a turn does to the stored parts and to the queue: their index sets get smaller, or nothing
is queued, or the item itself is queued again as a fragment. -/
def Lessens (a b : FountainAssembler) : Prop :=
  b.Unresolved ∧ (indexSetSizes b.mixed < indexSetSizes a.mixed ∨ b.queue = a.queue.tail ∨
      b.mixed = a.mixed ∧ ∃ p : FountainItem, p.indexes.length = 1 ∧ b.queue = a.queue.tail ++ [p])

theorem lessens_processSimple {a b : FountainAssembler} (h : a.Unresolved)
    {item : FountainItem} {rest : List FountainItem} (hqueue : a.queue = item :: rest) {idx : ℤ}
    (hturn : processSimple { a with queue := rest } idx item = (b, none)) : Lessens a b := by
  have htail : rest = a.queue.tail := by rw [hqueue, List.tail_cons]
  rw [processSimple] at hturn
  split_ifs at hturn
  · obtain ⟨rfl, -⟩ := Prod.mk.inj hturn
    exact ⟨h, .inr (.inl htail)⟩
  · dsimp only at hturn
    split_ifs at hturn
    · obtain ⟨rfl, -⟩ := Prod.mk.inj hturn
      exact ⟨h, .inr (.inl htail)⟩
    · cases (Prod.mk.inj hturn).2
    · obtain ⟨rfl, -⟩ := Prod.mk.inj hturn
      refine ⟨unresolved_reduceMixedBy _ item, ?_⟩
      exact (reduceMixedBy_smaller _ item).imp_right fun hstops => .inl (hstops.1.trans htail)

theorem lessens_processMixed {a : FountainAssembler} (h : a.Unresolved) {item : FountainItem}
    {rest : List FountainItem} (hqueue : a.queue = item :: rest) :
    Lessens a (processMixed { a with queue := rest } item) := by
  have htail : rest = a.queue.tail := by rw [hqueue, List.tail_cons]
  rw [processMixed]
  split_ifs
  · exact ⟨h, .inr (.inl htail)⟩
  · dsimp only
    set p := a.mixed.foldl reduce (a.simple.foldl reduce item) with hp
    split_ifs with hone
    · exact ⟨h, .inr (.inr ⟨rfl, p, hone, by rw [htail]⟩)⟩
    · constructor
      · intro m hm
        rcases List.mem_append.mp hm with hm | hm
        · exact unresolved_reduceMixedBy _ p m hm
        · obtain rfl := List.mem_singleton.mp hm
          exact hone
      · rcases kept_add_lt_or p h with hless | hmoved
        · left
          rw [mixed_reduceMixedBy]
          simpa [indexSetSizes] using hless
        · right
          left
          exact (congrArg (rest ++ ·) hmoved).trans ((List.append_nil rest).trans htail)

theorem TurnsTo.lessens {a b : FountainAssembler} (hturn : a.TurnsTo b) (h : a.Unresolved) :
    Lessens a b := by
  obtain ⟨-, item, rest, hqueue, hturn⟩ := hturn
  rw [turn] at hturn
  split at hturn
  · exact lessens_processSimple h hqueue hturn
  · obtain ⟨rfl, -⟩ := Prod.mk.inj hturn
    exact lessens_processMixed h hqueue

/-- **The loop of `receive` ends**, from every state and with every part: no run of its turns is
endless, no state comes back, and the run of turns that the loop is ends where the message is whole,
the queue is empty or a turn throws. Reducing the stored parts by a fragment makes their index sets
smaller together or queues nothing and leaves them; and of the turns from a state whose stored parts
are unresolved, each that queues a stored part makes them smaller. -/
theorem receive_ends :
    (¬∃ run : ℕ → FountainAssembler, ∀ n, (run n).TurnsTo (run (n + 1))) ∧
      (∀ a, ¬Relation.TransGen TurnsTo a a) ∧
      (∀ a : FountainAssembler, ∃ last, Relation.ReflTransGen TurnsTo a last ∧
        ((drain a = (last, none) ∧ (last.complete = true ∨ last.queue = [])) ∨
          ∃ item rest e, last.complete = false ∧ last.queue = item :: rest ∧
            turn { last with queue := rest } item = ((drain a).1, some e) ∧
              (drain a).2 = some e)) ∧
      (∀ (a : FountainAssembler) (item : FountainItem),
        indexSetSizes (a.reduceMixedBy item).mixed < indexSetSizes a.mixed ∨
          (a.reduceMixedBy item).queue = a.queue ∧
            (a.reduceMixedBy item).mixed.map (·.indexes) = a.mixed.map (·.indexes)) ∧
      ∀ a b : FountainAssembler, a.TurnsTo b → a.Unresolved → Lessens a b :=
  ⟨no_endless_run, not_transGen_turnsTo, exists_run_drain, reduceMixedBy_smaller,
    fun _ _ hturn h => hturn.lessens h⟩

end FountainAssembler

end XchainWallet
