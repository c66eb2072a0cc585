import Mathlib.Data.Multiset.Filter

/-!
# Sorting items into slots, own items and spares

A list of items is checked against a list of slots, each of which one item has to fill. The
items are taken in order: an item fills the first open slot it fits, else it may be one of our
own, else it takes one of a limited number of spare places, else it is refused. Read off the
outcome is whether the items **split**: into the fillers of all slots, own items, and at most
so many spares.

Greed is no loss here when the fit is **difunctional** (two slots that share an item fit the
same items) and the items that fit one slot are own, or spare, together (`sort_ok_iff`). Both
are needed: an item that fits a slot is never kept back for a spare place it also has.
-/

namespace XchainWallet.Matching

open Multiset (add_cons card_add card_cons cons_add cons_coe cons_inj_right exists_cons_of_mem
  mem_add mem_cons mem_cons_of_mem mem_cons_self rel_flip)

variable {σ α : Type*}

/-! ### The greedy sort -/

/-- What is left when every item was taken: the slots no item filled, the number of spare
places used, and the refused items with their positions. -/
structure Outcome (σ α : Type*) where
  missing : List σ
  used : ℕ
  refused : List (ℕ × α)

/-- Every slot is filled and no item refused. -/
def Outcome.Ok (o : Outcome σ α) : Prop := o.refused = [] ∧ o.missing = []

instance [DecidableEq σ] [DecidableEq α] (o : Outcome σ α) : Decidable o.Ok :=
  inferInstanceAs (Decidable (_ ∧ _))

/-- Take the items in order, from position `i` on, with `places` spare places left. -/
def sort (fits : σ → α → Bool) (own spare : α → Bool) :
    List σ → ℕ → ℕ → List α → Outcome σ α
  | slots, _, _, [] => ⟨slots, 0, []⟩
  | slots, places, i, a :: items =>
    if slots.any (fits · a) then
      sort fits own spare (slots.eraseP (fits · a)) places (i + 1) items
    else if own a then sort fits own spare slots places (i + 1) items
    else if spare a ∧ 0 < places then
      let rest := sort fits own spare slots (places - 1) (i + 1) items
      { rest with used := rest.used + 1 }
    else
      let rest := sort fits own spare slots places (i + 1) items
      { rest with refused := (i, a) :: rest.refused }

variable {fits : σ → α → Bool} {own spare : α → Bool}

/-! ### Splitting a multiset of items -/

/-- The items are fillers of the slots, one each, own items, and `used` spares. -/
def SplitsWith (fits : σ → α → Bool) (own spare : α → Bool) (slots : Multiset σ) (used : ℕ)
    (items : Multiset α) : Prop :=
  ∃ filling mine spares : Multiset α, items = filling + mine + spares ∧
    Multiset.Rel (fun s a => fits s a = true) slots filling ∧
    (∀ a ∈ mine, own a = true) ∧ (∀ a ∈ spares, spare a = true) ∧ spares.card = used

/-- The items split with at most so many spares. -/
def Splits (fits : σ → α → Bool) (own spare : α → Bool) (slots : Multiset σ) (places : ℕ)
    (items : Multiset α) : Prop :=
  ∃ used ≤ places, SplitsWith fits own spare slots used items

theorem splitsWith_zero : SplitsWith fits own spare 0 0 0 :=
  ⟨0, 0, 0, by simp, .zero, by simp, by simp, by simp⟩

variable {slots : Multiset σ} {items : Multiset α}

variable {used : ℕ}

theorem SplitsWith.fill {s : σ} {a : α} (h : SplitsWith fits own spare slots used items)
    (hfit : fits s a = true) :
    SplitsWith fits own spare (s ::ₘ slots) used (a ::ₘ items) := by
  obtain ⟨filling, mine, spares, rfl, hrel, hmine, hspares, hcard⟩ := h
  exact ⟨a ::ₘ filling, mine, spares, by simp [cons_add], .cons hfit hrel, hmine, hspares,
    hcard⟩

theorem SplitsWith.keep {a : α} (h : SplitsWith fits own spare slots used items)
    (hown : own a = true) :
    SplitsWith fits own spare slots used (a ::ₘ items) := by
  obtain ⟨filling, mine, spares, rfl, hrel, hmine, hspares, hcard⟩ := h
  refine ⟨filling, a ::ₘ mine, spares, by simp [cons_add, add_cons], hrel, ?_,
    hspares, hcard⟩
  intro b hb
  obtain rfl | hb := mem_cons.mp hb
  · exact hown
  · exact hmine b hb

theorem SplitsWith.place {a : α} (h : SplitsWith fits own spare slots used items)
    (hspare : spare a = true) :
    SplitsWith fits own spare slots (used + 1) (a ::ₘ items) := by
  obtain ⟨filling, mine, spares, rfl, hrel, hmine, hspares, hcard⟩ := h
  refine ⟨filling, mine, a ::ₘ spares, by simp [add_cons], hrel, hmine, ?_,
    by simp [hcard]⟩
  intro b hb
  obtain rfl | hb := mem_cons.mp hb
  · exact hspare
  · exact hspares b hb

theorem le_of_le_add {p q r : Multiset α} (hle : p ≤ q + r) (hnot : ∀ a ∈ p, a ∉ q) : p ≤ r := by
  classical
  rw [Multiset.le_iff_count] at hle ⊢
  intro a
  by_cases ha : a ∈ p
  · have hcount := hle a
    rwa [Multiset.count_add, Multiset.count_eq_zero_of_notMem (hnot a ha), Nat.zero_add] at hcount
  · rw [Multiset.count_eq_zero_of_notMem ha]
    exact Nat.zero_le _

/-- Items that fill no slot and are not own, as many of them as there are spares, are the
spares. -/
theorem eq_spares_of_le {filling mine spares chosen : Multiset α}
    (hrel : Multiset.Rel (fun s a => fits s a = true) slots filling)
    (hmine : ∀ a ∈ mine, own a = true) (hle : chosen ≤ filling + mine + spares)
    (hnot : ∀ a ∈ chosen, ¬ own a = true ∧ ∀ s ∈ slots, ¬ fits s a = true)
    (hcard : spares.card ≤ chosen.card) : chosen = spares := by
  refine Multiset.eq_of_le_of_card_le (le_of_le_add hle fun a ha hmem => ?_) hcard
  rcases mem_add.mp hmem with hmem | hmem
  · obtain ⟨s, hs, hfit⟩ := Multiset.exists_mem_of_rel_of_mem (rel_flip.mpr hrel) hmem
    exact (hnot a ha).2 s hs hfit
  · exact (hnot a ha).1 (hmine a hmem)

/-! ### An accepted list splits -/

theorem eraseP_cons_coe {slots : List σ} {p : σ → Bool} (h : slots.any p = true) :
    ∃ s, p s = true ∧ (slots : Multiset σ) = s ::ₘ (slots.eraseP p : List σ) := by
  obtain ⟨s, hs, hps⟩ := List.any_eq_true.mp h
  obtain ⟨t, before, after, -, hpt, hslots, herase⟩ := List.exists_of_eraseP hs hps
  refine ⟨t, hpt, ?_⟩
  rw [herase, hslots, cons_coe]
  exact Multiset.coe_eq_coe.mpr List.perm_middle

/-- **An accepted list of items splits**, with as many spares as places were used, and no more
places are used than there are. -/
theorem splitsWith_of_sort_ok {slots : List σ} {places i : ℕ} {items : List α}
    (h : (sort fits own spare slots places i items).Ok) :
    (sort fits own spare slots places i items).used ≤ places ∧
      SplitsWith fits own spare slots (sort fits own spare slots places i items).used items := by
  induction items generalizing slots places i with
  | nil =>
    obtain ⟨-, rfl⟩ := h
    exact ⟨Nat.zero_le _, splitsWith_zero⟩
  | cons a items ih =>
    unfold sort at h ⊢
    by_cases hfill : slots.any (fits · a) = true
    · rw [if_pos hfill] at h ⊢
      obtain ⟨hle, hsplit⟩ := ih h
      obtain ⟨s, hfit, hslots⟩ := eraseP_cons_coe hfill
      rw [hslots]
      exact ⟨hle, hsplit.fill hfit⟩
    rw [if_neg hfill] at h ⊢
    by_cases hown : own a = true
    · rw [if_pos hown] at h ⊢
      exact ⟨(ih h).1, (ih h).2.keep hown⟩
    rw [if_neg hown] at h ⊢
    by_cases hspare : spare a = true ∧ 0 < places
    · rw [if_pos hspare] at h ⊢
      obtain ⟨hle, hsplit⟩ := ih (i := i + 1) h
      exact ⟨show _ + 1 ≤ places by omega, hsplit.place hspare.1⟩
    · rw [if_neg hspare] at h
      exact absurd h.1 (List.cons_ne_nil _ _)

/-! ### A splitting list is accepted -/

/-- Two slots that share an item fit the same items. -/
def Difunctional (fits : σ → α → Bool) : Prop :=
  ∀ s t a b, fits s a = true → fits t a = true → fits s b = true → fits t b = true

/-- The items that fit one slot are own together and spare together. -/
def Uniform (fits : σ → α → Bool) (own spare : α → Bool) (items : Multiset α) : Prop :=
  ∀ s, ∀ a ∈ items, ∀ b ∈ items, fits s a = true → fits s b = true → own a = own b ∧ spare a = spare b

theorem Uniform.of_cons {a : α} (h : Uniform fits own spare (a ::ₘ items)) :
    Uniform fits own spare items :=
  fun s b hb c hc => h s b (mem_cons_of_mem hb) c (mem_cons_of_mem hc)

/-- **Exchange.** An item that fits a slot may as well fill it: whatever place it has in a split
goes to the item that filled the slot there. -/
theorem SplitsWith.exchange (hdif : Difunctional fits) {s : σ} {a : α}
    (huni : Uniform fits own spare (a ::ₘ items))
    (h : SplitsWith fits own spare (s ::ₘ slots) used (a ::ₘ items)) (hfit : fits s a = true) :
    SplitsWith fits own spare slots used items := by
  obtain ⟨filling, mine, spares, hitems, hrel, hmine, hspares, hcard⟩ := h
  obtain ⟨b, others, hb, hothers, rfl⟩ := Multiset.rel_cons_left.mp hrel
  -- `b` fills the slot in the given split: either it is `a`, or it takes the place of `a`.
  have hmem : a ∈ b ::ₘ others + mine + spares := hitems ▸ mem_cons_self a items
  have hbmem : b ∈ a ::ₘ items := by rw [hitems]; simp
  obtain ⟨hbown, hbspare⟩ := huni s a (mem_cons_self a items) b hbmem hfit hb
  rw [cons_add, cons_add] at hitems hmem
  obtain rfl | hne := eq_or_ne a b
  · exact ⟨others, mine, spares, (cons_inj_right a).mp hitems, hothers, hmine, hspares,
      hcard⟩
  -- In every other place, dropping `a` there and putting `b` for it gives the split.
  have hrest : ∀ rest : Multiset α, others + mine + spares = a ::ₘ rest → items = b ::ₘ rest := by
    intro rest hrest
    rw [hrest, Multiset.cons_swap] at hitems
    exact (cons_inj_right a).mp hitems
  have hplace : a ∈ others + mine + spares := (mem_cons.mp hmem).resolve_left hne
  rcases mem_add.mp hplace with hplace | hplace
  · rcases mem_add.mp hplace with hplace | hplace
    · obtain ⟨others, rfl⟩ := exists_cons_of_mem hplace
      obtain ⟨t, slots, hta, hslots, rfl⟩ := Multiset.rel_cons_right.mp hothers
      rw [hrest (others + mine + spares) (by simp [cons_add])]
      exact SplitsWith.fill ⟨others, mine, spares, rfl, hslots, hmine, hspares, hcard⟩
        (hdif s t a b hfit hta hb)
    · obtain ⟨mine, rfl⟩ := exists_cons_of_mem hplace
      rw [hrest (others + mine + spares) (by simp [cons_add, add_cons])]
      refine SplitsWith.keep ⟨others, mine, spares, rfl, hothers, ?_, hspares, hcard⟩ ?_
      · exact fun c hc => hmine c (mem_cons_of_mem hc)
      · rw [← hbown]
        exact hmine a (mem_cons_self a mine)
  · obtain ⟨spares, rfl⟩ := exists_cons_of_mem hplace
    rw [hrest (others + mine + spares) (by simp [add_cons]), ← hcard,
      card_cons]
    refine SplitsWith.place ⟨others, mine, spares, rfl, hothers, hmine, ?_, rfl⟩ ?_
    · exact fun c hc => hspares c (mem_cons_of_mem hc)
    · rw [← hbspare]
      exact hspares a (mem_cons_self a spares)

/-- An item that fits no slot is own or a spare in every split, and the others split without
it. -/
theorem SplitsWith.drop {a : α} (h : SplitsWith fits own spare slots used (a ::ₘ items))
    (hnone : ∀ s ∈ slots, ¬ fits s a = true) :
    (own a = true ∧ SplitsWith fits own spare slots used items) ∨
      (spare a = true ∧ ∃ fewer, used = fewer + 1 ∧ SplitsWith fits own spare slots fewer items) := by
  obtain ⟨filling, mine, spares, hitems, hrel, hmine, hspares, hcard⟩ := h
  have hmem : a ∈ filling + mine + spares := hitems ▸ mem_cons_self a items
  rcases mem_add.mp hmem with hmem | hmem
  · rcases mem_add.mp hmem with hmem | hmem
    · obtain ⟨s, hs, hfit⟩ := Multiset.exists_mem_of_rel_of_mem (rel_flip.mpr hrel) hmem
      exact absurd hfit (hnone s hs)
    · obtain ⟨mine, rfl⟩ := exists_cons_of_mem hmem
      rw [add_cons, cons_add, cons_inj_right] at hitems
      exact .inl ⟨hmine a (mem_cons_self a mine), filling, mine, spares, hitems, hrel,
        fun c hc => hmine c (mem_cons_of_mem hc), hspares, hcard⟩
  · obtain ⟨spares, rfl⟩ := exists_cons_of_mem hmem
    rw [add_cons, cons_inj_right] at hitems
    refine .inr ⟨hspares a (mem_cons_self a spares), spares.card, ?_, filling, mine,
      spares, hitems, hrel, hmine, fun c hc => hspares c (mem_cons_of_mem hc), rfl⟩
    rw [← hcard, card_cons]

/-- **Greed is no loss.** A list of items that splits is accepted, whatever its order. -/
theorem sort_ok_of_splits (hdif : Difunctional fits) {slots : List σ} {places i : ℕ}
    {items : List α} (huni : Uniform fits own spare items)
    (h : Splits fits own spare slots places items) : (sort fits own spare slots places i items).Ok := by
  induction items generalizing slots places i with
  | nil =>
    obtain ⟨used, -, filling, mine, spares, hitems, hrel, -⟩ := h
    have hcard := congrArg Multiset.card hitems
    rw [Multiset.coe_card, List.length_nil, card_add, card_add] at hcard
    have hfilling : filling = 0 := Multiset.card_eq_zero.mp (by omega)
    rw [hfilling, Multiset.rel_zero_right] at hrel
    exact ⟨rfl, (Multiset.coe_eq_zero slots).mp hrel⟩
  | cons a items ih =>
    rw [← cons_coe] at h huni
    unfold sort
    by_cases hfill : slots.any (fits · a) = true
    · rw [if_pos hfill]
      obtain ⟨s, hfit, hslots⟩ := eraseP_cons_coe hfill
      obtain ⟨used, hused, hsplit⟩ := h
      rw [hslots] at hsplit
      exact ih huni.of_cons ⟨used, hused, hsplit.exchange hdif huni hfit⟩
    have hnone : ∀ s ∈ (slots : Multiset σ), ¬ fits s a = true := by
      intro s hs hfit
      exact hfill (List.any_eq_true.mpr ⟨s, Multiset.mem_coe.mp hs, hfit⟩)
    rw [if_neg hfill]
    obtain ⟨used, hused, hsplit⟩ := h
    rcases hsplit.drop hnone with ⟨hown, hrest⟩ | ⟨hspare, fewer, rfl, hrest⟩
    · rw [if_pos hown]
      exact ih huni.of_cons ⟨used, hused, hrest⟩
    by_cases hown : own a = true
    · rw [if_pos hown]
      exact ih huni.of_cons ⟨fewer, by omega, hrest⟩
    · rw [if_neg hown, if_pos ⟨hspare, by omega⟩]
      exact ih (i := i + 1) huni.of_cons ⟨fewer, by omega, hrest⟩

/-- **The outcome of the sort is whether the items split.** -/
theorem sort_ok_iff (hdif : Difunctional fits) {slots : List σ} {places i : ℕ} {items : List α}
    (huni : Uniform fits own spare items) :
    (sort fits own spare slots places i items).Ok ↔ Splits fits own spare slots places items :=
  ⟨fun h => ⟨_, (splitsWith_of_sort_ok h).1, (splitsWith_of_sort_ok h).2⟩,
    sort_ok_of_splits hdif huni⟩

end XchainWallet.Matching
