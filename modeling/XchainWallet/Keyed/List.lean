import Mathlib.Data.List.Nodup

/-!
# Lists of keyed records

A list read as a table through a key function: `find` is the first record under a key,
`upsert` replaces that record or appends a new one, `erase` drops it, `adjust` changes it. The
laws are the ones of a finite map; `erase` and `adjust` satisfy their own only where the keys
are distinct, which all of them preserve.
-/

namespace Keyed

open List (map_congr_left map_cons map_id mem_cons mem_map)

variable {α κ : Type*} [DecidableEq κ] (key : α → κ)

/-- The first record under `k`. -/
def find (k : κ) (l : List α) : Option α := l.find? fun a => key a = k

/-- Replace the first record under the key of `a`, or append `a`. -/
def upsert (a : α) : List α → List α
  | [] => [a]
  | b :: l => if key b = key a then a :: l else b :: upsert a l

/-- Drop the first record under `k`. -/
def erase (k : κ) (l : List α) : List α := l.eraseP fun a => key a = k

/-- Change the records under `k`. -/
def adjust (k : κ) (f : α → α) (l : List α) : List α := l.map fun a => if key a = k then f a else a

/-- No two records share a key. -/
def Distinct (l : List α) : Prop := (l.map key).Nodup

instance (l : List α) : Decidable (Distinct key l) := inferInstanceAs (Decidable (l.map key).Nodup)

variable {key}

/-! ### Lookup -/

@[simp]
theorem find_nil (k : κ) : find key k [] = none := rfl

theorem find_cons (k : κ) (a : α) (l : List α) :
    find key k (a :: l) = if key a = k then some a else find key k l := by
  simp only [find, List.find?_cons]
  split <;> simp_all

variable {k : κ} {l : List α} {a : α}

theorem key_of_find (h : find key k l = some a) : key a = k := by
  simpa using List.find?_some h

theorem mem_of_find (h : find key k l = some a) : a ∈ l := List.mem_of_find?_eq_some h

theorem find_eq_none : find key k l = none ↔ ∀ a ∈ l, key a ≠ k := by
  simp [find]

theorem find_append (k : κ) (l m : List α) :
    find key k (l ++ m) = (find key k l).or (find key k m) := by
  simp [find, List.find?_append]

omit [DecidableEq κ] in
theorem Distinct.cons (h : Distinct key (a :: l)) : (∀ b ∈ l, key b ≠ key a) ∧ Distinct key l := by
  simp only [Distinct, map_cons, List.nodup_cons, mem_map, not_exists, not_and] at h
  exact h

/-- On a table with distinct keys, every record is found under its own key. -/
theorem find_eq_some (hl : Distinct key l) : find key k l = some a ↔ a ∈ l ∧ key a = k := by
  constructor
  · exact fun h => ⟨mem_of_find h, key_of_find h⟩
  · rintro ⟨hmem, hk⟩
    induction l with
    | nil => simp at hmem
    | cons b l ih =>
      obtain ⟨hb, hl'⟩ := hl.cons
      rw [find_cons]
      rcases mem_cons.mp hmem with rfl | hmem'
      · rw [if_pos hk]
      · have hne : key b ≠ k := fun h => hb a hmem' (hk.trans h.symm)
        rw [if_neg hne]
        exact ih hl' hmem'

/-- With distinct keys the last record under a key is the first one. -/
theorem find_reverse (hl : Distinct key l) : find key k l.reverse = find key k l := by
  have hr : Distinct key l.reverse := by
    simpa [Distinct, List.map_reverse] using List.nodup_reverse.mpr hl
  ext a
  rw [find_eq_some hr, find_eq_some hl, List.mem_reverse]

/-! ### Upsert -/

theorem upsert_nil (a : α) : upsert key a [] = [a] := rfl

theorem upsert_cons (a b : α) (l : List α) :
    upsert key a (b :: l) = if key b = key a then a :: l else b :: upsert key a l := rfl

theorem upsert_eq_append (h : ∀ b ∈ l, key b ≠ key a) : upsert key a l = l ++ [a] := by
  induction l with
  | nil => rfl
  | cons b l ih =>
    have htail := ih fun c hc => h c (.tail b hc)
    rw [upsert_cons, if_neg (h b (.head _)), htail, List.cons_append]

/-- To put a record in its own place changes nothing. -/
theorem upsert_of_find (h : find key (key a) l = some a) : upsert key a l = l := by
  induction l with
  | nil => cases h
  | cons b l ih =>
    rw [find_cons] at h
    rw [upsert_cons]
    split at h
    · next hkey =>
      rw [if_pos hkey, Option.some.inj h]
    · next hkey => rw [if_neg hkey, ih h]

/-- The keys stay where a record is replaced. -/
theorem map_key_upsert {a b : α} (h : find key (key a) l = some b) :
    (upsert key a l).map key = l.map key := by
  induction l with
  | nil => cases h
  | cons c l ih =>
    rw [find_cons] at h
    rw [upsert_cons]
    split at h
    · next hkey => rw [if_pos hkey, map_cons, map_cons, hkey]
    · next hkey => rw [if_neg hkey, map_cons, map_cons, ih h]

theorem find_upsert_self (a : α) (l : List α) : find key (key a) (upsert key a l) = some a := by
  induction l with
  | nil => simp [upsert_nil, find_cons]
  | cons b l ih =>
    rw [upsert_cons]
    split
    · simp [find_cons]
    · next h => rw [find_cons, if_neg h, ih]

theorem find_upsert_of_ne (h : k ≠ key a) (l : List α) :
    find key k (upsert key a l) = find key k l := by
  induction l with
  | nil => simp [upsert_nil, find_cons, h.symm]
  | cons b l ih =>
    rw [upsert_cons]
    split
    · next hb => rw [find_cons, find_cons, if_neg h.symm, if_neg (hb ▸ h.symm)]
    · rw [find_cons, find_cons, ih]

theorem find_upsert (k : κ) (a : α) (l : List α) :
    find key k (upsert key a l) = if k = key a then some a else find key k l := by
  split
  · next h => rw [h, find_upsert_self]
  · next h => exact find_upsert_of_ne h l

theorem mem_upsert {a b : α} (h : b ∈ upsert key a l) : b = a ∨ b ∈ l := by
  induction l with
  | nil => simpa [upsert_nil] using h
  | cons c l ih =>
    rw [upsert_cons] at h
    split at h
    · rcases mem_cons.mp h with h | h
      · exact .inl h
      · exact .inr (.tail _ h)
    · rcases mem_cons.mp h with h | h
      · exact .inr (h ▸ (.head _))
      · exact (ih h).imp_right (.tail _)

/-- An upsert takes out at most the first record under its key. -/
theorem mem_upsert_or_find {a b : α} (h : b ∈ l) :
    b ∈ upsert key a l ∨ find key (key a) l = some b := by
  induction l with
  | nil => cases h
  | cons c l ih =>
    rw [upsert_cons, find_cons]
    by_cases hc : key c = key a
    · rw [if_pos hc, if_pos hc]
      rcases mem_cons.mp h with rfl | h
      · exact .inr rfl
      · exact .inl (.tail _ h)
    · rw [if_neg hc, if_neg hc]
      rcases mem_cons.mp h with rfl | h
      · exact .inl (.head _)
      · exact (ih h).imp_left (.tail _)

theorem self_mem_upsert (a : α) (l : List α) : a ∈ upsert key a l :=
  mem_of_find (find_upsert_self a l)

/-- The keys after an upsert. -/
theorem mem_map_key_upsert : k ∈ (upsert key a l).map key ↔ k ∈ l.map key ∨ key a = k := by
  induction l with
  | nil => simp [upsert_nil, eq_comm]
  | cons b l ih =>
    rw [upsert_cons]
    split
    · next h =>
      rw [map_cons, map_cons, mem_cons, mem_cons, h, eq_comm]
      tauto
    · next h =>
      rw [map_cons, map_cons, mem_cons, mem_cons, ih, or_assoc]

theorem Distinct.upsert (hl : Distinct key l) : Distinct key (upsert key a l) := by
  induction l with
  | nil => simp [upsert_nil, Distinct]
  | cons b l ih =>
    obtain ⟨hb, hl'⟩ := hl.cons
    rw [upsert_cons]
    split
    · next h =>
      refine List.nodup_cons.mpr ⟨fun hmem => ?_, hl'⟩
      obtain ⟨c, hc, hck⟩ := mem_map.mp hmem
      exact hb c hc (hck.trans h.symm)
    · next h =>
      refine List.nodup_cons.mpr ⟨fun hmem => ?_, ih hl'⟩
      obtain ⟨c, hc, hck⟩ := mem_map.mp hmem
      rcases mem_upsert hc with rfl | hc'
      · exact h hck.symm
      · exact hb c hc' hck

/-! ### Adjust -/

variable {f : α → α}

theorem find_adjust {k k' : κ} (hf : ∀ a, key (f a) = key a) (l : List α) :
    find key k' (adjust key k f l) = if k' = k then (find key k l).map f else find key k' l := by
  induction l with
  | nil => simp [adjust]
  | cons a l ih =>
    simp only [adjust, map_cons, find_cons] at ih ⊢
    by_cases ha : key a = k
    · by_cases hk : k' = k
      · simp [ha, hf, hk]
      · have hne : key a ≠ k' := fun h => hk (h.symm.trans ha)
        rw [if_pos ha, hf, if_neg hne, if_neg hne, ih, if_neg hk, if_neg hk]
    · by_cases hk : k' = k
      · subst hk
        rw [if_pos rfl] at ih ⊢
        rw [if_neg ha, if_neg ha, if_neg ha, ih]
      · rw [if_neg hk] at ih ⊢
        rw [if_neg ha, ih]

/-- **A write of a changed record.** To put `b` in place of the record under its key is to
change that record by `f` exactly when `b` is what `f` makes of it. -/
theorem upsert_eq_adjust (hf : ∀ a, key (f a) = key a) {b : α} (hl : Distinct key l) :
    upsert key b l = adjust key (key b) f l ↔ ∃ a, find key (key b) l = some a ∧ b = f a := by
  constructor
  · intro h
    have hfind : find key (key b) (upsert key b l) = some b := find_upsert_self b l
    rw [h, find_adjust hf, if_pos rfl, Option.map_eq_some_iff] at hfind
    obtain ⟨a, ha, hfa⟩ := hfind
    exact ⟨a, ha, hfa.symm⟩
  · rintro ⟨a, ha, hb⟩
    induction l with
    | nil => cases ha
    | cons c l ih =>
      obtain ⟨hc, hl'⟩ := hl.cons
      rw [find_cons] at ha
      rw [upsert_cons, adjust, map_cons]
      by_cases hk : key c = key b
      · rw [if_pos hk] at ha ⊢
        have hrest : (l.map fun d => if key d = key b then f d else d) = l := by
          conv_rhs => rw [← map_id l]
          exact map_congr_left fun d hd => if_neg fun h => hc d hd (h.trans hk.symm)
        rw [if_pos hk, hrest, Option.some.inj ha, ← hb]
      · rw [if_neg hk] at ha ⊢
        rw [if_neg hk]
        exact congrArg _ (ih hl' ha)

/-- To put a new version of a record that the table holds is to change the record in its place. -/
theorem upsert_eq_map {a b : α} (hl : Distinct key l) (hb : b ∈ l) (hk : key a = key b) :
    upsert key a l = l.map fun c => if key c = key b then a else c := by
  induction l with
  | nil => simp at hb
  | cons c l ih =>
    obtain ⟨hc, hl'⟩ := hl.cons
    rw [upsert_cons, map_cons, hk]
    rcases mem_cons.mp hb with rfl | hb'
    · -- The first record is the one; no later record has its key.
      have hrest : (l.map fun d => if key d = key b then a else d) = l.map id :=
        map_congr_left fun d hd => if_neg (hc d hd)
      rw [if_pos rfl, if_pos rfl, hrest, map_id]
    · have hne : key c ≠ key b := fun h => hc b hb' h.symm
      rw [if_neg hne, if_neg hne, ih hl' hb']

/-- Records put one after the other into a table that holds them are changed in their places. -/
theorem foldl_upsert_eq_map (hf : ∀ a, key (f a) = key a) (hl : Distinct key l) (part : List α)
    (hpart : ∀ a ∈ part, a ∈ l) (g : α → α) (hg : ∀ a, key (g a) = key a) :
    part.foldl (fun m a => upsert key (f a) m) (l.map g) =
      l.map fun a => if key a ∈ part.map key then f a else g a := by
  induction part generalizing g with
  | nil => simp
  | cons b rest ih =>
    have hb : b ∈ l := hpart b (.head _)
    have hdistinct : Distinct key (l.map g) := by
      have hkeys : (l.map g).map key = l.map key := by
        rw [List.map_map]
        exact map_congr_left fun a _ => hg a
      rw [Distinct, hkeys]
      exact hl
    -- One write changes the record under the key of `b`, which is `b`.
    have hone : upsert key (f b) (l.map g) = l.map fun a => if key a = key b then f a else g a := by
      rw [upsert_eq_map hdistinct (List.mem_map_of_mem hb) ((hf b).trans (hg b).symm), List.map_map]
      refine map_congr_left fun a ha => ?_
      simp only [Function.comp_apply, hg]
      by_cases hk : key a = key b
      · rw [if_pos hk, if_pos hk, List.inj_on_of_nodup_map hl ha hb hk]
      · rw [if_neg hk, if_neg hk]
    rw [List.foldl_cons, hone, ih (fun a ha => hpart a (.tail b ha))]
    · refine map_congr_left fun a _ => ?_
      by_cases hk : key a = key b <;> simp [hk]
    · intro a
      split
      · exact hf a
      · exact hg a

/-- To put a new version of every record that `p` selects is to change these records in their places. -/
theorem foldl_upsert_filter {p : α → Bool} (hf : ∀ a, key (f a) = key a) (hl : Distinct key l) :
    (l.filter p).foldl (fun m a => upsert key (f a) m) l = l.map fun a => if p a then f a else a := by
  have hfold := foldl_upsert_eq_map hf hl (l.filter p) (fun a ha => List.mem_of_mem_filter ha) id
    fun _ => rfl
  rw [map_id] at hfold
  rw [hfold]
  refine map_congr_left fun a ha => ?_
  have hmem : key a ∈ (l.filter p).map key ↔ p a = true := by
    rw [mem_map]
    constructor
    · rintro ⟨b, hb, hk⟩
      obtain ⟨hbl, hpb⟩ := List.mem_filter.mp hb
      rwa [List.inj_on_of_nodup_map hl hbl ha hk] at hpb
    · exact fun hpa => ⟨a, List.mem_filter.mpr ⟨ha, hpa⟩, rfl⟩
  simp only [hmem, id]

/-! ### Tables seen through a map -/

/-- A map that keeps the keys commutes with the lookup. -/
theorem find_map (hf : ∀ a, key (f a) = key a) (k : κ) (l : List α) :
    find key k (l.map f) = (find key k l).map f := by
  induction l with
  | nil => rfl
  | cons a l ih =>
    rw [map_cons, find_cons, find_cons, hf, ih]
    split <;> rfl

/-- A record put in the place of one that looks the same leaves the table looking the same. -/
theorem map_upsert {β : Type*} {f : α → β} {a b : α} (h : find key (key a) l = some b)
    (hab : f a = f b) : (upsert key a l).map f = l.map f := by
  induction l with
  | nil => cases h
  | cons c l ih =>
    rw [find_cons] at h
    rw [upsert_cons]
    split at h
    · next hkey =>
      obtain ⟨⟩ := h
      rw [if_pos hkey, map_cons, map_cons, hab]
    · next hkey => rw [if_neg hkey, map_cons, map_cons, ih h]

/-! ### Erase -/

theorem find_erase_of_ne {k k' : κ} (h : k' ≠ k) (l : List α) :
    find key k' (erase key k l) = find key k' l := by
  induction l with
  | nil => rfl
  | cons b l ih =>
    rw [erase, List.eraseP_cons]
    by_cases hb : key b = k
    · have hne : key b ≠ k' := fun hk => h (hk.symm.trans hb)
      simp [hb, find_cons, hb ▸ hne]
    · simp only [hb, decide_false, cond_false]
      rw [find_cons, find_cons]
      exact congrArg _ ih

theorem find_erase_self (hl : Distinct key l) : find key k (erase key k l) = none := by
  induction l with
  | nil => rfl
  | cons b l ih =>
    obtain ⟨hb, hl'⟩ := hl.cons
    rw [erase, List.eraseP_cons]
    by_cases hk : key b = k
    · simp only [hk, decide_true, cond_true]
      exact find_eq_none.mpr fun c hc => hk ▸ hb c hc
    · simp only [hk, decide_false, cond_false]
      rw [find_cons, if_neg hk]
      exact ih hl'

theorem mem_of_mem_erase (h : a ∈ erase key k l) : a ∈ l := List.eraseP_subset h

/-- An erase takes out at most the first record under its key. -/
theorem mem_erase_or_find (h : a ∈ l) : a ∈ erase key k l ∨ find key k l = some a := by
  induction l with
  | nil => cases h
  | cons b l ih =>
    rw [erase, List.eraseP_cons, find_cons]
    by_cases hb : key b = k
    · simp only [hb, decide_true, if_pos]
      rcases mem_cons.mp h with rfl | h
      · exact .inr rfl
      · exact .inl h
    · simp only [hb, decide_false, if_false]
      rcases mem_cons.mp h with rfl | h
      · exact .inl (.head _)
      · exact (ih h).imp_left (.tail _)

theorem Distinct.erase (hl : Distinct key l) : Distinct key (erase key k l) :=
  hl.sublist ((List.eraseP_sublist (p := fun a => decide (key a = k))).map key)

omit [DecidableEq κ] in
/-- A table followed by records under keys it does not hold has distinct keys. -/
theorem Distinct.append {l m : List α} (hl : Distinct key l) (hm : Distinct key m)
    (h : ∀ a ∈ m, ∀ b ∈ l, key b ≠ key a) : Distinct key (l ++ m) := by
  rw [Distinct, List.map_append, List.nodup_append]
  refine ⟨hl, hm, fun k hk k' hk' => ?_⟩
  obtain ⟨b, hb, rfl⟩ := mem_map.mp hk
  obtain ⟨a, ha, rfl⟩ := mem_map.mp hk'
  exact h a ha b hb

omit [DecidableEq κ] in
theorem Distinct.filter (hl : Distinct key l) (p : α → Bool) : Distinct key (l.filter p) :=
  hl.sublist (List.filter_sublist.map key)

/-- A filter that looks at the key only keeps what is found, or drops it. -/
theorem find_filter_key (q : κ → Bool) (k : κ) (l : List α) :
    find key k (l.filter fun a => q (key a)) = if q k then find key k l else none := by
  induction l with
  | nil => simp
  | cons a l ih =>
    rw [List.filter_cons, find_cons]
    by_cases hk : key a = k
    · subst hk
      by_cases hq : q (key a)
      · simp [hq, find_cons]
      · simp [hq, ih]
    · rw [if_neg hk]
      split
      · rw [find_cons, if_neg hk, ih]
      · exact ih

end Keyed
