import XchainWallet.Keyed.List

/-!
# Tables

A list of records with distinct keys, as a type: a record is put in the place of the one under its key
or added, and deleted by its key. What a table holds after a write is said by membership.
-/

namespace Keyed

/-- Records with distinct keys. -/
@[ext]
structure Table {α κ : Type*} (key : α → κ) where
  records : List α
  distinct : Distinct key records

namespace Table

variable {α κ : Type*} {key : α → κ}

variable (t : Table key)

theorem eq_of_key_eq {a b : α} (ha : a ∈ t.records) (hb : b ∈ t.records) (h : key a = key b) :
    a = b :=
  List.inj_on_of_nodup_map t.distinct ha hb h

/-- The table of no records. -/
def empty : Table key := ⟨[], List.nodup_nil⟩

/-- The table of one record. -/
def singleton (a : α) : Table key := ⟨[a], List.nodup_singleton (key a)⟩

variable [DecidableEq κ]

/-- The record under a key. -/
def get (k : κ) (t : Table key) : Option α := find key k t.records

/-- Replace the record under the key of `a`, or add `a`. -/
def put (t : Table key) (a : α) : Table key := ⟨upsert key a t.records, t.distinct.upsert⟩

/-- Drop the record under a key. -/
def delete (t : Table key) (k : κ) : Table key := ⟨erase key k t.records, t.distinct.erase⟩

theorem get_eq_some {k : κ} {a : α} : t.get k = some a ↔ a ∈ t.records ∧ key a = k :=
  find_eq_some t.distinct

theorem get_eq_none {k : κ} : t.get k = none ↔ ∀ a ∈ t.records, key a ≠ k :=
  find_eq_none

theorem get_put (k : κ) (a : α) :
    (t.put a).get k = if k = key a then some a else t.get k := find_upsert k a t.records

/-- The records under a key are the one that is found there. -/
theorem filter_key (k : κ) : t.records.filter (key · = k) = (t.get k).toList := by
  rcases hget : t.get k with _ | a
  · refine List.filter_eq_nil_iff.mpr fun b hb => ?_
    simpa using t.get_eq_none.mp hget b hb
  · obtain ⟨ha, rfl⟩ := t.get_eq_some.mp hget
    refine List.perm_singleton.mp ((List.perm_ext_iff_of_nodup ?_ (List.nodup_singleton a)).mpr fun b => ?_)
    · exact (List.Nodup.of_map key t.distinct).filter _
    · rw [List.mem_filter, List.mem_singleton, decide_eq_true_iff]
      constructor
      · exact fun h => t.eq_of_key_eq h.1 ha h.2
      · rintro rfl
        exact ⟨ha, rfl⟩

/-- Putting a new version of a record that is held replaces it. -/
theorem records_put_of_mem {a b : α} (hb : b ∈ t.records) (hk : key a = key b) :
    (t.put a).records = t.records.map fun c => if key c = key b then a else c :=
  upsert_eq_map t.distinct hb hk

/-- Putting a new version of every record that `p` selects replaces these. -/
theorem records_foldl_put {p : α → Bool} {f : α → α} (hf : ∀ a, key (f a) = key a) :
    ((t.records.filter p).foldl (fun t a => t.put (f a)) t).records =
      t.records.map fun a => if p a then f a else a := by
  have hrecords : ∀ (part : List α) (t : Table key), (part.foldl (fun t a => t.put (f a)) t).records =
      part.foldl (fun m a => upsert key (f a) m) t.records := by
    intro part
    induction part with
    | nil => exact fun t => rfl
    | cons a rest ih => exact fun t => ih (t.put (f a))
  rw [hrecords, foldl_upsert_filter hf t.distinct]

theorem mem_put {t : Table key} {a b : α} :
    b ∈ (t.put a).records ↔ b = a ∨ b ∈ t.records ∧ key b ≠ key a := by
  constructor
  · intro h
    by_cases hk : key b = key a
    · exact .inl ((t.put a).eq_of_key_eq h (self_mem_upsert a t.records) hk)
    · exact (mem_upsert h).imp_right fun hb => ⟨hb, hk⟩
  · rintro (rfl | ⟨hb, hk⟩)
    · exact self_mem_upsert b t.records
    · have hcase : b ∈ upsert key a t.records ∨ find key (key a) t.records = some b := mem_upsert_or_find hb
      rcases hcase with hmem | hfind
      · exact hmem
      · exact absurd (key_of_find hfind) hk

theorem mem_delete {t : Table key} {k : κ} {a : α} :
    a ∈ (t.delete k).records ↔ a ∈ t.records ∧ key a ≠ k := by
  constructor
  · intro h
    refine ⟨mem_of_mem_erase h, fun hk => ?_⟩
    exact find_eq_none.mp (find_erase_self (k := k) t.distinct) a h hk
  · rintro ⟨ha, hk⟩
    have hcase : a ∈ erase key k t.records ∨ find key k t.records = some a := mem_erase_or_find ha
    rcases hcase with hmem | hfind
    · exact hmem
    · exact absurd (key_of_find hfind) hk

/-! ### Putting several records -/

/-- Putting the records of a table one after another builds it. -/
theorem foldl_put_records : t.records.foldl put empty = t := by
  suffices h : ∀ (rest before : List α) (held : Table key), held.records = before →
      Distinct key (before ++ rest) → (rest.foldl put held).records = before ++ rest by
    exact Table.ext (h t.records [] empty rfl t.distinct)
  intro rest
  induction rest with
  | nil => exact fun before held h _ => by rw [List.append_nil]; exact h
  | cons a rest ih =>
    intro before held hheld hdistinct
    have hfresh : ∀ b ∈ before, key b ≠ key a := by
      intro b hb heq
      rw [Distinct, List.map_append, List.nodup_append] at hdistinct
      exact hdistinct.2.2 _ (List.mem_map_of_mem hb) _ (List.mem_map_of_mem (.head _)) heq
    have hput : (held.put a).records = before ++ [a] := by
      rw [← hheld] at hfresh ⊢
      exact upsert_eq_append hfresh
    have hrest := ih (before ++ [a]) (held.put a) hput (by simpa using hdistinct)
    rw [List.foldl_cons, hrest, List.append_assoc, List.singleton_append]

theorem mem_foldl_put_of_mem {rs : List α} {t : Table key} {a : α} (ha : a ∈ t.records)
    (hne : ∀ r ∈ rs, key r ≠ key a) : a ∈ (rs.foldl put t).records := by
  induction rs generalizing t with
  | nil => exact ha
  | cons r rest ih =>
    have hput : a ∈ (t.put r).records :=
      mem_put.mpr (.inr ⟨ha, (hne r (.head _)).symm⟩)
    exact ih hput fun r' hr' => hne r' (.tail _ hr')

/-- A record is held after it was put, unless another one was put under its key. -/
theorem mem_foldl_put_self {rs : List α} {t : Table key} {a : α} (ha : a ∈ rs)
    (hunique : ∀ r ∈ rs, key r = key a → r = a) : a ∈ (rs.foldl put t).records := by
  induction rs generalizing t with
  | nil => exact absurd ha List.not_mem_nil
  | cons r rest ih =>
    by_cases hrest : a ∈ rest
    · exact ih hrest fun r' hr' => hunique r' (.tail _ hr')
    · obtain rfl := (List.mem_cons.mp ha).resolve_right hrest
      have hput : a ∈ (t.put a).records := mem_put.mpr (.inl rfl)
      rw [List.foldl_cons]
      refine mem_foldl_put_of_mem hput fun r' hr' hkey => hrest ?_
      rwa [← hunique r' (.tail _ hr') hkey]

end Table

end Keyed
