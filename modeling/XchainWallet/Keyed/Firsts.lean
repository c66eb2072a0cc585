import Mathlib.Algebra.BigOperators.Group.Finset.Basic

/-!
# The first record of each key

`firsts` keeps the records that have no key and, of those under one key, the first. A sum over what
is kept does not depend on the order of the records exactly where the records under one key agree
(`sum_firsts_perm_iff`); it is then a sum over the keys (`sum_firsts`).
-/

namespace Keyed

variable {α κ M : Type*} [DecidableEq κ] {key : α → Option κ} {f : α → M}

/-- The records without a key, and the first of each key that has not been seen. -/
def firsts (key : α → Option κ) : Finset κ → List α → List α
  | _, [] => []
  | seen, a :: l =>
    match key a with
    | none => a :: firsts key seen l
    | some k => if k ∈ seen then firsts key seen l else a :: firsts key (insert k seen) l

theorem firsts_cons (seen : Finset κ) (a : α) (l : List α) :
    firsts key seen (a :: l) = (key a).elim (a :: firsts key seen l) fun k =>
      if k ∈ seen then firsts key seen l else a :: firsts key (insert k seen) l := by
  rw [firsts]
  cases key a <;> rfl

theorem firsts_cons_none {a : α} (h : key a = none) (seen : Finset κ) (l : List α) :
    firsts key seen (a :: l) = a :: firsts key seen l := by
  rw [firsts_cons, h, Option.elim_none]

theorem firsts_cons_seen {a : α} {k : κ} (h : key a = some k) {seen : Finset κ} (hk : k ∈ seen)
    (l : List α) : firsts key seen (a :: l) = firsts key seen l := by
  rw [firsts_cons, h, Option.elim_some, if_pos hk]

theorem firsts_cons_new {a : α} {k : κ} (h : key a = some k) {seen : Finset κ} (hk : k ∉ seen)
    (l : List α) : firsts key seen (a :: l) = a :: firsts key (insert k seen) l := by
  rw [firsts_cons, h, Option.elim_some, if_neg hk]

section Sums

variable [AddCommMonoid M]

/-- **The sum over the keys.** Where the records under a key agree, each key counts once. -/
theorem sum_firsts {g : κ → M} {l : List α} (seen : Finset κ)
    (hagree : ∀ a ∈ l, ∀ k, key a = some k → f a = g k) :
    ((firsts key seen l).map f).sum = ((l.filter fun a => (key a).isNone).map f).sum +
        ∑ k ∈ (l.filterMap key).toFinset \ seen, g k := by
  induction l generalizing seen with
  | nil => simp [firsts]
  | cons a l ih =>
    have hrest : ∀ b ∈ l, ∀ k, key b = some k → f b = g k := fun b hb =>
      hagree b (.tail a hb)
    cases hkey : key a with
    | none =>
      rw [firsts_cons_none hkey, List.map_cons, List.sum_cons, ih seen hrest,
        List.filter_cons_of_pos (by simp [hkey]), List.filterMap_cons_none hkey, List.map_cons,
        List.sum_cons, add_assoc]
    | some k =>
      rw [List.filter_cons_of_neg (by simp [hkey]), List.filterMap_cons_some hkey,
        List.toFinset_cons]
      by_cases hk : k ∈ seen
      · rw [firsts_cons_seen hkey hk, ih seen hrest, Finset.insert_sdiff_of_mem _ hk]
      · have hkeys : insert k (l.filterMap key).toFinset \ seen =
            insert k ((l.filterMap key).toFinset \ insert k seen) := by
          ext k'
          simp only [Finset.mem_insert, Finset.mem_sdiff]
          by_cases hsame : k' = k
          · simp [hsame, hk]
          · simp [hsame]
        have hnew : k ∉ (l.filterMap key).toFinset \ insert k seen := by
          simp
        rw [firsts_cons_new hkey hk, List.map_cons, List.sum_cons, ih (insert k seen) hrest, hkeys,
          Finset.sum_insert hnew, hagree a (.head _) k hkey, add_left_comm]

/-- Records that agree under each key sum up to the same in every order. -/
theorem sum_firsts_perm {l l' : List α} (hperm : l'.Perm l)
    (hagree : ∀ a ∈ l, ∀ b ∈ l, ∀ k, key a = some k → key b = some k → f a = f b) :
    ((firsts key ∅ l').map f).sum = ((firsts key ∅ l).map f).sum := by
  classical
  let g : κ → M := fun k => (l.find? fun a => key a = some k).elim 0 f
  have hg : ∀ a ∈ l, ∀ k, key a = some k → f a = g k := by
    intro a ha k hkey
    cases hfind : l.find? fun a => key a = some k with
    | none =>
      have hnone := List.find?_eq_none.mp hfind a ha
      exact absurd (decide_eq_true hkey) hnone
    | some b =>
      have hb : key b = some k := by simpa using List.find?_some hfind
      have hsame := hagree a ha b (List.mem_of_find?_eq_some hfind) k hkey hb
      simp only [g, hfind, Option.elim_some, hsame]
  rw [sum_firsts ∅ hg, sum_firsts ∅ fun a ha => hg a (hperm.mem_iff.mp ha),
    ((hperm.filter _).map f).sum_eq, List.toFinset_eq_of_perm _ _ (hperm.filterMap key)]

/-- **Order independence.** The sum is the same in every order exactly where the records under one
key agree. -/
theorem sum_firsts_perm_iff [IsRightCancelAdd M] {l : List α} :
    (∀ l', l'.Perm l → ((firsts key ∅ l').map f).sum = ((firsts key ∅ l).map f).sum) ↔
      ∀ a ∈ l, ∀ b ∈ l, ∀ k, key a = some k → key b = some k → f a = f b := by
  classical
  refine ⟨fun hsame a ha b hb k hka hkb => ?_, fun hagree l' hperm => sum_firsts_perm hperm hagree⟩
  by_cases hab : a = b
  · rw [hab]
  -- the two records at the front, in either order
  have hb' : b ∈ l.erase a := (List.mem_erase_of_ne (Ne.symm hab)).mpr hb
  have hperm : (a :: b :: (l.erase a).erase b).Perm l :=
    ((List.perm_cons_erase hb').symm.cons a).trans (List.perm_cons_erase ha).symm
  have hswap : (b :: a :: (l.erase a).erase b).Perm l := (List.Perm.swap a b _).trans hperm
  have hfront : ∀ c d, key c = some k → key d = some k →
      firsts key ∅ (c :: d :: (l.erase a).erase b) = c :: firsts key {k} ((l.erase a).erase b) := by
    intro c d hc hd
    rw [firsts_cons_new hc (Finset.notMem_empty k),
      firsts_cons_seen hd (Finset.mem_insert_self k ∅)]
    rfl
  have hsum := (hsame _ hperm).trans (hsame _ hswap).symm
  rw [hfront a b hka hkb, hfront b a hkb hka, List.map_cons, List.map_cons, List.sum_cons,
    List.sum_cons] at hsum
  exact add_right_cancel hsum

end Sums

end Keyed
