import Mathlib.Data.Set.Lattice
import Mathlib.Order.CompletePartialOrder

/-!
# Copies that are written back

Records of rights are stored under keys. Holders read a record, keep a copy, and later write it back, while
an owner takes rights back, gives rights, or deletes a record. `Kept` says that no stored record, and nothing
that a holder may still write, has a right that the owner took back or stands under a deleted key. A holder
whose copy has gone stale may write nothing, so it has no part in `writes`. Each move has one lemma.
-/

namespace Leases

variable {κ γ ρ : Type*} {stored stored' : κ → Set γ → Prop} {writes writes' : ρ → κ → Set γ → Prop}
  {deleted : Set κ} {taken taken' : κ → Set γ}

/-- What is stored, and what may still be written, respects the owner's latest word. -/
structure Kept (stored : κ → Set γ → Prop) (writes : ρ → κ → Set γ → Prop) (deleted : Set κ)
    (taken : κ → Set γ) : Prop where
  stored : ∀ k P, stored k P → k ∉ deleted ∧ Disjoint P (taken k)
  writes : ∀ r k W, writes r k W → k ∉ deleted ∧ Disjoint W (taken k)

/-- Nothing is stored or about to be written that was not within what was stored or about to be written. -/
theorem Kept.mono (h : Kept stored writes deleted taken)
    (hstored : ∀ k P, stored' k P → stored k P ∨ ∃ r W, writes r k W ∧ P ⊆ W)
    (hwrites : ∀ r k W, writes' r k W →
      (∃ P, stored k P ∧ W ⊆ P) ∨ ∃ s W', writes s k W' ∧ W ⊆ W') :
    Kept stored' writes' deleted taken where
  stored k P hP := by
    rcases hstored k P hP with hP | ⟨r, W, hW, hsub⟩
    · exact h.stored k P hP
    · exact (h.writes r k W hW).imp_right fun hdisjoint => hdisjoint.mono_left hsub
  writes r k W hW := by
    rcases hwrites r k W hW with ⟨P, hP, hsub⟩ | ⟨s, W', hW', hsub⟩
    · exact (h.stored k P hP).imp_right fun hdisjoint => hdisjoint.mono_left hsub
    · exact (h.writes s k W' hW').imp_right fun hdisjoint => hdisjoint.mono_left hsub

/-- The owner gives the rights `X` under a key, which a holder then writes with its copy. -/
theorem Kept.give (h : Kept stored writes deleted taken) {k : κ} {X : Set γ}
    (htaken : ∀ j, taken' j ⊆ taken j) (hX : Disjoint X (taken' k))
    (hwrites : ∀ r j W, writes' r j W →
      writes r j W ∨ j = k ∧ ∃ W', writes r k W' ∧ W ⊆ W' ∪ X) :
    Kept stored writes' deleted taken' where
  stored j P hP := ⟨(h.stored j P hP).1, (h.stored j P hP).2.mono_right (htaken j)⟩
  writes r j W hW := by
    rcases hwrites r j W hW with hW | ⟨rfl, W', hW', hsub⟩
    · exact ⟨(h.writes r j W hW).1, (h.writes r j W hW).2.mono_right (htaken j)⟩
    · obtain ⟨hdeleted, hdisjoint⟩ := h.writes r j W' hW'
      exact ⟨hdeleted, ((hdisjoint.mono_right (htaken j)).union_left hX).mono_left hsub⟩

/-- The owner rewrites the record under `k`: what it granted and grants no more is taken back, and a
holder that would write any of that is stale. -/
theorem Kept.rewrite (h : Kept stored writes deleted taken) {k : κ} {P' : Set γ} (old : Set γ)
    (htaken : ∀ j g, g ∈ taken' j → g ∈ taken j ∧ (j = k → g ∉ P') ∨ j = k ∧ g ∈ old ∧ g ∉ P')
    (hdeleted : k ∉ deleted) (hP' : Disjoint P' (taken' k))
    (hstored : ∀ j P, stored' j P → j ≠ k ∧ stored j P ∨ j = k ∧ P = P')
    (hwrites : ∀ r j W, writes' r j W → writes r j W ∧ (j = k → ∀ g ∈ W, g ∈ old → g ∈ P')) :
    Kept stored' writes' deleted taken' where
  stored j P hP := by
    rcases hstored j P hP with ⟨hj, hP⟩ | ⟨rfl, rfl⟩
    · refine ⟨(h.stored j P hP).1, Set.disjoint_left.mpr fun g hg htake => ?_⟩
      rcases htaken j g htake with ⟨htake, -⟩ | ⟨hjk, -⟩
      · exact Set.disjoint_left.mp (h.stored j P hP).2 hg htake
      · exact hj hjk
    · exact ⟨hdeleted, hP'⟩
  writes r j W hW := by
    obtain ⟨hW, hfresh⟩ := hwrites r j W hW
    refine ⟨(h.writes r j W hW).1, Set.disjoint_left.mpr fun g hg htake => ?_⟩
    rcases htaken j g htake with ⟨htake, -⟩ | ⟨hjk, hold, hnew⟩
    · exact Set.disjoint_left.mp (h.writes r j W hW).2 hg htake
    · exact hnew (hfresh hjk g hg hold)

/-- The record under `k` is deleted, and a holder of a copy of it is stale. -/
theorem Kept.delete (h : Kept stored writes deleted taken) {k : κ}
    (hstored : ∀ j P, stored' j P → j ≠ k ∧ stored j P)
    (hwrites : ∀ r j W, writes' r j W → j ≠ k ∧ writes r j W) :
    Kept stored' writes' (insert k deleted) taken where
  stored j P hP := by
    obtain ⟨hj, hP⟩ := hstored j P hP
    exact ⟨fun hmem => (Set.mem_insert_iff.mp hmem).elim hj (h.stored j P hP).1, (h.stored j P hP).2⟩
  writes r j W hW := by
    obtain ⟨hj, hW⟩ := hwrites r j W hW
    exact ⟨fun hmem => (Set.mem_insert_iff.mp hmem).elim hj (h.writes r j W hW).1,
      (h.writes r j W hW).2⟩

/-- A record is created under a key that nothing was taken back under. -/
theorem Kept.create (h : Kept stored writes deleted taken) {k : κ} (hdeleted : k ∉ deleted)
    (htaken : taken k = ∅) (hstored : ∀ j P, stored' j P → stored j P ∨ j = k) :
    Kept stored' writes deleted taken where
  stored j P hP := by
    rcases hstored j P hP with hP | rfl
    · exact h.stored j P hP
    · exact ⟨hdeleted, htaken ▸ Set.disjoint_empty P⟩
  writes := h.writes

end Leases
