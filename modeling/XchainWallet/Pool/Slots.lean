import Mathlib.Data.Finset.Card

/-!
# A bounded pool with a queue

A pool hands out at most `cap` slots and queues who comes when they are taken. `Pool.Ok` ties its counter
to the set of holders and keeps the queue apart from them; `Pool.Full` says that nobody queues while a
slot is free. Each move of a pool has one lemma.
-/

/-- The counter of a pool is the number of its holders, within the cap, and who queues does not hold. -/
structure Pool.Ok {ρ : Type*} [DecidableEq ρ] (cap active : ℕ) (holding : Finset ρ) (queue : List ρ) :
    Prop where
  counted : holding.card = active
  within : active ≤ cap
  nodup : queue.Nodup
  apart : ∀ r ∈ queue, r ∉ holding

/-- Nobody queues while a slot is free. -/
def Pool.Full {ρ : Type*} (cap active : ℕ) (queue : List ρ) : Prop := queue ≠ [] → active = cap

namespace Pool

variable {ρ : Type*} [DecidableEq ρ] {cap active : ℕ} {holding : Finset ρ} {queue : List ρ} {r : ρ}

theorem ok_empty : Ok cap 0 (∅ : Finset ρ) [] :=
  ⟨rfl, Nat.zero_le _, .nil, fun _ h => absurd h List.not_mem_nil⟩

omit [DecidableEq ρ] in
theorem full_nil : Full cap active ([] : List ρ) := fun h => absurd rfl h

/-- Who holds nothing and does not queue takes a free slot. -/
theorem Ok.grant (h : Ok cap active holding queue) (hfree : active < cap) (hr : r ∉ holding)
    (hqueue : r ∉ queue) : Ok cap (active + 1) (insert r holding) queue where
  counted := by rw [Finset.card_insert_of_notMem hr, h.counted]
  within := hfree
  nodup := h.nodup
  apart s hs := by
    rw [Finset.mem_insert, not_or]
    exact ⟨fun hsr => hqueue (hsr ▸ hs), h.apart s hs⟩

theorem Ok.pos (h : Ok cap active holding queue) (hr : r ∈ holding) : 0 < active :=
  h.counted ▸ Finset.card_pos.mpr ⟨r, hr⟩

theorem Ok.giveBack (h : Ok cap active holding queue) (hr : r ∈ holding) :
    Ok cap (active - 1) (holding.erase r) queue where
  counted := by rw [Finset.card_erase_of_mem hr, h.counted]
  within := (Nat.sub_le _ _).trans h.within
  nodup := h.nodup
  apart s hs hmem := h.apart s hs (Finset.mem_of_mem_erase hmem)

theorem Ok.enqueue (h : Ok cap active holding queue) (hr : r ∉ holding) (hqueue : r ∉ queue) :
    Ok cap active holding (queue ++ [r]) where
  counted := h.counted
  within := h.within
  nodup := List.nodup_append.mpr ⟨h.nodup, List.pairwise_singleton _ _, by
    rintro s hs t ht rfl
    exact hqueue (List.mem_singleton.mp ht ▸ hs)⟩
  apart s hs := by
    rcases List.mem_append.mp hs with hs | hs
    · exact h.apart s hs
    · exact List.mem_singleton.mp hs ▸ hr

/-- Some leave the queue. -/
theorem Ok.withdraw (h : Ok cap active holding queue) (p : ρ → Bool) :
    Ok cap active holding (queue.filter p) where
  counted := h.counted
  within := h.within
  nodup := h.nodup.filter p
  apart s hs := h.apart s (List.mem_of_mem_filter hs)

/-- The first of the queue leaves it. -/
theorem Ok.next (h : Ok cap active holding (r :: queue)) :
    Ok cap active holding queue ∧ r ∉ holding ∧ r ∉ queue :=
  ⟨⟨h.counted, h.within, (List.nodup_cons.mp h.nodup).2, fun s hs =>
    h.apart s (.tail _ hs)⟩, h.apart r (.head _),
    (List.nodup_cons.mp h.nodup).1⟩

omit [DecidableEq ρ] in
theorem Full.withdraw (h : Full cap active queue) (p : ρ → Bool) :
    Full cap active (queue.filter p) := by
  intro hne
  refine h ?_
  rintro rfl
  exact hne rfl

theorem Ok.full_of_le (h : Ok cap active holding queue) (hle : cap ≤ active) (queue' : List ρ) :
    Full cap active queue' :=
  fun _ => le_antisymm h.within hle

omit [DecidableEq ρ] in
/-- Where a slot is free, nobody queues, whoever takes it. -/
theorem Full.nil_of_lt (h : Full cap active queue) (hfree : active < cap) : queue = [] := by
  by_contra hne
  exact absurd (h hne) hfree.ne

end Pool
