import Mathlib.Algebra.BigOperators.Group.List.Basic
import Mathlib.Tactic.Abel

/-!
# Changes and resets of a quantity

A quantity goes through effects one after another: a change adds to it and a reset makes it zero. An
account of the same effects that takes each of them from the starting value, and adds up what it finds,
does not always end where the quantity does. `sum_fromStart` says by how much it is off: by the changes
that a reset wiped out, and by the starting value for every reset but one.
-/

namespace Transition

/-- What happens to a quantity. -/
inductive Effect (α : Type*)
  | change (amount : α)
  | reset
deriving DecidableEq

namespace Effect

variable {α : Type*} [AddCommGroup α]

def apply (value : α) : Effect α → α
  | change c => value + c
  | reset => 0

/-- How far an effect moves the starting value. -/
def fromStart (start : α) (e : Effect α) : α := e.apply start - start

/-- The quantity after some effects. -/
def run (value : α) (es : List (Effect α)) : α := es.foldl apply value

/-- How many of the effects are resets. -/
def resets : List (Effect α) → ℕ
  | [] => 0
  | change _ :: es => resets es
  | reset :: es => resets es + 1

/-- The changes before the last reset. -/
def wiped : List (Effect α) → α
  | [] => 0
  | change c :: es => (if resets es = 0 then 0 else c) + wiped es
  | reset :: es => wiped es

@[simp]
theorem fromStart_change (start c : α) : fromStart start (change c) = c := add_sub_cancel_left start c

@[simp]
theorem fromStart_reset (start : α) : fromStart start reset = -start := zero_sub start

/-- The run may be anywhere when the rest of the effects begins. -/
private theorem sum_fromStart_of (start : α) (es : List (Effect α)) (value : α) :
    (es.map (fromStart start)).sum =
      run value es - value + wiped es - resets es • start + if resets es = 0 then 0 else value := by
  induction es generalizing value with
  | nil => simp [run, wiped, resets]
  | cons e es ih =>
    rcases e with c | _
    · -- the change is in the run, unless a reset follows
      rw [List.map_cons, List.sum_cons, fromStart_change, ih (value + c)]
      simp only [run, List.foldl_cons, apply, wiped, resets]
      by_cases hnone : resets es = 0
      · simp only [hnone, if_true]
        abel
      · simp only [hnone, if_false]
        abel
    · -- the run goes on from zero
      rw [List.map_cons, List.sum_cons, fromStart_reset, ih 0]
      simp only [run, List.foldl_cons, apply, wiped, resets, ite_self, Nat.succ_ne_zero, if_false,
        succ_nsmul]
      abel

/-- **What the account from the start is off by.** -/
theorem sum_fromStart (start : α) (es : List (Effect α)) :
    (es.map (fromStart start)).sum = run start es - start + (wiped es - (resets es - 1) • start) := by
  rw [sum_fromStart_of start es start]
  by_cases hnone : resets es = 0
  · rw [if_pos hnone, hnone]
    simp
  · obtain ⟨n, hn⟩ := Nat.exists_eq_succ_of_ne_zero hnone
    rw [if_neg hnone, hn, Nat.succ_sub_one, succ_nsmul]
    abel

end Effect

end Transition
