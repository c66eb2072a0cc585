import Mathlib.Algebra.Order.Floor.Div
import Mathlib.Data.List.GetD
import Mathlib.Tactic.Ring

/-!
# Pieces of a list, and slots to collect them in

A list that is too long to send at once is cut in pieces of one size, `piece`, and the receiver
fills slots by their indexes. `Holds n seen slots`: of `n` slots, exactly those are filled that
`seen` has a value for, and with that value. Filling keeps it (`Holds.fill`), in whatever order and
however often values come, and slots that hold a piece for each index give the list back.
-/

namespace Chunks

variable {α : Type}

/-! ### Pieces -/

/-- Piece `i` of a list that is cut in pieces of `size`; the last may be shorter. -/
def piece (size : ℕ) (l : List α) (i : ℕ) : List α := (l.drop (i * size)).take size

/-- The number of pieces of a list of a length. -/
def pieceCount (size length : ℕ) : ℕ := (length + size - 1) / size

/-- All pieces in order. -/
def inPieces (size : ℕ) (l : List α) : List (List α) :=
  (List.range (pieceCount size l.length)).map (piece size l)

theorem flatten_pieces (size n : ℕ) (l : List α) :
    ((List.range n).map (piece size l)).flatten = l.take (n * size) := by
  induction n with
  | zero => simp
  | succ n ih =>
    rw [List.range_succ, List.map_append, List.flatten_append, ih, List.map_singleton,
      List.flatten_singleton, piece, Nat.succ_mul, List.take_add]

theorem length_le_pieceCount_mul {size : ℕ} (hsize : 0 < size) (length : ℕ) :
    length ≤ pieceCount size length * size := by
  have hdiv := Nat.div_add_mod (length + size - 1) size
  have hmod := Nat.mod_lt (length + size - 1) hsize
  rw [pieceCount, Nat.mul_comm]
  omega

/-- The pieces make up the list. -/
theorem flatten_inPieces {size : ℕ} (hsize : 0 < size) (l : List α) :
    (inPieces size l).flatten = l := by
  rw [inPieces, flatten_pieces, List.take_of_length_le (length_le_pieceCount_mul hsize _)]

theorem piece_ne_nil {size i : ℕ} {l : List α} (hi : i < pieceCount size l.length) :
    piece size l i ≠ [] := by
  have hsize : 0 < size := by
    refine Nat.pos_of_ne_zero fun hzero => ?_
    rw [pieceCount, hzero, Nat.div_zero] at hi
    exact absurd hi (Nat.not_lt_zero i)
  have hstart : i * size < l.length := by
    rw [pieceCount, Nat.lt_div_iff_mul_lt hsize] at hi
    omega
  rw [piece, ← List.length_pos_iff, List.length_take, List.length_drop]
  omega

/-! ### Slots -/

/-- The slots that are filled are those that a value was seen for, and they hold it. -/
structure Holds (n : ℕ) (seen : ℕ → α → Prop) (slots : List (Option α)) : Prop where
  length : slots.length = n
  filled : ∀ i a, slots[i]? = some (some a) ↔ seen i a

theorem holds_empty (n : ℕ) : Holds n (fun _ _ => False) (List.replicate n (none : Option α)) where
  length := List.length_replicate
  filled i a := by
    rw [iff_false, List.getElem?_replicate]
    split_ifs <;> simp

section Holds

variable {n i : ℕ} {seen : ℕ → α → Prop} {slots : List (Option α)} {a b : α}

theorem Holds.congr {seen' : ℕ → α → Prop} (h : Holds n seen slots)
    (hseen : ∀ i a, seen i a ↔ seen' i a) : Holds n seen' slots where
  length := h.length
  filled i a := (h.filled i a).trans (hseen i a)

/-- An empty slot is one that no value was seen for. -/
theorem Holds.empty_iff (h : Holds n seen slots) (hi : i < n) :
    slots[i]? = some none ↔ ∀ a, ¬seen i a := by
  have hi' : i < slots.length := by rwa [h.length]
  have hget : slots[i]? = some slots[i] := List.getElem?_eq_getElem hi'
  constructor
  · intro hnone a ha
    rw [(h.filled i a).mpr ha] at hnone
    cases hnone
  · intro hno
    cases hslot : slots[i] with
    | none => rw [hget, hslot]
    | some a =>
      rw [hslot] at hget
      exact absurd ((h.filled i a).mp hget) (hno a)

/-- Filling a slot with a value that does not contradict what was seen. -/
theorem Holds.fill (h : Holds n seen slots) (hi : i < n) (hsame : ∀ b, seen i b → b = a) :
    Holds n (fun j b => seen j b ∨ j = i ∧ b = a) (slots.set i (some a)) where
  length := List.length_set.trans h.length
  filled j b := by
    have hi' : i < slots.length := by rwa [h.length]
    by_cases hj : j = i
    · subst hj
      rw [List.getElem?_set_self hi', Option.some.injEq, Option.some.injEq]
      constructor
      · rintro rfl
        exact .inr ⟨rfl, rfl⟩
      · rintro (hb | ⟨-, rfl⟩)
        · exact (hsame b hb).symm
        · rfl
    · rw [List.getElem?_set_ne (Ne.symm hj), h.filled j b]
      simp [hj]

/-- Slots with a value for each index. -/
theorem Holds.eq_map (h : Holds n seen slots) {f : ℕ → α} (hf : ∀ i, i < n → seen i (f i)) :
    slots = (List.range n).map fun i => some (f i) := by
  refine List.ext_getElem? fun i => ?_
  by_cases hi : i < n
  · rw [(h.filled i (f i)).mpr (hf i hi), List.getElem?_map, List.getElem?_range hi, Option.map_some]
  · have hslots : slots.length ≤ i := by
      rw [h.length]
      omega
    rw [List.getElem?_eq_none hslots, List.getElem?_eq_none (by simpa using Nat.le_of_not_lt hi)]

/-- All slots are filled where each index has a value. -/
theorem Holds.all_filled_iff (h : Holds n seen slots) :
    slots.all Option.isSome ↔ ∀ i, i < n → ∃ a, seen i a := by
  rw [List.all_eq_true]
  constructor
  · intro hall i hi
    by_contra hno
    have hnone := (h.empty_iff hi).mpr (not_exists.mp hno)
    exact absurd (hall none (List.mem_of_getElem? hnone)) (by simp)
  · intro hseen slot hslot
    obtain ⟨i, hi, rfl⟩ := List.getElem_of_mem hslot
    obtain ⟨a, ha⟩ := hseen i (by rwa [← h.length])
    have hfilled := (h.filled i a).mpr ha
    rw [List.getElem?_eq_getElem hi, Option.some.injEq] at hfilled
    rw [hfilled, Option.isSome_some]

end Holds

end Chunks
