import Mathlib.Algebra.CharP.Pi
import Mathlib.Algebra.Field.ZMod
import Mathlib.Data.Nat.Bitwise

/-!
# Exclusive or of byte strings

`xorBytes` of two strings has the length of the longer. A string is the function of its bits, over
the field of two elements, and there the exclusive or is the sum (`bits_xorBytes`). So the exclusive
or of the strings at some indexes is a sum over these, and taking the strings at some of the indexes
away again leaves those at the others (`xorAt_diff`).
-/

namespace Wire

/-- The exclusive or of two byte strings, byte by byte. -/
def xorBytes (a b : List UInt8) : List UInt8 :=
  (List.range (max a.length b.length)).map fun k => a.getD k 0 ^^^ b.getD k 0

@[simp]
theorem length_xorBytes (a b : List UInt8) : (xorBytes a b).length = max a.length b.length := by
  rw [xorBytes, List.length_map, List.length_range]

/-- The bits of a byte string, and zeros behind it. -/
def bits (a : List UInt8) (k : ℕ) (j : Fin 8) : ZMod 2 :=
  if (a.getD k 0).toNat.testBit j then 1 else 0

theorem getD_xorBytes (a b : List UInt8) (k : ℕ) :
    (xorBytes a b).getD k 0 = a.getD k 0 ^^^ b.getD k 0 := by
  by_cases hk : k < max a.length b.length
  · simp [xorBytes, List.getD_eq_getElem?_getD, hk]
  · have ha : a.length ≤ k := by omega
    have hb : b.length ≤ k := by omega
    have hlength : (xorBytes a b).length ≤ k := by
      rw [length_xorBytes]
      omega
    rw [List.getD_eq_default _ _ hlength, List.getD_eq_default _ _ ha, List.getD_eq_default _ _ hb]
    rfl

theorem bits_xorBytes (a b : List UInt8) : bits (xorBytes a b) = bits a + bits b := by
  have hbit : ∀ p q : Bool, (if (p ^^ q) then 1 else 0 : ZMod 2) =
      (if p then 1 else 0) + if q then 1 else 0 := by decide
  funext k j
  rw [Pi.add_apply, Pi.add_apply, bits, getD_xorBytes, UInt8.toNat_xor, Nat.testBit_xor]
  exact hbit _ _

theorem bits_replicate_zero (n : ℕ) : bits (List.replicate n 0) = 0 := by
  funext k j
  have hzero : (List.replicate n (0 : UInt8)).getD k 0 = 0 := by
    rw [List.getD_eq_getElem?_getD, List.getElem?_replicate]
    split_ifs <;> rfl
  rw [bits, hzero]
  simp

/-- Strings of one length are the same where their bits are. -/
theorem eq_of_bits {a b : List UInt8} (hlength : a.length = b.length) (h : bits a = bits b) :
    a = b := by
  refine List.ext_getElem hlength fun k ha hb => ?_
  have hbyte : ∀ j : Fin 8, a[k].toNat.testBit j = b[k].toNat.testBit j := by
    intro j
    have hkj := congrFun (congrFun h k) j
    rw [bits, bits, List.getD_eq_getElem _ _ ha, List.getD_eq_getElem _ _ hb] at hkj
    have hcases : ∀ p q : Bool, (if p then 1 else 0 : ZMod 2) = (if q then 1 else 0) → p = q := by
      decide
    exact hcases _ _ hkj
  rw [← UInt8.toNat_inj]
  refine Nat.eq_of_testBit_eq fun j => ?_
  by_cases hj : j < 8
  · exact hbyte ⟨j, hj⟩
  · have hlow : ∀ c : UInt8, c.toNat < 2 ^ j := fun c =>
      c.toNat_lt.trans_le (Nat.pow_le_pow_right (by omega) (by omega : 8 ≤ j))
    rw [Nat.testBit_lt_two_pow (hlow _), Nat.testBit_lt_two_pow (hlow _)]

/-! ### The strings at some indexes -/

variable {ι : Type}

/-- The exclusive or of the strings at some indexes, all of a length. -/
def xorAt (length : ℕ) (f : ι → List UInt8) (indexes : List ι) : List UInt8 :=
  indexes.foldr (fun i acc => xorBytes (f i) acc) (List.replicate length 0)

variable {length : ℕ} {f : ι → List UInt8}

theorem length_xorAt (hf : ∀ i, (f i).length = length) (indexes : List ι) :
    (xorAt length f indexes).length = length := by
  induction indexes with
  | nil => exact List.length_replicate
  | cons i indexes ih =>
    rw [xorAt, List.foldr_cons, length_xorBytes, hf]
    exact max_eq_left ih.le

theorem bits_xorAt (indexes : List ι) :
    bits (xorAt length f indexes) = (indexes.map fun i => bits (f i)).sum := by
  induction indexes with
  | nil => exact bits_replicate_zero length
  | cons i indexes ih =>
    rw [xorAt, List.foldr_cons, bits_xorBytes, List.map_cons, List.sum_cons, ← ih]
    rfl

theorem xorAt_singleton (hf : ∀ i, (f i).length = length) (i : ι) : xorAt length f [i] = f i := by
  refine eq_of_bits ?_ ?_
  · rw [length_xorAt hf, hf]
  · rw [bits_xorAt]
    simp

variable [DecidableEq ι]

/-- Indexes without some of them, and these, are all of them. -/
theorem perm_append_diff {a b : List ι} (ha : a.Nodup) (hb : b.Nodup) (hsub : ∀ i ∈ b, i ∈ a) :
    (b ++ a.filter (· ∉ b)).Perm a := by
  rw [List.perm_ext_iff_of_nodup _ ha]
  · intro i
    simp only [List.mem_append, List.mem_filter, decide_eq_true_eq]
    by_cases hi : i ∈ b
    · simp [hi, hsub i hi]
    · simp [hi]
  · rw [List.nodup_append]
    refine ⟨hb, ha.filter _, fun i hi j hj => ?_⟩
    rintro rfl
    exact of_decide_eq_true (List.mem_filter.mp hj).2 hi

/-- **Taking strings away.** The strings at some of the indexes, taken from those at all of them,
leave those at the others. -/
theorem xorAt_diff (hf : ∀ i, (f i).length = length) {a b : List ι} (ha : a.Nodup) (hb : b.Nodup)
    (hsub : ∀ i ∈ b, i ∈ a) :
    xorBytes (xorAt length f a) (xorAt length f b) = xorAt length f (a.filter (· ∉ b)) := by
  have hlength := length_xorAt hf
  refine eq_of_bits ?_ ?_
  · rw [length_xorBytes, hlength, hlength, hlength, max_self]
  · have hperm := (perm_append_diff ha hb hsub).map fun i => bits (f i)
    have hsum := hperm.sum_eq
    rw [List.map_append, List.sum_append] at hsum
    have hself : ∀ x : ℕ → Fin 8 → ZMod 2, x + x = 0 := fun x => by
      funext k j
      exact CharTwo.add_self_eq_zero (x k j)
    rw [bits_xorBytes, bits_xorAt, bits_xorAt, bits_xorAt, ← hsum, add_right_comm, hself, zero_add]

end Wire
