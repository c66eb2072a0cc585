import Mathlib.Algebra.Order.Floor.Semifield
import Mathlib.Data.Rat.Floor
import XchainWallet.Decimal.Scaled

/-!
# Decimals cut to a width

A fraction with more digits than the width is cut, one with fewer is filled up with zeros. The
integer that results is the value times a power of ten, rounded down (`digitsValue_cut`); nothing is
lost where the fraction fits the width.
-/

namespace Decimal

theorem digitsValue_cons (c : Char) (digits : List Char) :
    digitsValue (c :: digits) = 10 ^ digits.length * digitsValue [c] + digitsValue digits :=
  digitsValue_append [c] digits

theorem digitsValue_lt {digits : List Char} (h : digits.all Char.isDigit) :
    digitsValue digits < 10 ^ digits.length := by
  induction digits with
  | nil => decide
  | cons c digits ih =>
    rw [List.all_cons, Bool.and_eq_true] at h
    have hrest := ih h.2
    have hdigit : digitsValue [c] ≤ 9 := by
      have hc := h.1
      simp only [Char.isDigit, ge_iff_le, Bool.and_eq_true, decide_eq_true_eq] at hc
      have hle : c.toNat ≤ 57 := hc.2
      simp only [digitsValue, Nat.ofDigitChars_cons, Nat.ofDigitChars_nil]
      have hzero : '0'.toNat = 48 := rfl
      omega
    rw [digitsValue_cons, List.length_cons, Nat.pow_succ]
    have hmul := Nat.mul_le_mul_left (10 ^ digits.length) hdigit
    omega

/-- The fraction with exactly `width` digits. -/
def cut (frac : List Char) (width : ℕ) : List Char :=
  frac.take width ++ List.replicate (width - frac.length) '0'

theorem length_cut (frac : List Char) (width : ℕ) : (cut frac width).length = width := by
  rw [cut, List.length_append, List.length_take, List.length_replicate]
  omega

/-- **Cutting rounds down.** -/
theorem digitsValue_cut {frac : List Char} (whole : List Char) (hfrac : frac.all Char.isDigit)
    (width : ℕ) :
    digitsValue (whole ++ cut frac width) =
      digitsValue (whole ++ frac) * 10 ^ width / 10 ^ frac.length := by
  rcases Nat.le_total frac.length width with hle | hle
  · rw [cut, List.take_of_length_le hle, ← List.append_assoc, digitsValue_append,
      digitsValue_replicate_zero, List.length_replicate, Nat.add_zero]
    have hwidth : 10 ^ width = 10 ^ (width - frac.length) * 10 ^ frac.length := by
      rw [← Nat.pow_add, Nat.sub_add_cancel hle]
    rw [hwidth, ← Nat.mul_assoc, Nat.mul_div_cancel _ (by positivity), Nat.mul_comm]
  · have hcut : cut frac width = frac.take width := by
      rw [cut, Nat.sub_eq_zero_of_le hle, List.replicate_zero, List.append_nil]
    have hdrop : (frac.drop width).all Char.isDigit := by
      rw [List.all_eq_true] at hfrac ⊢
      exact fun c hc => hfrac c (List.mem_of_mem_drop hc)
    have hlt := digitsValue_lt hdrop
    have hsplit : digitsValue (whole ++ frac) = 10 ^ (frac.length - width) *
        digitsValue (whole ++ frac.take width) + digitsValue (frac.drop width) := by
      conv_lhs => rw [← List.take_append_drop width frac, ← List.append_assoc, digitsValue_append,
        List.length_drop]
    rw [List.length_drop] at hlt
    have hpow : 10 ^ frac.length = 10 ^ (frac.length - width) * 10 ^ width := by
      rw [← Nat.pow_add, Nat.sub_add_cancel hle]
    rw [hcut, hpow, Nat.mul_div_mul_right _ _ (by positivity), hsplit, Nat.mul_add_div (by positivity),
      Nat.div_eq_of_lt hlt, Nat.add_zero]

end Decimal
