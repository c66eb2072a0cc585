import Mathlib.Tactic.FieldSimp
import Mathlib.Tactic.Ring
import Mathlib.Tactic.NormNum

/-!
# Plain decimals

A plain decimal is a nonempty run of digits, with or without a point and a nonempty run of
digits after it: no sign, no exponent, no other base. `parse` reads a whole text as one,
`value` is the rational number that it denotes, and `scaled` the integer that its digits make
once the fraction is padded to a given width. `scaled_eq` says that padding scales the value.
-/

namespace Decimal

/-- The number that a list of digits denotes in base ten. -/
def digitsValue (digits : List Char) : ℕ := Nat.ofDigitChars 10 digits 0

/-- Digits and nothing else, at least one of them. -/
def Digits (text : List Char) : Prop := text ≠ [] ∧ text.all Char.isDigit

instance (text : List Char) : Decidable (Digits text) :=
  inferInstanceAs (Decidable (_ ∧ _))

theorem digitsValue_append (digits more : List Char) :
    digitsValue (digits ++ more) = 10 ^ more.length * digitsValue digits + digitsValue more := by
  rw [digitsValue, Nat.ofDigitChars_append, Nat.ofDigitChars_eq_ofDigitChars_zero]
  rfl

theorem digitsValue_replicate_zero (n : ℕ) : digitsValue (List.replicate n '0') = 0 := by
  rw [digitsValue, Nat.ofDigitChars_replicate_zero, Nat.mul_zero]

/-- The text of a number is made of digits. -/
theorem digits_repr (n : ℕ) : Digits n.repr.toList := by
  rw [Nat.toList_repr]
  refine ⟨Nat.toDigits_ne_nil, List.all_eq_true.mpr fun c hc => ?_⟩
  exact Nat.isDigit_of_mem_toDigits (by decide) (by decide) hc

/-- Reading the text of a number gives the number back. -/
@[simp]
theorem digitsValue_repr (n : ℕ) : digitsValue n.repr.toList = n := by
  rw [Nat.toList_repr, digitsValue, Nat.ofDigitChars_ten_toDigits]

/-- A plain decimal: the digits before the point and the digits after it, none where the text
has no point. -/
structure Plain where
  whole : List Char
  frac : List Char
  deriving DecidableEq

namespace Plain

/-- The text read as a plain decimal, as `^(\d+)(?:\.(\d+))?$` matches it. -/
def parse (text : List Char) : Option Plain :=
  match text.span Char.isDigit with
  | ([], _) => none
  | (whole, []) => some ⟨whole, []⟩
  | (whole, '.' :: frac) => if Digits frac then some ⟨whole, frac⟩ else none
  | (_, _ :: _) => none

/-- The fraction padded with zeros to at least `width` digits. -/
def padFrac (p : Plain) (width : ℕ) : List Char :=
  p.frac ++ List.replicate (width - p.frac.length) '0'

/-- The integer that the digits make with the fraction padded to `width` digits. -/
def scaled (p : Plain) (width : ℕ) : ℕ := digitsValue (p.whole ++ p.padFrac width)

/-- The number that a plain decimal denotes. -/
def value (p : Plain) : ℚ := digitsValue (p.whole ++ p.frac) / 10 ^ p.frac.length

/-- **Padding scales.** With the fraction padded to `width` digits, the integer is the value
times the power of ten. -/
theorem scaled_eq {p : Plain} {width : ℕ} (h : p.frac.length ≤ width) :
    (p.scaled width : ℚ) = p.value * 10 ^ width := by
  have hpad : p.scaled width =
      10 ^ (width - p.frac.length) * digitsValue (p.whole ++ p.frac) := by
    rw [scaled, padFrac, ← List.append_assoc, digitsValue_append, List.length_replicate,
      digitsValue_replicate_zero, Nat.add_zero]
  have hpow : (10 : ℚ) ^ width = 10 ^ (width - p.frac.length) * 10 ^ p.frac.length := by
    rw [← pow_add, Nat.sub_add_cancel h]
  rw [hpad, value, hpow]
  push_cast
  field_simp

theorem value_nonneg (p : Plain) : 0 ≤ p.value := by
  rw [value]
  exact div_nonneg (Nat.cast_nonneg _) (by positivity)

/-- Two decimals scaled to one width keep their ratio. -/
theorem scaled_div_scaled {p q : Plain} {width : ℕ} (hp : p.frac.length ≤ width)
    (hq : q.frac.length ≤ width) : (p.scaled width : ℚ) / q.scaled width = p.value / q.value := by
  rw [scaled_eq hp, scaled_eq hq, mul_div_mul_right _ _ (by positivity)]

end Plain

end Decimal
