import XchainWallet.Decimal.Truncate

/-!
# Canonical decimals

A canonical decimal has no zero in front of other digits, no zero at the end of a fraction and no
minus before zero. `fromScaled` writes canonical decimals. Digits that are cut at a scale make a
plain decimal of their value (`Plain.value_ofScaled`), and rounding half away from zero is division
of naturals with a carry (`roundHalfAway_div`).
-/

namespace Decimal

/-- The text denotes a number. -/
def Denotes (text : List Char) (v : ℚ) : Prop := ∃ d, toScaled text = some d ∧ d.toRat = v

/-- A minus, or nothing. -/
def signText (negative : Bool) : List Char := if negative then ['-'] else []

namespace Plain

/-- The text of a plain decimal, without a point where it has no fraction. -/
def text (p : Plain) : List Char := p.whole ++ if p.frac = [] then [] else '.' :: p.frac

/-- Digits without a zero in front of others. -/
structure Tidy (p : Plain) : Prop where
  whole : Digits p.whole
  frac : p.frac.all Char.isDigit
  lead : p.whole = ['0'] ∨ p.whole.head? ≠ some '0'

/-- The digits of a number with `scale` of them behind the point. -/
def ofScaled (n scale : ℕ) : Plain :=
  let digits := paddedDigits n scale
  ⟨digits.take (digits.length - scale), digits.drop (digits.length - scale)⟩

/-- The plain decimal without the zeros at the end of its fraction. -/
def trim (p : Plain) : Plain := ⟨p.whole, dropZeros p.frac⟩

end Plain

/-- The one text that denotes its number with the fewest characters. -/
def IsCanonical (text : List Char) : Prop :=
  ∃ negative p, Plain.Tidy p ∧ p.frac.getLast? ≠ some '0' ∧ (negative = true → p.value ≠ 0) ∧
    text = signText negative ++ p.text

/-! ### Digits cut at a scale -/

@[simp]
theorem paddedDigits_zero (n : ℕ) : paddedDigits n 0 = n.repr.toList := by
  have hpos := List.length_pos_iff.mpr (digits_repr n).1
  rw [paddedDigits, if_neg (by omega)]

theorem digitChar_ne_zero {n : ℕ} (hpos : 0 < n) (hlt : n < 10) : Nat.digitChar n ≠ '0' := by
  have hall : ∀ m : Fin 10, 0 < m.val → Nat.digitChar m.val ≠ '0' := by decide
  exact hall ⟨n, hlt⟩ hpos

/-- The text of a positive number does not begin with a zero. -/
theorem head_repr_ne_zero {n : ℕ} (hpos : 0 < n) : n.repr.toList.head? ≠ some '0' := by
  rw [Nat.toList_repr]
  induction n using Nat.strong_induction_on with
  | h n ih =>
    rcases Nat.lt_or_ge n 10 with hlt | hge
    · rw [Nat.toDigits_of_lt_base hlt, List.head?_cons, ne_eq, Option.some.injEq]
      exact digitChar_ne_zero hpos hlt
    · have hfirst := ih (n / 10) (Nat.div_lt_self hpos (by decide)) (by omega)
      rw [Nat.toDigits_of_base_le (by decide) hge,
        List.head?_append_of_ne_nil _ Nat.toDigits_ne_nil]
      exact hfirst

namespace Plain

theorem ofScaled_append (n scale : ℕ) :
    (ofScaled n scale).whole ++ (ofScaled n scale).frac = paddedDigits n scale :=
  List.take_append_drop _ _

@[simp]
theorem length_frac_ofScaled (n scale : ℕ) : (ofScaled n scale).frac.length = scale := by
  have hlength := lt_length_paddedDigits n scale
  rw [ofScaled, List.length_drop]
  omega

/-- **Cutting keeps the value**, up to the power of ten. -/
@[simp]
theorem value_ofScaled (n scale : ℕ) : (ofScaled n scale).value = n / 10 ^ scale := by
  rw [value, ofScaled_append, digitsValue_paddedDigits, length_frac_ofScaled]

theorem tidy_ofScaled (n scale : ℕ) : (ofScaled n scale).Tidy := by
  have hall := paddedDigits_all n scale
  have hlength := lt_length_paddedDigits n scale
  rw [← ofScaled_append, List.all_append, Bool.and_eq_true] at hall
  have hne : (ofScaled n scale).whole ≠ [] := by
    rw [← List.length_pos_iff, ofScaled, List.length_take]
    omega
  refine ⟨⟨hne, hall.1⟩, hall.2, ?_⟩
  rw [ofScaled, paddedDigits]
  split
  · -- one zero before the point, and the others behind it
    next hshort =>
    left
    rw [List.length_append, List.length_replicate, List.replicate_succ, List.cons_append]
    have hone : scale - n.repr.toList.length + 1 + n.repr.toList.length - scale = 1 := by omega
    rw [hone]
    rfl
  · next hlong =>
    rcases Nat.eq_zero_or_pos n with rfl | hpos
    · have hzero : (0 : ℕ).repr.toList = ['0'] := rfl
      rw [hzero] at hlong ⊢
      have hscale : scale = 0 := by
        rw [List.length_singleton] at hlong
        omega
      subst hscale
      exact .inl rfl
    · right
      rw [List.head?_take, if_neg (by omega)]
      exact head_repr_ne_zero hpos

theorem value_trim (p : Plain) : p.trim.value = p.value :=
  fraction_dropZeros p.whole p.frac

theorem Tidy.trim {p : Plain} (h : p.Tidy) : p.trim.Tidy where
  whole := h.whole
  frac := by
    obtain ⟨n, hn⟩ := dropZeros_append p.frac
    have hall := h.frac
    rw [hn, List.all_append, Bool.and_eq_true] at hall
    exact hall.1
  lead := h.lead

theorem getLast?_dropZeros (text : List Char) : (dropZeros text).getLast? ≠ some '0' := by
  rw [dropZeros, List.getLast?_reverse]
  intro hzero
  have hhead := List.head?_dropWhile_not (fun c : Char => decide (c = '0')) text.reverse
  rw [hzero] at hhead
  exact absurd hhead (by decide)

/-- A tidy text is read as it stands. -/
theorem splitDigits_text {p : Plain} (h : p.Tidy) :
    splitDigits p.text = some (p.whole, p.frac) := by
  rw [text]
  split
  · next hnil => rw [List.append_nil, splitDigits_whole h.whole.1 h.whole.2, hnil]
  · exact splitDigits_point h.whole.1 h.whole.2 h.frac

theorem parse_text {p : Plain} (h : p.Tidy) : parse p.text = some p := by
  rw [parse_eq_some, text]
  refine ⟨h.whole, ?_⟩
  by_cases hfrac : p.frac = []
  · rw [if_pos hfrac, List.append_nil]
    exact .inl ⟨hfrac, rfl⟩
  · rw [if_neg hfrac]
    exact .inr ⟨⟨hfrac, h.frac⟩, rfl⟩

theorem head_text {p : Plain} (h : p.Tidy) : ∀ c ∈ p.text.head?, c.isDigit := by
  intro c hc
  rw [text, List.head?_append_of_ne_nil _ h.whole.1] at hc
  exact head_all_digits h.whole.2 c hc

end Plain

/-- A text denotes one number. -/
theorem Denotes.unique {text : List Char} {v w : ℚ} (hv : Denotes text v) (hw : Denotes text w) :
    v = w := by
  obtain ⟨d, hd, rfl⟩ := hv
  obtain ⟨e, he, rfl⟩ := hw
  rw [hd] at he
  rw [Option.some.inj he]

/-- A minus negates. -/
theorem denotes_text {p : Plain} (h : p.Tidy) (negative : Bool) :
    Denotes (signText negative ++ p.text) (if negative then -p.value else p.value) := by
  have hsplit := Plain.splitDigits_text h
  cases negative with
  | false =>
    refine ⟨⟨digitsValue (p.whole ++ p.frac), p.frac.length⟩, ?_, ?_⟩
    · have hsign : splitSign (signText false ++ p.text) = (false, p.text) :=
        splitSign_of_head_digit (Plain.head_text h)
      simp [toScaled, hsign, hsplit]
    · rw [Scaled.toRat, Plain.value, Int.cast_natCast]
      rfl
  | true =>
    refine ⟨⟨-digitsValue (p.whole ++ p.frac), p.frac.length⟩, ?_, ?_⟩
    · have hsign : splitSign (signText true ++ p.text) = (true, p.text) := rfl
      simp [toScaled, hsign, hsplit]
    · rw [Scaled.toRat, Plain.value, Int.cast_neg, Int.cast_natCast, neg_div]
      rfl

/-- A sign and digits denote what they are worth. -/
theorem denotes_signText {value : ℤ} {p : Plain} {scale : ℕ} (h : p.Tidy)
    (hvalue : p.value = value.natAbs / 10 ^ scale) :
    Denotes (signText (value < 0) ++ p.text) (value / 10 ^ scale) := by
  have hsign : signText (value < 0) = if value < 0 then ['-'] else [] := by
    simp [signText]
  rw [hsign]
  refine ⟨_, toScaled_sign value (Plain.head_text h) (Plain.splitDigits_text h), ?_⟩
  have habs := congrArg (Int.cast (R := ℚ)) (sign_mul_natAbs value)
  rw [Plain.value] at hvalue
  rw [Scaled.toRat, Int.cast_mul, Int.cast_natCast] at *
  rw [mul_div_assoc, hvalue, ← mul_div_assoc, habs]

theorem fromScaled_eq (value : ℤ) (scale : ℕ) :
    fromScaled value scale =
      signText (value < 0) ++ (Plain.ofScaled value.natAbs scale).trim.text := by
  have hsign : signText (value < 0) = if value < 0 then ['-'] else [] := by
    simp [signText]
  rw [fromScaled, hsign]
  split
  · next hscale =>
    rw [hscale, Plain.text, Plain.trim, Plain.ofScaled, paddedDigits_zero]
    simp [dropZeros]
  · rw [List.append_assoc]
    rfl

/-- **Writing keeps the value.** -/
theorem denotes_fromScaled (value : ℤ) (scale : ℕ) :
    Denotes (fromScaled value scale) (value / 10 ^ scale) := by
  rw [fromScaled_eq]
  refine denotes_signText (Plain.tidy_ofScaled _ _).trim ?_
  rw [Plain.value_trim, Plain.value_ofScaled]

/-- **What is written is canonical.** -/
theorem isCanonical_fromScaled (value : ℤ) (scale : ℕ) : IsCanonical (fromScaled value scale) := by
  refine ⟨decide (value < 0), (Plain.ofScaled value.natAbs scale).trim,
    (Plain.tidy_ofScaled _ _).trim, Plain.getLast?_dropZeros _, fun hneg => ?_,
    fromScaled_eq value scale⟩
  have hneg : value < 0 := of_decide_eq_true hneg
  rw [Plain.value_trim, Plain.value_ofScaled]
  have habs : (value.natAbs : ℚ) ≠ 0 := by
    rw [Nat.cast_ne_zero]
    omega
  exact div_ne_zero habs (by positivity)

end Decimal
