import Mathlib.Data.List.TakeWhile
import XchainWallet.Decimal.Plain

/-!
# Signed decimals as scaled integers

A decimal text with a sign or none, digits, and a point with or without digits on either side of it
is an integer over a power of ten. `toScaled` reads it and `fromScaled` writes the shortest text of a
scaled integer; the value goes through unchanged, so the sum of two texts that are scaled to one
width is exact.
-/

namespace Decimal

/-- The integer and the number of fraction digits. -/
structure Scaled where
  value : ℤ
  scale : ℕ
  deriving DecidableEq

/-- The number that it stands for. -/
def Scaled.toRat (d : Scaled) : ℚ := d.value / 10 ^ d.scale

/-- The sign of a text, and the rest of it. -/
def splitSign : List Char → Bool × List Char
  | '-' :: rest => (true, rest)
  | '+' :: rest => (false, rest)
  | text => (false, text)

/-- The digits before the point and behind it, at least one of them. -/
def splitDigits (text : List Char) : Option (List Char × List Char) :=
  match text.span Char.isDigit with
  | (whole, []) => if whole = [] then none else some (whole, [])
  | (whole, '.' :: frac) =>
    if frac.all Char.isDigit ∧ ¬(whole = [] ∧ frac = []) then some (whole, frac) else none
  | (_, _ :: _) => none

/-- The text as a scaled integer. -/
def toScaled (text : List Char) : Option Scaled :=
  let (negative, digits) := splitSign text
  (splitDigits digits).map fun (whole, frac) =>
    ⟨(if negative then -1 else 1) * digitsValue (whole ++ frac), frac.length⟩

/-- The text without the zeros at its end. -/
def dropZeros (text : List Char) : List Char := (text.reverse.dropWhile (· = '0')).reverse

/-- The digits of a number, with zeros before them up to `width + 1` digits. -/
def paddedDigits (n width : ℕ) : List Char :=
  let digits := n.repr.toList
  if digits.length ≤ width then List.replicate (width - digits.length + 1) '0' ++ digits
  else digits

/-- The shortest text of a scaled integer. -/
def fromScaled (value : ℤ) (scale : ℕ) : List Char :=
  let sign := if value < 0 then ['-'] else []
  if scale = 0 then sign ++ value.natAbs.repr.toList
  else
    let digits := paddedDigits value.natAbs scale
    let whole := digits.take (digits.length - scale)
    let frac := dropZeros (digits.drop (digits.length - scale))
    sign ++ whole ++ if frac = [] then [] else '.' :: frac

/-- The sum over the wider of the two scales. -/
def Scaled.add (a b : Scaled) : Scaled :=
  let scale := max a.scale b.scale
  ⟨a.value * 10 ^ (scale - a.scale) + b.value * 10 ^ (scale - b.scale), scale⟩

/-! ### Reading -/

theorem span_digits {whole rest : List Char} (hwhole : whole.all Char.isDigit)
    (hrest : ∀ c ∈ rest.head?, c.isDigit = false) :
    (whole ++ rest).span Char.isDigit = (whole, rest) := by
  rw [List.span_eq_takeWhile_dropWhile, List.takeWhile_append, List.dropWhile_append]
  have htake : whole.takeWhile Char.isDigit = whole :=
    List.takeWhile_eq_self_iff.mpr fun c hc => List.all_eq_true.mp hwhole c hc
  have hdrop : whole.dropWhile Char.isDigit = [] :=
    List.dropWhile_eq_nil_iff.mpr fun c hc => List.all_eq_true.mp hwhole c hc
  have hnone : rest.takeWhile Char.isDigit = [] ∧ rest.dropWhile Char.isDigit = rest := by
    cases rest with
    | nil => exact ⟨rfl, rfl⟩
    | cons c rest =>
      have hc := hrest c (by simp)
      simp [hc]
  simp [htake, hdrop, hnone.1, hnone.2]

/-- The digits of a text without a point. -/
theorem splitDigits_whole {whole : List Char} (hne : whole ≠ [])
    (hwhole : whole.all Char.isDigit) : splitDigits whole = some (whole, []) := by
  have hspan : (whole ++ []).span Char.isDigit = (whole, []) := span_digits hwhole (by simp)
  rw [List.append_nil] at hspan
  simp only [splitDigits, hspan, if_neg hne]

/-- The digits of a text with a point. -/
theorem splitDigits_point {whole frac : List Char} (hne : whole ≠ [])
    (hwhole : whole.all Char.isDigit) (hfrac : frac.all Char.isDigit) :
    splitDigits (whole ++ '.' :: frac) = some (whole, frac) := by
  have hspan : (whole ++ '.' :: frac).span Char.isDigit = (whole, '.' :: frac) :=
    span_digits hwhole (by simp [Char.isDigit])
  simp only [splitDigits, hspan]
  rw [if_pos ⟨hfrac, fun hnil => hne hnil.1⟩]

/-- What has a whole part and a fraction. -/
theorem of_splitDigits {text whole frac : List Char}
    (h : splitDigits text = some (whole, frac)) :
    whole.all Char.isDigit ∧ frac.all Char.isDigit ∧ whole ++ frac ≠ [] ∧
      (frac = [] ∧ text = whole ∨ text = whole ++ '.' :: frac) := by
  obtain ⟨digits, hdigits⟩ : ∃ digits, text.takeWhile Char.isDigit = digits := ⟨_, rfl⟩
  obtain ⟨rest, hrest⟩ : ∃ rest, text.dropWhile Char.isDigit = rest := ⟨_, rfl⟩
  have htext : text = digits ++ rest := by
    rw [← hdigits, ← hrest, List.takeWhile_append_dropWhile]
  have hall : digits.all Char.isDigit := by
    rw [← hdigits, List.all_takeWhile]
  rw [splitDigits, List.span_eq_takeWhile_dropWhile, hdigits, hrest] at h
  cases rest with
  | nil =>
    by_cases hnil : digits = []
    · simp [hnil] at h
    · simp only [if_neg hnil, Option.some.injEq, Prod.mk.injEq] at h
      obtain ⟨rfl, rfl⟩ := h
      rw [List.append_nil] at htext ⊢
      exact ⟨hall, rfl, hnil, .inl ⟨rfl, htext⟩⟩
  | cons c rest =>
    by_cases hpoint : c = '.'
    · subst hpoint
      by_cases hfrac : rest.all Char.isDigit ∧ ¬(digits = [] ∧ rest = [])
      · simp only [if_pos hfrac, Option.some.injEq, Prod.mk.injEq] at h
        obtain ⟨rfl, rfl⟩ := h
        refine ⟨hall, hfrac.1, fun hnil => hfrac.2 (List.append_eq_nil_iff.mp hnil), .inr htext⟩
      · simp only [if_neg hfrac] at h
        cases h
    · simp at h

variable {text : List Char}

/-- **What is a plain decimal.** Digits, or digits with a point and digits. -/
theorem Plain.parse_eq_some {p : Plain} :
    Plain.parse text = some p ↔ Digits p.whole ∧
      (p.frac = [] ∧ text = p.whole ∨ Digits p.frac ∧ text = p.whole ++ '.' :: p.frac) := by
  constructor
  · intro h
    obtain ⟨whole, hwhole⟩ : ∃ whole, text.takeWhile Char.isDigit = whole := ⟨_, rfl⟩
    obtain ⟨rest, hrest⟩ : ∃ rest, text.dropWhile Char.isDigit = rest := ⟨_, rfl⟩
    have htext : text = whole ++ rest := by
      rw [← hwhole, ← hrest, List.takeWhile_append_dropWhile]
    have hall : whole.all Char.isDigit := by
      rw [← hwhole, List.all_takeWhile]
    rw [parse, List.span_eq_takeWhile_dropWhile, hwhole, hrest] at h
    cases whole with
    | nil => cases h
    | cons c whole =>
      have hdigits : Digits (c :: whole) := ⟨List.cons_ne_nil c whole, hall⟩
      cases rest with
      | nil =>
        obtain ⟨⟩ := h
        exact ⟨hdigits, .inl ⟨rfl, by rw [htext, List.append_nil]⟩⟩
      | cons point frac =>
        by_cases hpoint : point = '.'
        · subst hpoint
          by_cases hfrac : Digits frac
          · simp only [if_pos hfrac] at h
            obtain ⟨⟩ := h
            exact ⟨hdigits, .inr ⟨hfrac, htext⟩⟩
          · simp only [if_neg hfrac] at h
            cases h
        · simp at h
  · rintro ⟨⟨hne, hall⟩, hrest⟩
    obtain ⟨whole, frac⟩ := p
    dsimp only at hne hall hrest
    obtain ⟨c, cs, hwhole⟩ := List.exists_cons_of_ne_nil hne
    rcases hrest with ⟨rfl, rfl⟩ | ⟨hfrac, rfl⟩
    · have hspan : (text ++ []).span Char.isDigit = (text, []) := span_digits hall (by simp)
      rw [List.append_nil] at hspan
      rw [parse, hspan, hwhole]
    · have hspan : (whole ++ '.' :: frac).span Char.isDigit = (whole, '.' :: frac) :=
        span_digits hall (by simp [Char.isDigit])
      rw [parse, hspan, hwhole]
      exact if_pos hfrac

/-- Digits carry no sign. -/
theorem splitSign_digits (h : ∀ c ∈ text.head?, c ≠ '-' ∧ c ≠ '+') :
    splitSign text = (false, text) := by
  cases text with
  | nil => rfl
  | cons c text =>
    have hc := h c (by simp)
    unfold splitSign
    split
    · rename_i heq
      exact absurd (List.cons.inj heq).1 hc.1
    · rename_i heq
      exact absurd (List.cons.inj heq).1 hc.2
    · rfl

/-- A text that begins with a digit carries no sign. -/
theorem splitSign_of_head_digit (h : ∀ c ∈ text.head?, c.isDigit) :
    splitSign text = (false, text) := by
  refine splitSign_digits fun c hc => ?_
  have hdigit := h c hc
  constructor
  · rintro rfl
    exact absurd hdigit (by decide)
  · rintro rfl
    exact absurd hdigit (by decide)

/-! ### Writing -/

theorem digitsValue_zeros_append (n : ℕ) (digits : List Char) :
    digitsValue (List.replicate n '0' ++ digits) = digitsValue digits := by
  rw [digitsValue_append, digitsValue_replicate_zero, Nat.mul_zero, Nat.zero_add]

theorem digitsValue_paddedDigits (n width : ℕ) : digitsValue (paddedDigits n width) = n := by
  rw [paddedDigits]
  split
  · rw [digitsValue_zeros_append, digitsValue_repr]
  · exact digitsValue_repr n

theorem paddedDigits_all (n width : ℕ) : (paddedDigits n width).all Char.isDigit := by
  have hdigits := (digits_repr n).2
  rw [paddedDigits]
  split
  · rw [List.all_append, hdigits, Bool.and_true, List.all_replicate]
    simp [Char.isDigit]
  · exact hdigits

theorem lt_length_paddedDigits (n width : ℕ) : width < (paddedDigits n width).length := by
  rw [paddedDigits]
  split
  · rw [List.length_append, List.length_replicate]
    omega
  · omega

/-- The zeros at the end of a text, and what is left. -/
theorem dropZeros_append (text : List Char) :
    ∃ n, text = dropZeros text ++ List.replicate n '0' := by
  refine ⟨(text.reverse.takeWhile (· = '0')).length, ?_⟩
  have hzeros : text.reverse.takeWhile (· = '0') =
      List.replicate (text.reverse.takeWhile (· = '0')).length '0' := by
    refine List.eq_replicate_iff.mpr ⟨rfl, ?_⟩
    intro c hc
    simpa using List.mem_takeWhile_imp hc
  have hsplit := List.takeWhile_append_dropWhile (p := (· = '0')) (l := text.reverse)
  rw [dropZeros]
  conv_lhs => rw [← List.reverse_reverse text, ← hsplit, List.reverse_append, hzeros,
    List.reverse_replicate]

/-- Zeros at the end of a fraction are worth nothing. -/
theorem fraction_dropZeros (whole frac : List Char) :
    (digitsValue (whole ++ dropZeros frac) : ℚ) / 10 ^ (dropZeros frac).length =
      digitsValue (whole ++ frac) / 10 ^ frac.length := by
  obtain ⟨n, hn⟩ := dropZeros_append frac
  have hlength : frac.length = (dropZeros frac).length + n := by
    conv_lhs => rw [hn, List.length_append, List.length_replicate]
  have hvalue : digitsValue (whole ++ frac) = 10 ^ n * digitsValue (whole ++ dropZeros frac) := by
    conv_lhs => rw [hn, ← List.append_assoc, digitsValue_append, digitsValue_replicate_zero,
      List.length_replicate, Nat.add_zero]
  rw [hvalue, hlength, pow_add]
  push_cast
  field_simp

/-- A text that begins with a digit, after the sign of a number. -/
theorem splitSign_sign {value : ℤ} (h : ∀ c ∈ text.head?, c.isDigit) :
    splitSign ((if value < 0 then ['-'] else []) ++ text) = (decide (value < 0), text) := by
  by_cases hneg : value < 0
  · simp [hneg, splitSign]
  · simp only [hneg, if_false, List.nil_append, decide_false]
    exact splitSign_of_head_digit h

theorem sign_mul_natAbs (value : ℤ) :
    (if decide (value < 0) then (-1 : ℤ) else 1) * (value.natAbs : ℤ) = value := by
  by_cases hneg : value < 0
  · simp only [hneg, decide_true, if_true]
    omega
  · simp only [hneg, decide_false]
    simp
    omega

/-- A text that is a sign and digits is read as they stand. -/
theorem toScaled_sign (value : ℤ) {text whole frac : List Char}
    (hdigit : ∀ c ∈ text.head?, c.isDigit) (hsplit : splitDigits text = some (whole, frac)) :
    toScaled ((if value < 0 then ['-'] else []) ++ text) =
      some ⟨(if decide (value < 0) then (-1 : ℤ) else 1) * digitsValue (whole ++ frac),
        frac.length⟩ := by
  simp only [toScaled, splitSign_sign hdigit, hsplit, Option.map_some]

theorem head_all_digits (h : text.all Char.isDigit) :
    ∀ c ∈ text.head?, c.isDigit := by
  intro c hc
  exact List.all_eq_true.mp h c (List.mem_of_mem_head? hc)

/-- What a written text is made of. -/
theorem mem_fromScaled {value : ℤ} {scale : ℕ} {c : Char} (h : c ∈ fromScaled value scale) :
    c.isDigit ∨ c = '-' ∨ c = '.' := by
  have hsign : c ∈ (if value < 0 then ['-'] else []) → c = '-' := by
    intro hc
    split at hc
    · exact List.mem_singleton.mp hc
    · cases hc
  by_cases hscale : scale = 0
  · rw [fromScaled, if_pos hscale, List.mem_append] at h
    rcases h with h | h
    · exact .inr (.inl (hsign h))
    · exact .inl (List.all_eq_true.mp (digits_repr _).2 c h)
  · have hall := paddedDigits_all value.natAbs scale
    rw [fromScaled, if_neg hscale] at h
    simp only [List.mem_append] at h
    rcases h with (h | h) | h
    · exact .inr (.inl (hsign h))
    · exact .inl (List.all_eq_true.mp hall c (List.mem_of_mem_take h))
    · split at h
      · cases h
      · rcases List.mem_cons.mp h with rfl | h
        · exact .inr (.inr rfl)
        · obtain ⟨n, hn⟩ := dropZeros_append
            ((paddedDigits value.natAbs scale).drop
              ((paddedDigits value.natAbs scale).length - scale))
          have hmem := List.mem_append_left (List.replicate n '0') h
          rw [← hn] at hmem
          exact .inl (List.all_eq_true.mp hall c (List.mem_of_mem_drop hmem))

/-- **The sum over one scale is exact.** -/
theorem Scaled.toRat_add (a b : Scaled) : (a.add b).toRat = a.toRat + b.toRat := by
  have hwiden : ∀ d : Scaled, ∀ width, d.scale ≤ width →
      (d.value : ℚ) * 10 ^ (width - d.scale) / 10 ^ width = d.value / 10 ^ d.scale := by
    intro d width hwidth
    have hpow : (10 : ℚ) ^ width = 10 ^ (width - d.scale) * 10 ^ d.scale := by
      rw [← pow_add, Nat.sub_add_cancel hwidth]
    rw [hpow]
    field_simp
  rw [Scaled.toRat, Scaled.toRat, Scaled.toRat, Scaled.add]
  push_cast
  rw [add_div, hwiden a _ (Nat.le_max_left _ _), hwiden b _ (Nat.le_max_right _ _)]

/-! ### One text for each value -/

theorem repr_mul_ten {n : ℕ} (h : 0 < n) : (n * 10).repr.toList = n.repr.toList ++ ['0'] := by
  rw [Nat.toList_repr, Nat.toList_repr, mul_comm]
  have hdigits : Nat.toDigits 10 n ++ Nat.toDigits 10 0 = Nat.toDigits 10 (10 * n + 0) :=
    Nat.toDigits_append_toDigits (by decide) h (by decide)
  rw [Nat.add_zero, Nat.toDigits_zero] at hdigits
  exact hdigits.symm

/-- One more digit behind the point. -/
theorem paddedDigits_mul_ten (n width : ℕ) :
    paddedDigits (n * 10) (width + 1) = paddedDigits n width ++ ['0'] := by
  rcases Nat.eq_zero_or_pos n with rfl | hpos
  · have hzero : (0 : ℕ).repr.toList = ['0'] := rfl
    simp only [paddedDigits, Nat.zero_mul, hzero, List.length_singleton]
    rw [if_pos (by omega)]
    by_cases hwidth : 1 ≤ width
    · rw [if_pos hwidth]
      have hlength : width + 1 - 1 + 1 = width - 1 + 1 + 1 := by omega
      rw [hlength, List.replicate_succ']
    · obtain rfl : width = 0 := by omega
      rfl
  · simp only [paddedDigits, repr_mul_ten hpos, List.length_append, List.length_singleton,
      Nat.add_le_add_iff_right]
    split
    · rw [Nat.add_sub_add_right, List.append_assoc]
    · rfl

theorem dropZeros_append_zero (text : List Char) : dropZeros (text ++ ['0']) = dropZeros text := by
  rw [dropZeros, dropZeros, List.reverse_append]
  simp

/-- A zero at the end of a fraction is not written. -/
theorem fromScaled_mul_ten (value : ℤ) (scale : ℕ) : fromScaled (value * 10) (scale + 1) = fromScaled value scale := by
  have hsign : (value * 10 < 0) ↔ (value < 0) := by omega
  have habs : (value * 10).natAbs = value.natAbs * 10 := Int.natAbs_mul value 10
  have hlength := lt_length_paddedDigits value.natAbs scale
  rw [fromScaled, if_neg (Nat.succ_ne_zero scale)]
  simp only [hsign, habs, paddedDigits_mul_ten, List.length_append, List.length_singleton,
    Nat.add_sub_add_right]
  rw [List.take_append_of_le_length (by omega), List.drop_append_of_le_length (by omega),
    dropZeros_append_zero]
  by_cases hscale : scale = 0
  · subst hscale
    have hdigits : paddedDigits value.natAbs 0 = value.natAbs.repr.toList := by
      have hpos := List.length_pos_iff.mpr (digits_repr value.natAbs).1
      rw [paddedDigits, if_neg (by omega)]
    rw [fromScaled, if_pos rfl, hdigits]
    simp [dropZeros]
  · rw [fromScaled, if_neg hscale]

theorem fromScaled_mul_pow (value : ℤ) (scale k : ℕ) :
    fromScaled (value * 10 ^ k) (scale + k) = fromScaled value scale := by
  induction k with
  | zero => rw [pow_zero, mul_one, Nat.add_zero]
  | succ k ih => rw [pow_succ, ← mul_assoc, ← Nat.add_assoc, fromScaled_mul_ten, ih]

/-- **Scaled integers of one value have one text.** -/
theorem fromScaled_congr {a b : Scaled} (h : a.toRat = b.toRat) :
    fromScaled a.value a.scale = fromScaled b.value b.scale := by
  have hcross : a.value * 10 ^ b.scale = b.value * 10 ^ a.scale := by
    rw [Scaled.toRat, Scaled.toRat, div_eq_div_iff (by positivity) (by positivity)] at h
    exact_mod_cast h
  rw [← fromScaled_mul_pow a.value a.scale b.scale, hcross, Nat.add_comm, fromScaled_mul_pow]

end Decimal
