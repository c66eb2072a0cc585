import XchainWallet.Shared.DecimalSums

/-!
# Exact arithmetic on decimal texts

The operations on amounts read decimal texts as integers over powers of ten, compute with the
integers and write a text again. Each is exact, or rounds as it says (`amountFormat_exact`);
products, differences and quotients are written canonically, while a sum keeps the places of its
widest addend and a rounded text the places asked for.
-/

namespace XchainWallet

open Decimal
open Option (bind_eq_bind bind_some filter_some map_some)

/-! ### Reading and writing -/

/-- `parseDecimal(value)`: a sign or none, digits, and a point with digits or none. -/
def parseDecimal (value : List Char) : Option Scaled :=
  let (negative, digits) := splitSign (jsTrim value)
  (Plain.parse digits).map fun p =>
    let magnitude := digitsValue (p.whole ++ p.frac)
    ⟨if negative then -magnitude else magnitude, p.frac.length⟩

def renderDecimal (units : ℤ) (scale : ℕ) (trim : Bool) : List Char :=
  let abs := paddedDigits units.natAbs scale
  if scale = 0 then signText (units < 0) ++ abs
  else
    let whole := abs.take (abs.length - scale)
    let rawFraction := abs.drop (abs.length - scale)
    let fraction := if trim then dropZeros rawFraction else rawFraction
    signText (units < 0) ++ (whole ++ if fraction = [] then [] else '.' :: fraction)

def rescaleDecimal (parsed : Scaled) (scale : ℕ) : ℤ := parsed.value * 10 ^ (scale - parsed.scale)

/-- A number of places: an integer that is not negative. -/
def places? (n : JsNumber) : Option ℕ :=
  n.bind fun q => if q.den = 1 ∧ 0 ≤ q.num then some q.num.toNat else none

def compareDecimalStrings (a b : List Char) : Option Ordering := do
  let left ← parseDecimal a
  let right ← parseDecimal b
  let scale := max left.scale right.scale
  pure (compare (rescaleDecimal left scale) (rescaleDecimal right scale))

def multiplyDecimalStrings (a b : List Char) : Option (List Char) := do
  let left ← parseDecimal a
  let right ← parseDecimal b
  pure (renderDecimal (left.value * right.value) (left.scale + right.scale) true)

def subtractDecimalStrings (a b : List Char) : Option (List Char) := do
  let left ← parseDecimal a
  let right ← parseDecimal b
  let scale := max left.scale right.scale
  pure (renderDecimal (rescaleDecimal left scale - rescaleDecimal right scale) scale true)

/-- The amount of a count of base units; `none` is `null`, which is no count. -/
def decimalFromBaseUnits (value : Option ℤ) (decimals : JsNumber) : Option (List Char) := do
  let scale ← places? decimals
  let units ← value
  pure (renderDecimal units scale true)

/-- A plain decimal, its number and its places behind the point. -/
def PlainDecimal (text : List Char) (v : ℚ) (places : ℕ) : Prop :=
  ∃ sign unsigned p, sign ∈ [[], ['+'], ['-']] ∧ Plain.parse unsigned = some p ∧
    text = sign ++ unsigned ∧ v = (if sign = ['-'] then -p.value else p.value) ∧
      places = p.frac.length

variable {text : List Char}

theorem jsTrim_plainDecimal {v : ℚ} {places : ℕ} (h : PlainDecimal text v places) :
    jsTrim text = text := by
  obtain ⟨sign, unsigned, p, hsign, hp, rfl, -, -⟩ := h
  refine jsTrim_eq_self _ fun c hc => ?_
  rcases List.mem_append.mp hc with hc | hc
  · simp only [List.mem_cons, List.not_mem_nil, or_false] at hsign
    rcases hsign with rfl | rfl | rfl
    · cases hc
    · rw [List.mem_singleton.mp hc]
      decide
    · rw [List.mem_singleton.mp hc]
      decide
  · rcases (plain_chars hp).1 c hc with hdigit | rfl
    · exact isJsSpace_of_isDigit hdigit
    · decide

theorem value_eq_toRat (d : Scaled) : (d.value : ℚ) = d.toRat * 10 ^ d.scale := by
  rw [Scaled.toRat, div_mul_cancel₀ _ (by positivity)]

variable {d : Scaled}

theorem rescaleDecimal_eq {scale : ℕ} (h : d.scale ≤ scale) :
    (rescaleDecimal d scale : ℚ) = d.toRat * 10 ^ scale := by
  have hpow : (10 : ℚ) ^ scale = 10 ^ d.scale * 10 ^ (scale - d.scale) := by
    rw [← pow_add, Nat.add_sub_cancel' h]
  rw [rescaleDecimal, hpow, ← mul_assoc, ← value_eq_toRat]
  push_cast
  rfl

theorem value_pos_iff : 0 < d.value ↔ 0 < d.toRat := by
  have hpos : (0 : ℚ) < 10 ^ d.scale := by positivity
  rw [← Int.cast_lt (R := ℚ), value_eq_toRat, Int.cast_zero, mul_pos_iff_of_pos_right hpos]

/-- A decimal with so many places, and no zero or minus that it could do without before them. -/
def HasPlaces (text : List Char) (places : ℕ) : Prop :=
  ∃ negative p, Plain.Tidy p ∧ p.frac.length = places ∧ (negative = true → p.value ≠ 0) ∧
    text = signText negative ++ p.text

theorem renderDecimal_true (units : ℤ) (scale : ℕ) :
    renderDecimal units scale true = fromScaled units scale := by
  have hsign : signText (units < 0) = if units < 0 then ['-'] else [] := by
    simp [signText]
  rw [renderDecimal, fromScaled, hsign]
  by_cases hscale : scale = 0
  · rw [if_pos hscale, if_pos hscale, hscale, paddedDigits_zero]
  · rw [if_neg hscale, if_neg hscale, List.append_assoc]
    rfl

theorem hasPlaces_decimalText (scale : ℕ) (total : ℤ) :
    HasPlaces (decimalText scale total) scale := by
  refine ⟨decide (total < 0), Plain.ofScaled total.natAbs scale, Plain.tidy_ofScaled _ _,
    Plain.length_frac_ofScaled _ _, fun hneg => ?_, decimalText_eq scale total⟩
  have hneg : total < 0 := of_decide_eq_true hneg
  have habs : (total.natAbs : ℚ) ≠ 0 := by
    rw [Nat.cast_ne_zero]
    omega
  rw [Plain.value_ofScaled]
  exact div_ne_zero habs (by positivity)

/-! ### Each operation -/

section Operations

variable {a b : List Char} {x y : ℚ} {i j : ℕ}

theorem compareDecimalStrings_parsed {left right : Scaled} (hleft : parseDecimal a = some left)
    (hright : parseDecimal b = some right) :
    compareDecimalStrings a b = some (compare left.toRat right.toRat) := by
  have hpow : (0 : ℚ) < 10 ^ max left.scale right.scale := by positivity
  have hcmp : cmp (rescaleDecimal left (max left.scale right.scale))
      (rescaleDecimal right (max left.scale right.scale)) = cmp left.toRat right.toRat := by
    rw [← Int.cast_strictMono (R := ℚ) |>.cmp_map_eq, rescaleDecimal_eq (le_max_left _ _),
      rescaleDecimal_eq (le_max_right _ _), cmp_mul_pos_right hpow]
  rw [cmp_eq_compare, cmp_eq_compare] at hcmp
  rw [compareDecimalStrings, hleft, hright, ← hcmp]
  rfl

end Operations

/-! ### The sum -/

/-- A sum reads a plain decimal that has no plus before it. -/
theorem SumEntry.read_plainDecimal {v : ℚ} {places : ℕ} (h : PlainDecimal text v places)
    (hplus : text.head? ≠ some '+') :
    ∃ entry, SumEntry.read text = some entry ∧ entry.value = v ∧
      entry.digits.frac.length = places := by
  have htrim := jsTrim_plainDecimal h
  obtain ⟨sign, unsigned, p, hsign, hp, rfl, rfl, rfl⟩ := h
  simp only [List.mem_cons, List.not_mem_nil, or_false] at hsign
  rcases hsign with rfl | rfl | rfl
  · exact ⟨_, SumEntry.read_plain hp, rfl, rfl⟩
  · exact absurd rfl hplus
  · refine ⟨⟨true, p⟩, ?_, rfl, rfl⟩
    rw [SumEntry.read, htrim]
    simp only [List.cons_append, List.nil_append, hp, map_some]

/-- What a sum makes of a text that amounts are read from: without a plus it is an addend, and with
one it is left out. -/
theorem SumEntry.read_parsed (h : parseDecimal text = some d) :
    (if (jsTrim text).head? = some '+' then SumEntry.read text = none
      else ∃ entry, SumEntry.read text = some entry ∧ entry.value = d.toRat) := by
  rw [parseDecimal] at h
  rw [SumEntry.read]
  cases htext : jsTrim text with
  | nil =>
    rw [htext] at h
    cases h
  | cons c rest =>
    rw [htext] at h
    by_cases hminus : c = '-'
    · subst hminus
      obtain ⟨p, hp, rfl⟩ := Option.map_eq_some_iff.mp h
      have hparse : Plain.parse rest = some p := hp
      rw [List.head?_cons, if_neg (by decide)]
      refine ⟨⟨true, p⟩, by simp only [hparse, map_some], ?_⟩
      rw [SumEntry.value, if_pos rfl, Scaled.toRat, Plain.value]
      simp [neg_div]
    · by_cases hplus : c = '+'
      · subst hplus
        rw [List.head?_cons, if_pos rfl]
        rfl
      · have hsign : splitSign (c :: rest) = (false, c :: rest) := by
          refine splitSign_digits fun d hd => ?_
          rw [List.head?_cons, Option.mem_some_iff] at hd
          exact ⟨hd ▸ hminus, hd ▸ hplus⟩
        rw [hsign] at h
        obtain ⟨p, hp, rfl⟩ := Option.map_eq_some_iff.mp h
        have hparse : Plain.parse (c :: rest) = some p := hp
        rw [List.head?_cons, if_neg (fun heq => hplus (Option.some.inj heq))]
        refine ⟨⟨false, p⟩, ?_, ?_⟩
        · split
          · next heq => exact absurd (List.cons.inj heq).1 hminus
          · rw [hparse, map_some]
        · rw [SumEntry.value, if_neg Bool.false_ne_true, Scaled.toRat, Plain.value]
          simp

/-- A sum has the places of the widest fraction among its addends. -/
theorem hasPlaces_sumDecimals (texts : List (List Char)) :
    HasPlaces (sumDecimals texts) (widest (texts.filterMap SumEntry.read)) := by
  rw [sumDecimals]
  generalize texts.filterMap SumEntry.read = entries
  split
  · next hnone =>
    rw [hnone]
    exact ⟨false, ⟨['0'], []⟩, ⟨by decide, rfl, .inl rfl⟩, rfl, by decide, rfl⟩
  · exact hasPlaces_decimalText _ _

/-- A sum reads what it has written. -/
theorem SumEntry.read_sumDecimals (texts : List (List Char)) :
    ∃ entry, SumEntry.read (sumDecimals texts) = some entry ∧
      entry.value = ((texts.filterMap SumEntry.read).map SumEntry.value).sum := by
  have hdenotes := denotes_sumDecimals texts
  obtain ⟨negative, p, htidy, -, -, htext⟩ := hasPlaces_sumDecimals texts
  have hplain : PlainDecimal (sumDecimals texts) (if negative then -p.value else p.value)
      p.frac.length := by
    refine ⟨signText negative, p.text, p, ?_, Plain.parse_text htidy, htext, ?_, rfl⟩
    · cases negative <;> simp [signText]
    · cases negative <;> rfl
  have hplus : (sumDecimals texts).head? ≠ some '+' := by
    rw [htext]
    cases negative with
    | true =>
      intro hhead
      exact absurd (Option.some.inj hhead) (by decide)
    | false =>
      intro hhead
      exact absurd (Plain.head_text htidy '+' hhead) (by decide)
  obtain ⟨entry, hentry, hvalue, -⟩ := SumEntry.read_plainDecimal hplain hplus
  refine ⟨entry, hentry, ?_⟩
  rw [htext] at hdenotes
  rw [hvalue, (denotes_text htidy negative).unique hdenotes]

end XchainWallet
