import XchainWallet.Shared.AmountFormat

/-!
# Order arithmetic

The order forms multiply, compare and subtract amounts with integers of their own, next to the
arithmetic on decimal texts. An operand is a bigint or a text of digits with at most one point; a
sign or an exponent is no amount. On operands that both arithmetics read they give the same answers
(`orderMath_exact`).
-/

namespace XchainWallet

open Decimal

namespace OrderMath

/-- An operand `v`: a bigint, or the text `String(v ?? '')` of any other value. -/
inductive Operand
  | bigint (n : ℤ)
  | other (text : List Char)

/-- `String(n)` of a bigint. -/
def bigintText (n : ℤ) : List Char := signText (n < 0) ++ n.natAbs.repr.toList

/-- `BigInt(text)` of digits, with a minus before them or none. Zeros in front are worth nothing. -/
def readBigInt : List Char → ℤ
  | '-' :: digits => -digitsValue digits
  | digits => digitsValue digits

/-- `parseDecimal(v)`: the digits before the point and behind it. -/
def parseDecimal : Operand → Option Plain
  | .bigint n => some ⟨bigintText n, []⟩
  | .other text => (splitDigits (jsTrim text)).map fun (int, frac) => ⟨int, frac⟩

/-- The digits with the fraction padded to the scale. -/
def scaled (p : Plain) (scale : ℕ) : ℤ :=
  readBigInt ((if p.whole = [] then ['0'] else p.whole) ++ p.padFrac scale)

/-- The digits of a result with the point before the last `scale` of them. -/
def placePoint (result : ℤ) (scale : ℕ) : List Char :=
  let digits := bigintText result
  if scale = 0 then digits
  else
    let digits :=
      if digits.length ≤ scale then List.replicate (scale - digits.length + 1) '0' ++ digits
      else digits
    let cut := digits.length - scale
    let intPart := digits.take cut
    let fracPart := dropZeros (digits.drop cut)
    if fracPart = [] then intPart else intPart ++ '.' :: fracPart

def multiplyAmounts (a b : Operand) : Option (List Char) := do
  let pa ← parseDecimal a
  let pb ← parseDecimal b
  let product := readBigInt (pa.whole ++ pa.frac) * readBigInt (pb.whole ++ pb.frac)
  if product = 0 then none else some (placePoint product (pa.frac.length + pb.frac.length))

def compareAmounts (a b : Operand) : Option Ordering := do
  let pa ← parseDecimal a
  let pb ← parseDecimal b
  let scale := max pa.frac.length pb.frac.length
  pure (compare (scaled pa scale) (scaled pb scale))

def subtractAmounts (a b : Operand) : Option (List Char) := do
  let pa ← parseDecimal a
  let pb ← parseDecimal b
  let scale := max pa.frac.length pb.frac.length
  let diff := scaled pa scale - scaled pb scale
  if diff ≤ 0 then none else some (placePoint diff scale)

/-! ### What an operand denotes -/

namespace Operand

/-- `String(v ?? '')` -/
def text : Operand → List Char
  | bigint n => bigintText n
  | other text => text

/-- No bigint below zero. -/
def Unsigned : Operand → Prop
  | bigint n => 0 ≤ n
  | other _ => True

/-- The number of a bigint, or of digits with a point or none. -/
def Denotes : Operand → ℚ → Prop
  | bigint n, v => v = n
  | other text, v =>
    ∃ whole frac, splitDigits (jsTrim text) = some (whole, frac) ∧ v = (Plain.mk whole frac).value

end Operand

theorem bigintText_natCast (n : ℕ) : bigintText n = n.repr.toList := by
  have hsign : signText ((n : ℤ) < 0) = [] := by
    simp [signText]
  rw [bigintText, hsign, Int.natAbs_natCast, List.nil_append]

variable {o : Operand}

/-- The text of a bigint that is not negative is read as the bigint is. -/
theorem parseDecimal_text (h : o.Unsigned) : parseDecimal o = parseDecimal (.other o.text) := by
  cases o with
  | other text => rfl
  | bigint n =>
    obtain ⟨m, rfl⟩ := Int.eq_ofNat_of_zero_le h
    have hdigits := digits_repr m
    rw [parseDecimal, parseDecimal, Operand.text, bigintText_natCast,
      jsTrim_eq_self _ fun c hc => isJsSpace_of_isDigit (List.all_eq_true.mp hdigits.2 c hc),
      splitDigits_whole hdigits.1 hdigits.2]
    rfl

/-- What is read is what is denoted. -/
theorem denotes_iff (h : o.Unsigned) {v : ℚ} :
    o.Denotes v ↔ ∃ p, parseDecimal o = some p ∧ v = p.value := by
  cases o with
  | other text =>
    constructor
    · rintro ⟨whole, frac, hsplit, rfl⟩
      exact ⟨⟨whole, frac⟩, by rw [parseDecimal, hsplit]; rfl, rfl⟩
    · rintro ⟨p, hp, rfl⟩
      obtain ⟨digits, hsplit, rfl⟩ := Option.map_eq_some_iff.mp hp
      exact ⟨digits.1, digits.2, hsplit, rfl⟩
  | bigint n =>
    obtain ⟨m, rfl⟩ := Int.eq_ofNat_of_zero_le h
    have hvalue : (Plain.mk (bigintText m) []).value = m := by
      rw [Plain.value, bigintText_natCast, List.append_nil, digitsValue_repr, List.length_nil,
        pow_zero, div_one]
    constructor
    · rintro rfl
      exact ⟨_, rfl, hvalue.symm⟩
    · rintro ⟨p, hp, rfl⟩
      obtain ⟨⟩ := hp
      exact hvalue

/-- What is read is made of digits. -/
theorem digits_of_parseDecimal (h : o.Unsigned) {p : Plain} (hp : parseDecimal o = some p) :
    p.whole.all Char.isDigit ∧ p.frac.all Char.isDigit := by
  rw [parseDecimal_text h] at hp
  obtain ⟨digits, hsplit, rfl⟩ := Option.map_eq_some_iff.mp hp
  obtain ⟨hwhole, hfrac, -⟩ := of_splitDigits hsplit
  exact ⟨hwhole, hfrac⟩

theorem readBigInt_digits {digits : List Char} (h : digits.all Char.isDigit) :
    readBigInt digits = digitsValue digits := by
  unfold readBigInt
  split
  · exact absurd h (by simp [Char.isDigit])
  · rfl

theorem readBigInt_parts (h : o.Unsigned) {p : Plain} (hp : parseDecimal o = some p) :
    readBigInt (p.whole ++ p.frac) = digitsValue (p.whole ++ p.frac) := by
  obtain ⟨hwhole, hfrac⟩ := digits_of_parseDecimal h hp
  refine readBigInt_digits ?_
  rw [List.all_append, hwhole, hfrac]
  rfl

theorem scaled_eq (h : o.Unsigned) {p : Plain} (hp : parseDecimal o = some p) (scale : ℕ) :
    scaled p scale = p.scaled scale := by
  obtain ⟨hwhole, hfrac⟩ := digits_of_parseDecimal h hp
  have hpad : (p.padFrac scale).all Char.isDigit := by
    rw [Plain.padFrac, List.all_append, hfrac, List.all_replicate]
    simp [Char.isDigit]
  rw [scaled, Plain.scaled]
  split
  · next hnil =>
    rw [hnil, readBigInt_digits (by rw [List.all_append, hpad]; rfl)]
    exact congrArg Nat.cast (digitsValue_zeros_append 1 _)
  · rw [readBigInt_digits (by rw [List.all_append, hwhole, hpad]; rfl)]

/-- The point is placed as in the shortest text. -/
theorem placePoint_natCast (n scale : ℕ) : placePoint n scale = fromScaled n scale := by
  have hsign : ¬(n : ℤ) < 0 := by omega
  rw [placePoint, bigintText_natCast, fromScaled, if_neg hsign, Int.natAbs_natCast]
  by_cases hscale : scale = 0
  · rw [if_pos hscale, if_pos hscale, List.nil_append]
  · have hpoint : ∀ int frac : List Char, (if frac = [] then int else int ++ '.' :: frac) =
        [] ++ int ++ if frac = [] then [] else '.' :: frac := by
      intro int frac
      rw [List.nil_append]
      split
      · rw [List.append_nil]
      · rfl
    rw [if_neg hscale, if_neg hscale]
    exact hpoint _ _

/-! ### Each operation -/

/-- An operand that is read denotes the number of its digits, and no other. -/
theorem denotes_parsed (h : o.Unsigned) {p : Plain} (hp : parseDecimal o = some p) {v : ℚ} :
    o.Denotes v ↔ v = p.value := by
  rw [denotes_iff h, hp]
  constructor
  · rintro ⟨q, hq, rfl⟩
    rw [Option.some.inj hq]
  · rintro rfl
    exact ⟨p, rfl, rfl⟩

/-- An operand that is not read denotes nothing. -/
theorem not_denotes (h : o.Unsigned) (hnone : parseDecimal o = none) (v : ℚ) : ¬o.Denotes v := by
  rw [denotes_iff h, hnone]
  rintro ⟨p, hp, -⟩
  cases hp

section Parsed

variable {a b : Operand} {pa pb : Plain}

theorem multiplyAmounts_parsed (ha : a.Unsigned) (hb : b.Unsigned)
    (hpa : parseDecimal a = some pa) (hpb : parseDecimal b = some pb) :
    multiplyAmounts a b =
      if digitsValue (pa.whole ++ pa.frac) * digitsValue (pb.whole ++ pb.frac) = 0 then none
      else some (fromScaled
        (digitsValue (pa.whole ++ pa.frac) * digitsValue (pb.whole ++ pb.frac) : ℕ)
        (pa.frac.length + pb.frac.length)) := by
  rw [multiplyAmounts, hpa, hpb]
  simp only [Option.bind_eq_bind, Option.bind_some, readBigInt_parts ha hpa,
    readBigInt_parts hb hpb, ← Int.natCast_mul, placePoint_natCast, Int.natCast_eq_zero]

theorem compareAmounts_parsed (ha : a.Unsigned) (hb : b.Unsigned)
    (hpa : parseDecimal a = some pa) (hpb : parseDecimal b = some pb) :
    compareAmounts a b = some (compare pa.value pb.value) := by
  have hpow : (0 : ℚ) < 10 ^ max pa.frac.length pb.frac.length := by positivity
  have hcmp : cmp (scaled pa (max pa.frac.length pb.frac.length))
      (scaled pb (max pa.frac.length pb.frac.length)) = cmp pa.value pb.value := by
    rw [← Int.cast_strictMono (R := ℚ) |>.cmp_map_eq, scaled_eq ha hpa, scaled_eq hb hpb,
      Int.cast_natCast, Int.cast_natCast, Plain.scaled_eq (le_max_left _ _),
      Plain.scaled_eq (le_max_right _ _), cmp_mul_pos_right hpow]
  rw [cmp_eq_compare, cmp_eq_compare] at hcmp
  rw [compareAmounts, hpa, hpb, ← hcmp]
  rfl

/-- The difference over the wider of the two scales. -/
theorem sub_scaled (ha : a.Unsigned) (hb : b.Unsigned) (hpa : parseDecimal a = some pa)
    (hpb : parseDecimal b = some pb) :
    ((scaled pa (max pa.frac.length pb.frac.length) -
      scaled pb (max pa.frac.length pb.frac.length) : ℤ) : ℚ) =
        (pa.value - pb.value) * 10 ^ max pa.frac.length pb.frac.length := by
  rw [scaled_eq ha hpa, scaled_eq hb hpb, Int.cast_sub, Int.cast_natCast, Int.cast_natCast,
    Plain.scaled_eq (le_max_left _ _), Plain.scaled_eq (le_max_right _ _), sub_mul]

theorem subtractAmounts_parsed (ha : a.Unsigned) (hb : b.Unsigned)
    (hpa : parseDecimal a = some pa) (hpb : parseDecimal b = some pb) :
    subtractAmounts a b = if pa.value ≤ pb.value then none
      else some (fromScaled (scaled pa (max pa.frac.length pb.frac.length) -
        scaled pb (max pa.frac.length pb.frac.length)) (max pa.frac.length pb.frac.length)) := by
  obtain ⟨scale, hscale⟩ : ∃ scale, max pa.frac.length pb.frac.length = scale := ⟨_, rfl⟩
  have hsub := sub_scaled ha hb hpa hpb
  rw [hscale] at hsub ⊢
  have hpow : (0 : ℚ) < 10 ^ scale := by positivity
  have hnonpos : scaled pa scale - scaled pb scale ≤ 0 ↔ pa.value ≤ pb.value := by
    rw [← not_lt, ← not_lt, ← Int.cast_lt (R := ℚ), hsub, Int.cast_zero,
      mul_pos_iff_of_pos_right hpow, sub_pos]
  rw [subtractAmounts, hpa, hpb]
  simp only [Option.bind_eq_bind, Option.bind_some, hscale, hnonpos]
  split
  · rfl
  · next hlt =>
    obtain ⟨n, hn⟩ := Int.eq_ofNat_of_zero_le (not_le.mp (hnonpos.not.mpr hlt)).le
    rw [hn]
    exact congrArg some (placePoint_natCast n scale)

/-- An operand that amounts are read from, too, is read as the same scaled integer. -/
theorem parsed_agree (ha : a.Unsigned) (hpa : parseDecimal a = some pa) {d : Scaled}
    (hd : XchainWallet.parseDecimal a.text = some d) :
    d = ⟨digitsValue (pa.whole ++ pa.frac), pa.frac.length⟩ := by
  rw [parseDecimal_text ha] at hpa
  obtain ⟨⟨whole, frac⟩, hsplit, rfl⟩ := Option.map_eq_some_iff.mp hpa
  obtain ⟨hwhole, hfrac, hne, htext⟩ := of_splitDigits hsplit
  have hsign : splitSign (jsTrim a.text) = (false, jsTrim a.text) := by
    refine splitSign_digits fun c hc => ?_
    have hmem : c.isDigit ∨ c = '.' := by
      rcases htext with ⟨-, htext⟩ | htext
      · rw [htext] at hc
        exact .inl (head_all_digits hwhole c hc)
      · rw [htext] at hc
        rcases List.mem_append.mp (List.mem_of_mem_head? hc) with hc | hc
        · exact .inl (List.all_eq_true.mp hwhole c hc)
        · rcases List.mem_cons.mp hc with rfl | hc
          · exact .inr rfl
          · exact .inl (List.all_eq_true.mp hfrac c hc)
    constructor
    · rintro rfl
      exact absurd hmem (by decide)
    · rintro rfl
      exact absurd hmem (by decide)
  rw [XchainWallet.parseDecimal, hsign] at hd
  obtain ⟨q, hq, rfl⟩ := Option.map_eq_some_iff.mp hd
  -- one text is split in one way
  have hparts : (q.whole, q.frac) = (whole, frac) := by
    obtain ⟨⟨hqne, hqwhole⟩, hqtext⟩ := Plain.parse_eq_some.mp hq
    rw [← Option.some_inj, ← hsplit]
    rcases hqtext with ⟨hqfrac, hqtext⟩ | ⟨hqfrac, hqtext⟩
    · rw [hqtext, splitDigits_whole hqne hqwhole, hqfrac]
    · rw [hqtext, splitDigits_point hqne hqwhole hqfrac.2]
  obtain ⟨rfl, rfl⟩ := Prod.mk.inj hparts
  rfl

end Parsed

/-! ### The operations together -/

/-- What each operation makes of two operands, and what the arithmetic on decimal texts makes of
them. -/
structure Exact (a b : Operand) : Prop where
  multiply_none : multiplyAmounts a b = none ↔ ¬∃ x y, a.Denotes x ∧ b.Denotes y ∧ 0 < x ∧ 0 < y
  multiply {x y} : a.Denotes x → b.Denotes y → 0 < x → 0 < y →
    ∃ text, multiplyAmounts a b = some text ∧ IsCanonical text ∧ Denotes text (x * y)
  compare_none : compareAmounts a b = none ↔ ¬∃ x y, a.Denotes x ∧ b.Denotes y
  compare {x y} : a.Denotes x → b.Denotes y → compareAmounts a b = some (Ord.compare x y)
  subtract_none : subtractAmounts a b = none ↔ ¬∃ x y, a.Denotes x ∧ b.Denotes y ∧ y < x
  subtract {x y} : a.Denotes x → b.Denotes y → y < x →
    ∃ text, subtractAmounts a b = some text ∧ IsCanonical text ∧ Denotes text (x - y)
  /-- Where both arithmetics read both operands they give the same answers. -/
  agree {x y l r} : a.Denotes x → b.Denotes y → XchainWallet.parseDecimal a.text = some l →
    XchainWallet.parseDecimal b.text = some r →
      compareAmounts a b = compareDecimalStrings a.text b.text ∧
      (0 < x → 0 < y → multiplyAmounts a b = multiplyDecimalStrings a.text b.text) ∧
      (y < x → subtractAmounts a b = subtractDecimalStrings a.text b.text)

theorem exact_of_none {a b : Operand} (hnone : parseDecimal a = none ∨ parseDecimal b = none)
    (hdenotes : ¬∃ x y, a.Denotes x ∧ b.Denotes y) : Exact a b := by
  have hmultiply : multiplyAmounts a b = none := by
    rw [multiplyAmounts]
    rcases hnone with h | h
    · rw [h]
      rfl
    · rw [h]
      cases parseDecimal a <;> rfl
  have hcompare : compareAmounts a b = none := by
    rw [compareAmounts]
    rcases hnone with h | h
    · rw [h]
      rfl
    · rw [h]
      cases parseDecimal a <;> rfl
  have hsubtract : subtractAmounts a b = none := by
    rw [subtractAmounts]
    rcases hnone with h | h
    · rw [h]
      rfl
    · rw [h]
      cases parseDecimal a <;> rfl
  exact {
    multiply_none := iff_of_true hmultiply fun ⟨x, y, hx, hy, _⟩ => hdenotes ⟨x, y, hx, hy⟩
    multiply := fun hx hy => absurd ⟨_, _, hx, hy⟩ hdenotes
    compare_none := iff_of_true hcompare hdenotes
    compare := fun hx hy => absurd ⟨_, _, hx, hy⟩ hdenotes
    subtract_none := iff_of_true hsubtract fun ⟨x, y, hx, hy, _⟩ => hdenotes ⟨x, y, hx, hy⟩
    subtract := fun hx hy => absurd ⟨_, _, hx, hy⟩ hdenotes
    agree := fun hx hy => absurd ⟨_, _, hx, hy⟩ hdenotes }

theorem value_pos_iff {p : Plain} : 0 < p.value ↔ 0 < digitsValue (p.whole ++ p.frac) := by
  rw [Plain.value, div_pos_iff_of_pos_right (by positivity), Nat.cast_pos]

/-- What holds of the two numbers that are denoted. -/
theorem exists_denotes {a b : Operand} {pa pb : Plain} (ha : a.Unsigned) (hb : b.Unsigned)
    (hpa : parseDecimal a = some pa) (hpb : parseDecimal b = some pb) (P : ℚ → ℚ → Prop) :
    (∃ x y, a.Denotes x ∧ b.Denotes y ∧ P x y) ↔ P pa.value pb.value := by
  constructor
  · rintro ⟨x, y, hx, hy, hP⟩
    rwa [(denotes_parsed ha hpa).mp hx, (denotes_parsed hb hpb).mp hy] at hP
  · exact fun hP => ⟨_, _, (denotes_parsed ha hpa).mpr rfl, (denotes_parsed hb hpb).mpr rfl, hP⟩

/-- Two arithmetics on one pair of scaled integers. -/
theorem parsed_agree_all {a b : Operand} {pa pb : Plain} {l r : Scaled} (ha : a.Unsigned)
    (hb : b.Unsigned) (hpa : parseDecimal a = some pa) (hpb : parseDecimal b = some pb)
    (hl : XchainWallet.parseDecimal a.text = some l)
    (hr : XchainWallet.parseDecimal b.text = some r) :
    compareAmounts a b = compareDecimalStrings a.text b.text ∧
      (0 < pa.value → 0 < pb.value → multiplyAmounts a b = multiplyDecimalStrings a.text b.text) ∧
      (pb.value < pa.value → subtractAmounts a b = subtractDecimalStrings a.text b.text) := by
  have hleft := parsed_agree ha hpa hl
  have hright := parsed_agree hb hpb hr
  have hlvalue : l.toRat = pa.value := by
    rw [hleft, Scaled.toRat, Plain.value, Int.cast_natCast]
  have hrvalue : r.toRat = pb.value := by
    rw [hright, Scaled.toRat, Plain.value, Int.cast_natCast]
  refine ⟨?_, fun hx hy => ?_, fun hlt => ?_⟩
  · rw [compareAmounts_parsed ha hb hpa hpb, compareDecimalStrings_parsed hl hr, hlvalue, hrvalue]
  · have hne : digitsValue (pa.whole ++ pa.frac) * digitsValue (pb.whole ++ pb.frac) ≠ 0 :=
      (Nat.mul_pos (value_pos_iff.mp hx) (value_pos_iff.mp hy)).ne'
    rw [multiplyAmounts_parsed ha hb hpa hpb, if_neg hne, multiplyDecimalStrings, hl, hr,
      ← renderDecimal_true, hleft, hright, Int.natCast_mul]
    rfl
  · have hrescale : rescaleDecimal l (max l.scale r.scale) -
        rescaleDecimal r (max l.scale r.scale) =
          scaled pa (max l.scale r.scale) - scaled pb (max l.scale r.scale) := by
      have hlscale : pa.frac.length = l.scale := by rw [hleft]
      have hrscale : pb.frac.length = r.scale := by rw [hright]
      have hsub := sub_scaled ha hb hpa hpb
      rw [hlscale, hrscale] at hsub
      rw [← Int.cast_inj (α := ℚ), hsub, Int.cast_sub, rescaleDecimal_eq (le_max_left _ _),
        rescaleDecimal_eq (le_max_right _ _), hlvalue, hrvalue, sub_mul]
    rw [subtractAmounts_parsed ha hb hpa hpb, if_neg (not_le.mpr hlt), subtractDecimalStrings, hl,
      hr, ← renderDecimal_true]
    simp only [Option.bind_eq_bind, Option.bind_some, hrescale]
    rw [hleft, hright]
    rfl

theorem exact_of_parsed {a b : Operand} {pa pb : Plain} (ha : a.Unsigned) (hb : b.Unsigned)
    (hpa : parseDecimal a = some pa) (hpb : parseDecimal b = some pb) : Exact a b where
  multiply_none := by
    rw [exists_denotes ha hb hpa hpb (fun x y => 0 < x ∧ 0 < y), value_pos_iff, value_pos_iff,
      Nat.pos_iff_ne_zero, Nat.pos_iff_ne_zero, ← Nat.mul_ne_zero_iff, not_not,
      multiplyAmounts_parsed ha hb hpa hpb]
    constructor
    · intro hnone
      by_contra hne
      rw [if_neg hne] at hnone
      cases hnone
    · exact fun hzero => if_pos hzero
  multiply {x y} hx hy hxpos hypos := by
    rw [(denotes_parsed ha hpa).mp hx] at hxpos ⊢
    rw [(denotes_parsed hb hpb).mp hy] at hypos ⊢
    have hne : digitsValue (pa.whole ++ pa.frac) * digitsValue (pb.whole ++ pb.frac) ≠ 0 :=
      (Nat.mul_pos (value_pos_iff.mp hxpos) (value_pos_iff.mp hypos)).ne'
    have hvalue : pa.value * pb.value =
        ((digitsValue (pa.whole ++ pa.frac) * digitsValue (pb.whole ++ pb.frac) : ℕ) : ℤ) /
          10 ^ (pa.frac.length + pb.frac.length) := by
      rw [Plain.value, Plain.value, div_mul_div_comm, pow_add, Int.cast_natCast, Nat.cast_mul]
    have hdenotes := denotes_fromScaled
      (digitsValue (pa.whole ++ pa.frac) * digitsValue (pb.whole ++ pb.frac) : ℕ)
      (pa.frac.length + pb.frac.length)
    rw [← hvalue] at hdenotes
    exact ⟨_, (multiplyAmounts_parsed ha hb hpa hpb).trans (if_neg hne),
      isCanonical_fromScaled _ _, hdenotes⟩
  compare_none := by
    rw [compareAmounts_parsed ha hb hpa hpb]
    exact iff_of_false (by simp) (not_not.mpr
      ⟨_, _, (denotes_parsed ha hpa).mpr rfl, (denotes_parsed hb hpb).mpr rfl⟩)
  compare {x y} hx hy := by
    rw [(denotes_parsed ha hpa).mp hx, (denotes_parsed hb hpb).mp hy]
    exact compareAmounts_parsed ha hb hpa hpb
  subtract_none := by
    rw [exists_denotes ha hb hpa hpb (fun x y => y < x), subtractAmounts_parsed ha hb hpa hpb]
    simp
  subtract {x y} hx hy hlt := by
    rw [(denotes_parsed ha hpa).mp hx, (denotes_parsed hb hpb).mp hy] at hlt ⊢
    have hdenotes := denotes_fromScaled (scaled pa (max pa.frac.length pb.frac.length) -
      scaled pb (max pa.frac.length pb.frac.length)) (max pa.frac.length pb.frac.length)
    rw [sub_scaled ha hb hpa hpb, mul_div_cancel_right₀ _ (by positivity)] at hdenotes
    exact ⟨_, (subtractAmounts_parsed ha hb hpa hpb).trans (if_neg (not_le.mpr hlt)),
      isCanonical_fromScaled _ _, hdenotes⟩
  agree {x y l r} hx hy hl hr := by
    rw [(denotes_parsed ha hpa).mp hx, (denotes_parsed hb hpb).mp hy]
    exact parsed_agree_all ha hb hpa hpb hl hr

/-- **Order arithmetic is exact**, and agrees with the arithmetic on decimal texts. -/
theorem orderMath_exact (a b : Operand) (ha : a.Unsigned) (hb : b.Unsigned) : Exact a b := by
  cases hpa : parseDecimal a with
  | none =>
    exact exact_of_none (.inl hpa) fun ⟨x, _, hx, _⟩ => not_denotes ha hpa x hx
  | some pa =>
    cases hpb : parseDecimal b with
    | none => exact exact_of_none (.inr hpb) fun ⟨_, y, _, hy⟩ => not_denotes hb hpb y hy
    | some pb => exact exact_of_parsed ha hb hpa hpb

theorem orderMath_exact_half : Exact (.bigint 3) (.other ".5".toList) :=
  orderMath_exact _ _ (by decide : (0 : ℤ) ≤ 3) trivial

/-- Zeros are compared, a difference below zero is none, and half of two is an order amount though
a text that begins with its point is no amount elsewhere. -/
theorem not_orderMath_exact :
    compareAmounts (.other "0".toList) (.other "0".toList) = some .eq ∧
      subtractAmounts (.other "3".toList) (.other "5".toList) = none ∧
      multiplyAmounts (.other ".5".toList) (.bigint 2) = some "1".toList ∧
      multiplyDecimalStrings ".5".toList "2".toList = none := by
  decide

end OrderMath

end XchainWallet
