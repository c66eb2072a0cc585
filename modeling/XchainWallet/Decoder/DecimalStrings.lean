import XchainWallet.Decimal.Canonical
import XchainWallet.Js.Text

/-!
# Balances and amounts as decimal strings

Balances and amounts arrive as decimal strings. A `DecimalText` is one: digits with at most one point
among them, and a minus in front or none. `addStr` and `subStr` compute with their scaled integers, and
`value_addStr` and `value_subStr` say what the results are worth; `unsignedDecimal` is the check that an
amount of a transaction passes.
-/

namespace XchainWallet.TxSimulator

open Decimal

/-- `/^-?(?:\d+(?:\.\d*)?|\.\d+)$/`: the scaled integers also have texts with a plus in front. -/
def IsDecimal (text : List Char) : Prop := text.head? ≠ some '+' ∧ (toScaled text).isSome

instance (text : List Char) : Decidable (IsDecimal text) := inferInstanceAs (Decidable (_ ∧ _))

/-- A decimal string. -/
structure DecimalText where
  text : String
  isDecimal : IsDecimal text.toList
deriving DecidableEq

/-- A decimal string without a minus. -/
structure UnsignedText extends DecimalText where
  unsigned : text.toList.head? ≠ some '-'

namespace DecimalText

/-- The scaled integer of a decimal string. -/
def parseDec (d : DecimalText) : Scaled := (toScaled d.text.toList).get d.isDecimal.2

/-- What a decimal string is worth. -/
def value (d : DecimalText) : ℚ := d.parseDec.toRat

theorem toScaled_text (d : DecimalText) : toScaled d.text.toList = some d.parseDec :=
  (Option.some_get _).symm

end DecimalText

/-- A written scaled integer is a decimal string. -/
theorem isDecimal_fromScaled (value : ℤ) (scale : ℕ) : IsDecimal (fromScaled value scale) := by
  obtain ⟨d, hd, -⟩ := denotes_fromScaled value scale
  refine ⟨fun hplus => ?_, by rw [hd]; rfl⟩
  rcases mem_fromScaled (List.mem_of_mem_head? hplus) with h | h | h <;> exact absurd h (by decide)

def formatScaledBigint (d : Scaled) : DecimalText :=
  ⟨String.ofList (fromScaled d.value d.scale), by
    rw [String.toList_ofList]
    exact isDecimal_fromScaled d.value d.scale⟩

def zero : DecimalText := ⟨"0", by decide⟩

def addStr (a b : DecimalText) : DecimalText := formatScaledBigint (a.parseDec.add b.parseDec)

@[simp]
theorem value_zero : zero.value = 0 := by
  have hparse : zero.parseDec = ⟨0, 0⟩ := by decide
  rw [DecimalText.value, hparse]
  simp [Scaled.toRat]

theorem value_formatScaledBigint (d : Scaled) : (formatScaledBigint d).value = d.toRat := by
  obtain ⟨d', hd', hvalue⟩ := denotes_fromScaled d.value d.scale
  have htext := (formatScaledBigint d).toScaled_text
  rw [formatScaledBigint, String.toList_ofList, hd', Option.some.injEq] at htext
  rw [DecimalText.value, formatScaledBigint, ← htext, hvalue]
  rfl

/-- **Adding is exact.** -/
@[simp]
theorem value_addStr (a b : DecimalText) : (addStr a b).value = a.value + b.value := by
  rw [addStr, value_formatScaledBigint, Scaled.toRat_add]
  rfl

/-- A decimal string as `formatScaledBigint` writes it. -/
def DecimalText.IsShortest (d : DecimalText) : Prop := d = formatScaledBigint d.parseDec

/-- A sum is written as a balance that has its value is, if that one is in its shortest form. -/
theorem eq_formatScaledBigint_iff {d : DecimalText} {sum : Scaled} :
    d = formatScaledBigint sum ↔ d.IsShortest ∧ d.value = (formatScaledBigint sum).value := by
  have hcongr : ∀ {a b : Scaled}, a.toRat = b.toRat → formatScaledBigint a = formatScaledBigint b := by
    intro a b h
    rw [formatScaledBigint, formatScaledBigint, DecimalText.mk.injEq, fromScaled_congr h]
  constructor
  · intro h
    refine ⟨h.trans (hcongr ?_), congrArg DecimalText.value h⟩
    rw [← value_formatScaledBigint, ← h]
    rfl
  · rintro ⟨hshortest, hvalue⟩
    refine hshortest.trans (hcongr ?_)
    rw [value_formatScaledBigint] at hvalue
    exact hvalue

/-! ### Signs -/

/-- A minus in front of digits. -/
theorem toScaled_minus {text : List Char} (hminus : text.head? ≠ some '-')
    (hplus : text.head? ≠ some '+') :
    toScaled ('-' :: text) = (toScaled text).map fun d => ⟨-d.value, d.scale⟩ := by
  have hsign : splitSign text = (false, text) := by
    refine splitSign_digits fun c hc => ⟨?_, ?_⟩
    · rintro rfl
      exact hminus hc
    · rintro rfl
      exact hplus hc
  have hnegative : splitSign ('-' :: text) = (true, text) := rfl
  simp only [toScaled, hsign, hnegative, Option.map_map]
  refine congrArg (Option.map · _) (funext fun digits => ?_)
  simp

namespace UnsignedText

/-- The string with a minus in front of it. -/
def negated (s : UnsignedText) : DecimalText :=
  if s.text = "0" then zero
  else ⟨"-" ++ s.text, by
    have hlist : ("-" ++ s.text).toList = '-' :: s.text.toList := by rw [String.toList_append]; rfl
    rw [hlist]
    refine ⟨by simp, ?_⟩
    rw [toScaled_minus s.unsigned s.isDecimal.1, Option.isSome_map]
    exact s.isDecimal.2⟩

theorem value_nonneg (s : UnsignedText) : 0 ≤ s.value := by
  have hsign : splitSign s.text.toList = (false, s.text.toList) := by
    refine splitSign_digits fun c hc => ⟨?_, ?_⟩
    · rintro rfl
      exact s.unsigned hc
    · rintro rfl
      exact s.isDecimal.1 hc
  have hread := s.toScaled_text
  simp only [toScaled, hsign] at hread
  obtain ⟨digits, -, hdigits⟩ := Option.map_eq_some_iff.mp hread
  rw [DecimalText.value, ← hdigits, Scaled.toRat]
  simp only [Bool.false_eq_true, if_false, one_mul]
  positivity

@[simp]
theorem value_negated (s : UnsignedText) : s.negated.value = -s.value := by
  by_cases hzero : s.text = "0"
  · have hparse := s.toScaled_text
    have hread : toScaled "0".toList = some ⟨0, 0⟩ := by decide
    rw [hzero, hread, Option.some.injEq] at hparse
    rw [negated, if_pos hzero, value_zero, DecimalText.value, ← hparse]
    simp [Scaled.toRat]
  · have hparse := s.negated.toScaled_text
    have hlist : s.negated.text.toList = '-' :: s.text.toList := by
      rw [negated, if_neg hzero, String.toList_append]
      rfl
    rw [hlist, toScaled_minus s.unsigned s.isDecimal.1, s.toScaled_text, Option.map_some,
      Option.some.injEq] at hparse
    rw [DecimalText.value, ← hparse, DecimalText.value, Scaled.toRat, Scaled.toRat]
    push_cast
    rw [neg_div]

end UnsignedText

/-- An amount without a sign and without the blanks around it. -/
def unsignedDecimal (amount : String) : Option UnsignedText :=
  let decimal := String.ofList (jsTrim amount.toList)
  if h : IsDecimal decimal.toList ∧ decimal.toList.head? ≠ some '-' then some ⟨⟨decimal, h.1⟩, h.2⟩
  else none

def neg (amount : String) : Option DecimalText := (unsignedDecimal amount).map UnsignedText.negated

def pos (amount : String) : Option DecimalText :=
  (unsignedDecimal amount).map UnsignedText.toDecimalText

/-- The rest of a decimal string behind its minus. -/
theorem isDecimal_tail {text : List Char} (h : IsDecimal text) (hminus : text.head? = some '-') :
    IsDecimal text.tail ∧ text.tail.head? ≠ some '-' := by
  obtain ⟨rest, rfl⟩ := List.head?_eq_some_iff.mp hminus
  have hsign : splitSign ('-' :: rest) = (true, rest) := rfl
  obtain ⟨digits, hdigits⟩ : ∃ digits, splitDigits rest = some digits := by
    have hsome := h.2
    simp only [toScaled, hsign, Option.isSome_map] at hsome
    exact Option.isSome_iff_exists.mp hsome
  -- neither sign begins a text of digits
  have hnone : ∀ c : Char, c.isDigit = false → c ≠ '.' → rest.head? ≠ some c := by
    intro c hc hpoint hhead
    obtain ⟨more, rfl⟩ := List.head?_eq_some_iff.mp hhead
    have hspan : (([] : List Char) ++ c :: more).span Char.isDigit = ([], c :: more) :=
      span_digits rfl (by simpa using hc)
    rw [List.nil_append] at hspan
    simp only [splitDigits, hspan] at hdigits
    cases hdigits
  have hminus' := hnone '-' (by decide) (by decide)
  have hplus := hnone '+' (by decide) (by decide)
  refine ⟨⟨hplus, ?_⟩, hminus'⟩
  have hread := toScaled_minus hminus' hplus
  have hsome := h.2
  rw [hread, Option.isSome_map] at hsome
  exact hsome

def stripLeadingMinus (d : DecimalText) : UnsignedText :=
  if h : d.text.toList.head? = some '-' then
    ⟨⟨String.ofList d.text.toList.tail, by
        rw [String.toList_ofList]
        exact (isDecimal_tail d.isDecimal h).1⟩, by
      rw [String.toList_ofList]
      exact (isDecimal_tail d.isDecimal h).2⟩
  else ⟨d, h⟩

@[simp]
theorem value_stripLeadingMinus (d : DecimalText) : (stripLeadingMinus d).value = |d.value| := by
  have hnonneg := (stripLeadingMinus d).value_nonneg
  by_cases h : d.text.toList.head? = some '-'
  · have hvalue : d.value = -(stripLeadingMinus d).value := by
      obtain ⟨rest, hrest⟩ := List.head?_eq_some_iff.mp h
      have hstrip : (stripLeadingMinus d).text.toList = rest := by
        rw [stripLeadingMinus, dif_pos h, String.toList_ofList, hrest, List.tail_cons]
      have hparse := d.toScaled_text
      have hdigits := (stripLeadingMinus d).toScaled_text
      have htail := isDecimal_tail d.isDecimal h
      rw [hrest, List.tail_cons] at htail
      rw [hstrip] at hdigits
      rw [hrest, toScaled_minus htail.2 htail.1.1, hdigits, Option.map_some, Option.some.injEq] at hparse
      rw [DecimalText.value, ← hparse, DecimalText.value, Scaled.toRat, Scaled.toRat]
      push_cast
      rw [neg_div]
    rw [hvalue, abs_neg, abs_of_nonneg hnonneg]
  · have hstrip : stripLeadingMinus d = ⟨d, h⟩ := by rw [stripLeadingMinus, dif_neg h]
    rw [hstrip] at hnonneg ⊢
    exact (abs_of_nonneg hnonneg).symm

def subStr (a b : DecimalText) : DecimalText := addStr a (stripLeadingMinus b).negated

@[simp]
theorem value_subStr (a b : DecimalText) : (subStr a b).value = a.value - |b.value| := by
  rw [subStr, value_addStr, UnsignedText.value_negated, value_stripLeadingMinus, sub_eq_add_neg]

end XchainWallet.TxSimulator
