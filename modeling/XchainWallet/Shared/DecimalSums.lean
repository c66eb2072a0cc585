import Mathlib.Algebra.BigOperators.Ring.List
import Mathlib.Algebra.Order.BigOperators.Group.List
import XchainWallet.Checks.Refuse
import XchainWallet.Decimal.Canonical
import XchainWallet.Js.Text

/-!
# Sums of decimal texts

`sumDecimalStrings` adds texts that are plain decimals, with a minus sign or none, as integers over
the widest fraction among them. A text that is no plain decimal is left out. The engine holds texts
and integers up to a size only, and throws beyond it.
-/

namespace XchainWallet

open Checks Decimal

/-- The most characters of a text, and the largest magnitude of an integer. -/
structure EngineLimits where
  text : ℕ
  integer : ℕ

/-- What has grown past the engine. -/
inductive EngineLimit
  | text
  | integer
  deriving DecidableEq

/-- A value that `sumDecimalStrings` adds. -/
structure SumEntry where
  negative : Bool
  digits : Plain

open SumEntry

namespace SumEntry

/-- The value as `^-?\d+(\.\d+)?$` matches it, without the space around it. -/
def read (value : List Char) : Option SumEntry :=
  match jsTrim value with
  | '-' :: abs => (Plain.parse abs).map (⟨true, ·⟩)
  | s => (Plain.parse s).map (⟨false, ·⟩)

/-- The digits with the fraction padded to the scale, under the sign. -/
def units (entry : SumEntry) (scale : ℕ) : ℤ :=
  if entry.negative then -entry.digits.scaled scale else entry.digits.scaled scale

/-- The number that it denotes. -/
def value (entry : SumEntry) : ℚ :=
  if entry.negative then -entry.digits.value else entry.digits.value

end SumEntry

/-- The total grows by one entry. The engine builds the padded digits, reads them and adds. -/
def addScaled (limits : EngineLimits) (scale : ℕ) (total : ℤ) (entry : SumEntry) :
    Except EngineLimit ℤ := do
  refuseIf (limits.text < entry.digits.whole.length + scale) .text
  refuseIf (limits.integer < entry.digits.scaled scale) .integer
  refuseIf (limits.integer < (total + entry.units scale).natAbs) .integer
  return total + entry.units scale

/-- The total with the point before its last `scale` digits. -/
def decimalText (scale : ℕ) (total : ℤ) : List Char :=
  let sign := if total < 0 then ['-'] else []
  if scale = 0 then sign ++ total.natAbs.repr.toList
  else
    let digits := paddedDigits total.natAbs scale
    sign ++ (digits.take (digits.length - scale) ++ '.' :: digits.drop (digits.length - scale))

/-- The widest fraction. -/
def widest (entries : List SumEntry) : ℕ :=
  entries.foldl (fun scale entry => max scale entry.digits.frac.length) 0

def sumDecimalStrings (limits : EngineLimits) (values : List (List Char)) :
    Except EngineLimit (List Char) :=
  let parsed := values.filterMap read
  let scale := widest parsed
  if parsed = [] then .ok ['0']
  else (parsed.foldlM (addScaled limits scale) 0).map (decimalText scale)

/-- `sumDecimalStrings` where the engine holds every text and integer. -/
def sumDecimals (values : List (List Char)) : List Char :=
  let parsed := values.filterMap read
  let scale := widest parsed
  if parsed = [] then ['0'] else decimalText scale (parsed.map (·.units scale)).sum

/-! ### The entries -/

variable {text : List Char}

/-- A plain decimal is made of digits and points, and begins with a digit. -/
theorem plain_chars {p : Plain} (h : Plain.parse text = some p) :
    (∀ c ∈ text, c.isDigit ∨ c = '.') ∧ ∃ c rest, text = c :: rest ∧ c.isDigit := by
  obtain ⟨⟨hne, hwhole⟩, hrest⟩ := Plain.parse_eq_some.mp h
  obtain ⟨c, cs, hcs⟩ := List.exists_cons_of_ne_nil hne
  have hc : c.isDigit := by
    rw [hcs, List.all_cons, Bool.and_eq_true] at hwhole
    exact hwhole.1
  have hdigit := List.all_eq_true.mp hwhole
  rcases hrest with ⟨-, rfl⟩ | ⟨hfrac, rfl⟩
  · exact ⟨fun d hd => .inl (hdigit d hd), c, cs, hcs, hc⟩
  · refine ⟨fun d hd => ?_, c, cs ++ '.' :: p.frac, by rw [hcs, List.cons_append], hc⟩
    rcases List.mem_append.mp hd with hd | hd
    · exact .inl (hdigit d hd)
    · rcases List.mem_cons.mp hd with rfl | hd
      · exact .inr rfl
      · exact .inl (List.all_eq_true.mp hfrac.2 d hd)

/-- A sum reads a plain decimal as it is. -/
theorem SumEntry.read_plain {p : Plain} (h : Plain.parse text = some p) :
    read text = some ⟨false, p⟩ := by
  obtain ⟨hchars, c, rest, rfl, hc⟩ := plain_chars h
  have htrim : jsTrim (c :: rest) = c :: rest := by
    refine jsTrim_eq_self _ fun d hd => ?_
    rcases hchars d hd with hd | rfl
    · exact isJsSpace_of_isDigit hd
    · decide
  rw [read, htrim]
  split
  · rename_i heq
    cases heq
    exact absurd hc (by decide)
  · rw [h, Option.map_some]

variable {entry : SumEntry} {scale : ℕ}

/-- The padded digits are the value times the power of ten. -/
theorem SumEntry.units_eq (h : entry.digits.frac.length ≤ scale) :
    (entry.units scale : ℚ) = entry.value * 10 ^ scale := by
  have hscaled := Plain.scaled_eq h
  rw [units, value]
  split
  · rw [Int.cast_neg, Int.cast_natCast, hscaled, neg_mul]
  · rw [Int.cast_natCast, hscaled]

theorem le_foldl_max (entries : List SumEntry) (start : ℕ) :
    let scale := entries.foldl (fun scale entry => max scale entry.digits.frac.length) start
    start ≤ scale ∧ ∀ entry ∈ entries, entry.digits.frac.length ≤ scale := by
  induction entries generalizing start with
  | nil => exact ⟨le_rfl, by simp⟩
  | cons entry entries ih =>
    obtain ⟨hstart, hrest⟩ := ih (max start entry.digits.frac.length)
    refine ⟨(le_max_left _ _).trans hstart, ?_⟩
    rw [List.forall_mem_cons]
    exact ⟨(le_max_right _ _).trans hstart, hrest⟩

variable {entries : List SumEntry}

/-- No fraction is wider than the widest. -/
theorem length_le_widest (h : entry ∈ entries) : entry.digits.frac.length ≤ widest entries :=
  (le_foldl_max entries 0).2 entry h

variable {limits : EngineLimits}

/-- The text of the total is a sign and the digits cut at the scale. -/
theorem decimalText_eq (scale : ℕ) (total : ℤ) :
    decimalText scale total = signText (total < 0) ++ (Plain.ofScaled total.natAbs scale).text := by
  have hsign : signText (total < 0) = if total < 0 then ['-'] else [] := by
    simp [signText]
  have hlength := Plain.length_frac_ofScaled total.natAbs scale
  rw [decimalText, Plain.text]
  by_cases hscale : scale = 0
  · subst hscale
    have hfrac : (Plain.ofScaled total.natAbs 0).frac = [] := List.eq_nil_of_length_eq_zero hlength
    have hwhole := Plain.ofScaled_append total.natAbs 0
    rw [hfrac, List.append_nil, paddedDigits_zero] at hwhole
    rw [if_pos rfl, if_pos hfrac, List.append_nil, hwhole, hsign]
  · have hfrac : (Plain.ofScaled total.natAbs scale).frac ≠ [] := by
      intro hnil
      rw [hnil] at hlength
      exact hscale hlength.symm
    rw [if_neg hscale, if_neg hfrac, hsign]
    rfl

/-- The text of the total denotes the total over the power of ten. -/
theorem denotes_decimalText (scale : ℕ) (total : ℤ) :
    Denotes (decimalText scale total) (total / 10 ^ scale) := by
  rw [decimalText_eq]
  exact denotes_signText (Plain.tidy_ofScaled _ _) (Plain.value_ofScaled _ _)

/-! ### The sum -/

/-- The units at the widest scale add up to the sum of the entries, times the power of ten. -/
theorem sum_units (entries : List SumEntry) :
    (((entries.map (units · (widest entries))).sum : ℤ) : ℚ) =
      (entries.map value).sum * 10 ^ widest entries := by
  rw [← List.sum_map_mul_right]
  refine (map_list_sum (Int.castRingHom ℚ) _).trans ?_
  rw [List.map_map]
  refine congrArg List.sum (List.map_congr_left fun entry hentry => ?_)
  exact units_eq (length_le_widest hentry)

/-- **Sums are exact.** -/
theorem denotes_sumDecimals (values : List (List Char)) :
    Denotes (sumDecimals values) ((values.filterMap read).map value).sum := by
  rw [sumDecimals]
  generalize values.filterMap read = entries
  by_cases hnone : entries = []
  · rw [if_pos hnone, hnone]
    exact ⟨⟨0, 0⟩, by decide, by norm_num [Scaled.toRat]⟩
  · have hdenotes := denotes_decimalText (widest entries)
      (entries.map (units · (widest entries))).sum
    rw [sum_units, mul_div_cancel_right₀ _ (by positivity)] at hdenotes
    rw [if_neg hnone]
    exact hdenotes

variable {values : List (List Char)}

end XchainWallet
