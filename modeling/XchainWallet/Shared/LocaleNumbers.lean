import XchainWallet.Decimal.Canonical
import XchainWallet.Js.Text

/-!
# Numbers in the writing of a locale

`formatWithThousands` groups the digits of a decimal and writes them in the digits and separators of
a locale; `normalizeLocalizedDecimal` reads what a user types. Both take the locale's syntax, as the
number formatter of the platform reports it. The reader maps the separators to ASCII marks and then
decides which mark is the decimal one, from the order of the marks and from the locale.
-/

namespace XchainWallet

open Decimal

/-- What `localeNumberSeparators(locale)` reports: separators, the ten digits, and the sizes of the
last group and of those before it. -/
structure LocaleSyntax where
  decimal : Char
  group : Char
  digits : Fin 10 → Char
  primary : ℕ
  secondary : ℕ
  primary_pos : 0 < primary
  secondary_pos : 0 < secondary

/-- `String(index)` of a digit. -/
def asciiDigit (i : Fin 10) : Char := Nat.digitChar i

/-- `Number(digit)` of an ASCII digit. -/
def digitIndex (c : Char) : Fin 10 := Fin.ofNat 10 (c.toNat - '0'.toNat)

/-- `text.split(a).join(b)` -/
def replaceAll (a b : Char) (text : List Char) : List Char :=
  text.map fun c => if c = a then b else c

/-! ### Writing -/

/-- `^([+-]?)(?:(\d+)(?:\.(\d*))?|\.(\d+))[eE]([+-]?\d+)$` without its sign: the digits before the
point, those behind it, and the exponent. -/
def scientific (unsigned : List Char) : Option (List Char × List Char × ℤ) := do
  let (integer, fraction) ← splitDigits (unsigned.takeWhile (· ∉ ['e', 'E']))
  match unsigned.dropWhile (· ∉ ['e', 'E']) with
  | [] => none
  | _ :: exponent =>
    let (negative, digits) := splitSign exponent
    if Digits digits then
      some (integer, fraction, if negative then -digitsValue digits else digitsValue digits)
    else none

/-- `MAX_EXPANDED_DECIMAL_DIGITS` -/
def maxExpandedDecimalDigits : ℕ := 10000

def expandDecimalNotation (value : List Char) : List Char :=
  let raw := jsTrim value
  let (sign, unsigned) := raw.span (· ∈ ['+', '-'])
  if 1 < sign.length then raw
  else if (Plain.parse unsigned).isSome then raw
  else
    match scientific unsigned with
    | none => raw
    | some (integer, fraction, exponent) =>
      let digits := integer ++ fraction
      if digits.all (· = '0') then ['0']
      else
        let decimalPosition := integer.length + exponent
        let expandedLength : ℤ :=
          if decimalPosition ≤ 0 then 2 - decimalPosition + digits.length
          else if digits.length ≤ decimalPosition then decimalPosition
          else digits.length + 1
        if maxExpandedDecimalDigits < expandedLength then []
        else
          sign ++
            if decimalPosition ≤ 0 then
              ['0', '.'] ++ List.replicate (-decimalPosition).toNat '0' ++ digits
            else if digits.length ≤ decimalPosition then
              digits ++ List.replicate (decimalPosition - digits.length).toNat '0'
            else
              digits.take decimalPosition.toNat ++ '.' :: digits.drop decimalPosition.toNat

/-- The groups of the digits from the last to the first. A loop over the end of the ungrouped
digits, which takes at most as many turns as there are digits. -/
def groupedParts (secondary : ℕ) : ℕ → ℕ → List Char → List (List Char)
  | 0, _, front => [front]
  | turns + 1, groupSize, front =>
    if groupSize < front.length then
      groupedParts secondary turns secondary (front.take (front.length - groupSize)) ++
        [front.drop (front.length - groupSize)]
    else [front]

def localizeDigits (digits : Fin 10 → Char) (text : List Char) : List Char :=
  text.map fun c => if c.isDigit then digits (digitIndex c) else c

def formatWithThousands (syn : LocaleSyntax) (value : List Char) : List Char :=
  if value = [] then []
  else
    let str := expandDecimalNotation value
    let negative := str.head? = some '-'
    let abs := if negative then str.tail else str
    let intPart := abs.takeWhile (· ≠ '.')
    let fracPart := abs.dropWhile (· ≠ '.')
    if ¬Digits intPart ∧ ¬(intPart = [] ∧ abs.head? = some '.') then str
    else
      let grouped := [syn.group].intercalate
        (groupedParts syn.secondary intPart.length syn.primary intPart)
      let localizedFraction := if fracPart = [] then [] else syn.decimal :: fracPart.tail
      signText negative ++ localizeDigits syn.digits grouped ++
        localizeDigits syn.digits localizedFraction

/-! ### Reading -/

namespace LocaleSyntax

/-- The ASCII mark that the decimal separator is mapped to. -/
def asciiDecimal (syn : LocaleSyntax) : Char := if syn.decimal = ',' then ',' else '.'

/-- The ASCII mark that the group separator is mapped to. -/
def asciiGroup (syn : LocaleSyntax) : Char :=
  if syn.group = '.' ∨ syn.group = ',' then syn.group else if isJsSpace syn.group then ' ' else ','

end LocaleSyntax

def normalizeLocaleNumberCharacters (syn : LocaleSyntax) (value : List Char) : List Char :=
  let ascii := (List.finRange 10).foldl (fun text i =>
    if syn.digits i = asciiDigit i then text
    else replaceAll (syn.digits i) (asciiDigit i) text) value
  let marked := if syn.decimal = syn.asciiDecimal then ascii
    else replaceAll syn.decimal syn.asciiDecimal ascii
  if syn.group = syn.asciiGroup then marked else replaceAll syn.group syn.asciiGroup marked

/-- Digits, so many at least and so many at most. -/
def isDigits (least most : ℕ) (piece : List Char) : Bool :=
  piece.all Char.isDigit && least ≤ piece.length && piece.length ≤ most

/-- The integer is made of groups of three, of Indian groups, or of the groups of the locale. -/
def validGroupedInteger (value separators : List Char) (grouping : Option (ℕ × ℕ)) : Bool :=
  let active := separators.filter (· ∈ value)
  if active = [] then decide (Digits value)
  else
    let pieces := value.splitOnP (· ∈ active)
    let first := pieces.headD []
    let last := pieces.getLastD []
    let middle := pieces.tail.dropLast
    let western := isDigits 1 3 first && pieces.tail.all (isDigits 3 3)
    let indian := 2 < pieces.length && isDigits 1 2 first && middle.all (isDigits 2 2) &&
      isDigits 3 3 last
    western || indian || match grouping with
      | none => false
      | some (primary, secondary) => isDigits 1 secondary first &&
          middle.all (isDigits secondary secondary) && isDigits primary primary last

def validLocaleGroupedInteger (value separators : List Char) (grouping : ℕ × ℕ) : Bool :=
  validGroupedInteger value separators (some grouping) || validGroupedInteger value separators none

def removeGrouping (value separators : List Char) : List Char :=
  separators.foldl (fun result separator => result.filter (· ≠ separator)) value

/-- A space that a reader takes for a group separator. -/
def isInlineSpace (c : Char) : Bool := c ∈ [' ', '\t', '\u00a0', '\u202f']

/-- `replace(/[ \t\u00a0\u202f]+/g, ' ')`, after a space or not. -/
def collapseSpaces : Bool → List Char → List Char
  | _, [] => []
  | afterSpace, c :: rest =>
    if isInlineSpace c then
      if afterSpace then collapseSpaces true rest else ' ' :: collapseSpaces true rest
    else c :: collapseSpaces false rest

/-- The decimal, with its mark known and the other mark, where there is one, for its groups. -/
def splitAtDecimal (syn : LocaleSyntax) (raw : List Char) (decimal : Char) (group : Option Char) :
    Option (List Char) :=
  match raw.splitOn decimal with
  | [integerRaw, fraction] =>
    let integerGroups := group.toList ++ [' ']
    let integer :=
      if integerGroups.any (· ∈ integerRaw) then
        let valid := if group = some syn.asciiGroup
          then validLocaleGroupedInteger integerRaw integerGroups (syn.primary, syn.secondary)
          else validGroupedInteger integerRaw integerGroups none
        if valid then some (removeGrouping integerRaw integerGroups) else none
      else if integerRaw.all Char.isDigit then some integerRaw else none
    if fraction.all Char.isDigit then
      integer.map fun integer =>
        if integer = [] ∧ fraction = [] then ['.'] else integer ++ '.' :: fraction
    else none
  | _ => none

/-- The second half of `normalizeLocalizedDecimal`: which mark is the decimal mark. -/
def readMarks (syn : LocaleSyntax) (raw : List Char) : Option (List Char) :=
  let grouping := (syn.primary, syn.secondary)
  if '.' ∈ raw ∧ ',' ∈ raw then
    -- the last mark is the decimal mark
    if raw.reverse.idxOf '.' < raw.reverse.idxOf ',' then splitAtDecimal syn raw '.' (some ',')
    else splitAtDecimal syn raw ',' (some '.')
  else if '.' ∉ raw ∧ ',' ∉ raw then
    if validLocaleGroupedInteger raw [' '] grouping then some (removeGrouping raw [' '])
    else none
  else
    let separator := if '.' ∈ raw then '.' else ','
    let groups := [separator, ' ']
    if 1 < raw.count separator then
      let valid := if separator = syn.asciiGroup
        then validLocaleGroupedInteger raw groups grouping
        else validGroupedInteger raw groups none
      if valid then some (removeGrouping raw groups) else none
    else if separator = syn.asciiGroup ∧ separator ≠ syn.asciiDecimal ∧
        validLocaleGroupedInteger raw groups grouping then
      some (removeGrouping raw groups)
    else splitAtDecimal syn raw separator none

/-- `none` is `null`. -/
def normalizeLocalizedDecimal (syn : LocaleSyntax) (value : List Char) : Option (List Char) :=
  let trimmed := jsTrim value
  if trimmed = [] then some []
  else
    let normalized := normalizeLocaleNumberCharacters syn trimmed
    if normalized.all (fun c => c.isDigit || c ∈ ['.', ','] || isInlineSpace c) then
      readMarks syn (collapseSpaces false normalized)
    else none

end XchainWallet
