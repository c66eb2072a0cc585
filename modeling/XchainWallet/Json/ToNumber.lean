import XchainWallet.Decimal.Scaled
import XchainWallet.Js.Text
import XchainWallet.Json.Number

/-!
# Reading a text as a number

`Number(text)` reads more than the grammar of JSON: blanks around the number, an empty text as zero,
zeros in front, a point with digits on one side of it only, `Infinity`, and integers in the radixes
2, 8 and 16. Any other text is not a number.
-/

namespace Json

open Decimal XchainWallet

/-- The radix behind the zero of an integer, by its letter. -/
def radixOf (c : Char) : Option ℕ :=
  if c = 'x' ∨ c = 'X' then some 16
  else if c = 'o' ∨ c = 'O' then some 8
  else if c = 'b' ∨ c = 'B' then some 2
  else none

/-- The value of a digit or a letter in a radix. -/
def digitIn (radix : ℕ) (c : Char) : Option ℕ :=
  let value :=
    if c.isDigit then c.toNat - '0'.toNat
    else if 'a' ≤ c.toLower ∧ c.toLower ≤ 'f' then c.toLower.toNat - 'a'.toNat + 10
    else radix
  if value < radix then some value else none

/-- The value of the digits in a radix, where there are any and no others. -/
def radixDigits (radix : ℕ) : List Char → Option ℕ
  | [] => none
  | digits => (digits.mapM (digitIn radix)).map (List.foldl (fun n d => n * radix + d) 0)

/-- An integer in a radix that its text names. -/
def radixLiteral : List Char → Option ℕ
  | '0' :: c :: digits => (radixOf c).bind fun radix => radixDigits radix digits
  | _ => none

/-- The digits behind a point, none where there is no point. -/
def afterPoint : List Char → List Char × List Char
  | '.' :: rest => (rest.takeWhile Char.isDigit, rest.dropWhile Char.isDigit)
  | text => ([], text)

/-- A decimal number without a sign, as its digits and the exponent they have. -/
def decimalLiteral (text : List Char) : Option (ℕ × ℤ) :=
  let whole := text.takeWhile Char.isDigit
  let (fraction, rest) := afterPoint (text.dropWhile Char.isDigit)
  if whole = [] ∧ fraction = [] then none
  else (readExponent rest).bind fun (exponent, rest') =>
    if rest' = [] then some (digitsValue (whole ++ fraction), exponent - fraction.length) else none

/-- A decimal number behind its sign. -/
def signedLiteral (negative : Bool) (text : List Char) : Number :=
  if text = "Infinity".toList then .infinite negative
  else match decimalLiteral text with
    | some (digits, exponent) => .ofMagnitude negative (ofDecimal digits exponent)
    | none => .nan

/-- `Number(text)`. -/
def numberOf (text : String) : Number :=
  let raw := jsTrim text.toList
  if raw = [] then .ofDigits 0 0
  else match radixLiteral raw with
    | some n => .ofDigits n 0
    | none => signedLiteral (splitSign raw).1 (splitSign raw).2

/-- `number === 0`. -/
def Number.isZero : Number → Bool
  | .finite units _ => units = 0
  | _ => false

/-- `Number.isFinite(number) && number > 0`. -/
def Number.isPositive : Number → Bool
  | .finite units _ => 0 < units
  | _ => false

/-! ### Texts of digits -/

end Json
