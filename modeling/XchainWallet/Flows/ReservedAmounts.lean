import XchainWallet.Flows.ReservationLedger
import XchainWallet.Shared.DecimalSums

/-!
# The amounts of reservations

A reservation keeps its amount as a text. `toPlainDecimal` takes a plain decimal as it is, expands
the exponent form of a number, which is how a script shows small and large ones, and reads nothing
else: a sign makes an amount unreadable. An expansion that does not fit into a text throws.

`reservedAmount` says what a text denotes that the code reads, and `exactAmount` what a text denotes
under a sign or without one.
-/

namespace XchainWallet

open Decimal

/-- What an unreadable amount is netted as: more than any balance. -/
def unreadableReservation : List Char := "1000000000000000000000000000000".toList

/-- The mantissa and the exponent, as `^(\d+)(?:\.(\d+))?[eE]([+-]?\d+)$` matches them. -/
def exponentForm (text : List Char) : Option (Plain × ℤ) :=
  match text.span fun c => c ≠ 'e' && c ≠ 'E' with
  | (_, []) => none
  | (mantissa, _ :: exponent) =>
    let (negative, digits) := splitSign exponent
    if Digits digits then
      (Plain.parse mantissa).map (·, if negative then -digitsValue digits else digitsValue digits)
    else none

/-- `count` zeros between two texts, where the whole fits. -/
def withZeros (limits : EngineLimits) (before : List Char) (count : ℕ) (after : List Char) :
    Except EngineLimit (List Char) :=
  if limits.text < before.length + count + after.length then .error .text
  else .ok (before ++ List.replicate count '0' ++ after)

/-- The mantissa with the point moved by the exponent. -/
def expanded (limits : EngineLimits) (mantissa : Plain) (exponent : ℤ) :
    Except EngineLimit (List Char) :=
  let digits := mantissa.whole ++ mantissa.frac
  let point := mantissa.whole.length + exponent
  if point ≤ 0 then withZeros limits ['0', '.'] (-point).toNat digits
  else if digits.length ≤ point then withZeros limits digits (point - digits.length).toNat []
  else .ok (digits.take point.toNat ++ '.' :: digits.drop point.toNat)

def toPlainDecimal (limits : EngineLimits) (raw : String) :
    Except EngineLimit (Option (List Char)) :=
  let s := jsTrim raw.toList
  if (Plain.parse s).isSome then .ok (some s)
  else
    match exponentForm s with
    | none => .ok none
    | some (mantissa, exponent) => (expanded limits mantissa exponent).map some

/-! ### What a text denotes -/

/-- The number of a text without a sign, in plain or in exponent form. -/
def unsignedValue (text : List Char) : Option ℚ :=
  ((Plain.parse text).map Plain.value).or
    ((exponentForm text).map fun (mantissa, exponent) => mantissa.value * 10 ^ exponent)

/-- The number that the code reads an amount as. -/
def reservedAmount (raw : String) : Option ℚ := unsignedValue (jsTrim raw.toList)

variable {limits : EngineLimits}

/-- How far the digits of an amount can reach when it is written out. -/
def amountReach (raw : String) : ℕ :=
  let s := jsTrim raw.toList
  s.length + 2 + (exponentForm s).elim 0 fun (_, exponent) => exponent.natAbs

/-- What an amount is netted as. -/
def nettedText (plain : Option (List Char)) : List Char := plain.getD unreadableReservation

/-- What an amount is netted for: its number, or the large one where it is not read. -/
def nettedValue (raw : String) : ℚ := (reservedAmount raw).getD (10 ^ 30)

end XchainWallet
