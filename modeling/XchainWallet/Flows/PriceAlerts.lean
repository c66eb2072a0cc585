import XchainWallet.Js.Text

/-!
# Price alerts

The records of price alerts and what the calls that write them make of a record: `saveAlert` adds an
alert, or edits one and arms it again, `rearmAlert` arms a triggered one, and `markAlertTriggered`
disarms one that has fired, unless its terms have changed since.
-/

namespace XchainWallet

inductive AlertDirection
  | above
  | below
deriving DecidableEq

inductive AlertStatus
  | armed
  | triggered
deriving DecidableEq

structure PriceAlert where
  id : String
  walletId : String
  chainId : String
  direction : AlertDirection
  targetFiat : ℚ
  fiatCurrency : String
  status : AlertStatus
  triggeredAt : Option ℤ
deriving DecidableEq

/-- What an alert is about: the parts of its key. -/
structure AlertTerms where
  chainId : String
  direction : AlertDirection
  targetFiat : ℚ
  fiatCurrency : List Char
deriving DecidableEq

/-- `String(fiatCurrency || 'usd').toLowerCase()`. -/
def fiatCode (fiatCurrency : String) : List Char :=
  (if fiatCurrency = "" then "usd" else fiatCurrency).toList.flatMap jsLower

namespace PriceAlert

/-- `priceAlertKey(alert)` and `alertTerms(alert)`, which are the same. -/
def terms (a : PriceAlert) : AlertTerms :=
  ⟨a.chainId, a.direction, a.targetFiat, fiatCode a.fiatCurrency⟩

/-- The alert armed again. -/
def rearmed (a : PriceAlert) : PriceAlert := { a with status := .armed, triggeredAt := none }

/-- The alert after it has fired. -/
def triggered (a : PriceAlert) (time : ℤ) : PriceAlert :=
  { a with status := .triggered, triggeredAt := some time }

end PriceAlert

structure SaveAlertInput where
  id : Option String
  walletId : String
  chainId : String
  direction : AlertDirection
  targetFiat : ℚ
  fiatCurrency : String

/-- The edit of an existing alert, and `none` where the call throws. -/
def editAlert (existing : List PriceAlert) (input : SaveAlertInput) (id : String) :
    Option PriceAlert :=
  (existing.find? (·.id = id)).bind fun current =>
    let edited := { current with
      chainId := input.chainId
      direction := input.direction
      targetFiat := input.targetFiat
      fiatCurrency := String.ofList (fiatCode input.fiatCurrency)
      status := .armed
      triggeredAt := none }
    if existing.any fun alert => alert.id ≠ id ∧ alert.terms = edited.terms then none
    else some edited

/-- A new alert, or the one that matches it, armed again where it had fired. -/
def addAlert (existing : List PriceAlert) (input : SaveAlertInput) (newId : String) :
    Option PriceAlert :=
  let record : PriceAlert := {
    id := newId
    walletId := input.walletId
    chainId := input.chainId
    direction := input.direction
    targetFiat := input.targetFiat
    fiatCurrency := String.ofList (fiatCode input.fiatCurrency)
    status := .armed
    triggeredAt := none }
  match existing.find? (·.terms = record.terms) with
  | some found => if found.status = .triggered then some found.rearmed else none
  | none => some record

/-- The record that `saveAlert` writes once it has read the wallet's alerts. `none` is a call that
throws or finds the alert armed already. -/
def saveAlert (alerts : List PriceAlert) (input : SaveAlertInput) (newId : String) :
    Option PriceAlert :=
  if input.walletId = "" ∨ input.chainId = "" ∨ input.targetFiat ≤ 0 then none
  else
    let existing := alerts.filter (·.walletId = input.walletId)
    match input.id.filter (· ≠ "") with
    | some id => editAlert existing input id
    | none => addAlert existing input newId

/-- The record that `rearmAlert` writes once it has read the alert. -/
def rearmAlert (alert : Option PriceAlert) (walletId : Option String) : Option PriceAlert :=
  (alert.filter fun a => ∀ wallet ∈ walletId.filter (· ≠ ""), a.walletId = wallet).map
    PriceAlert.rearmed

/-- Whether `markAlertTriggered` goes on to write the alert that it has read. -/
def markable (alert : PriceAlert) (terms : Option AlertTerms) : Bool :=
  ∀ given ∈ terms, alert.terms = given

end XchainWallet
