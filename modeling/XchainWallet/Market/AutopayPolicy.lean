import XchainWallet.Market.AutopayOrder
import XchainWallet.Market.ObligationStatus

/-!
# The auto-pay decision

`evaluateObligation` decides on one pending obligation: pay, wait, skip, or leave it to a manual
notification. It is a chain of refusals over fields that may be missing or malformed, read in
the order of the source; what gets through all of them is paid. The function is pure: the tip,
the clock and the match row come in as arguments.
-/

namespace XchainWallet

open Decimal

/-! ### Inputs -/

/-- An obligation row. A field that the source reads under two spellings stands here once, as
the first of them that is present. -/
structure CoinpayObligation where
  coinpayStatus : JsField
  actionIndex : String
  expiration : JsNumber
  blockIndex : JsNumber
  coinAmount : JsField
  deriving DecidableEq

/-- A row of the order matches. The amounts belong to the order that `getActionIndex` names. -/
structure OrderMatchRow where
  actionIndex : String
  settlementType : JsField
  status : JsField
  giveActionIndex : Option String
  getActionIndex : Option String
  giveAmount : JsField
  getAmount : JsField
  deriving DecidableEq

/-- All that the decision reads. A row that is missing is `none`. -/
structure PolicyInput where
  obligation : Option CoinpayObligation
  consent : Option AutopayOrder
  matchRow : Option OrderMatchRow
  tipHeight : JsNumber
  nowSeconds : ℚ
  alreadyAttempted : Bool
  deriving DecidableEq

/-! ### Decisions -/

/-- What becomes of an obligation that is not paid. -/
inductive Refusal where
  | skip
  | wait
  | notifyManual
  deriving DecidableEq

/-- Why an obligation is not paid. -/
inductive Reason where
  | missingInput | notPending | consentRevoked | noMatchIndex | termsUnparseable | alreadyPaid
  | expired | noDeadline | pastRetryCutoff | pastArmingCutoff | awaitingDepth | matchUnavailable
  | matchMismatch | matchShape | matchInvalid | orderIndexUnresolved | amountsUnavailable
  | amountMismatch | priceExceedsTerms | exceedsGiveBudget
  deriving DecidableEq

/-- The word for a reason. -/
def Reason.word : Reason → String
  | missingInput => "missing-input"
  | notPending => "not-pending"
  | consentRevoked => "consent-revoked"
  | noMatchIndex => "no-match-index"
  | termsUnparseable => "terms-unparseable"
  | alreadyPaid => "already-paid"
  | expired => "expired"
  | noDeadline => "no-deadline"
  | pastRetryCutoff => "past-retry-cutoff"
  | pastArmingCutoff => "past-arming-cutoff"
  | awaitingDepth => "awaiting-depth"
  | matchUnavailable => "match-unavailable"
  | matchMismatch => "match-mismatch"
  | matchShape => "match-shape"
  | matchInvalid => "match-invalid"
  | orderIndexUnresolved => "order-index-unresolved"
  | amountsUnavailable => "amounts-unavailable"
  | amountMismatch => "amount-mismatch"
  | priceExceedsTerms => "price-exceeds-terms"
  | exceedsGiveBudget => "exceeds-give-budget"

/-- A decision: the amount to pay in base units, or a refusal with its reason. -/
abbrev Decision := Except (Refusal × Reason) String

namespace Decision

/-- Refuse where the condition holds. -/
def refuseIf (p : Prop) [Decidable p] (refusal : Refusal) (reason : Reason) :
    Except (Refusal × Reason) Unit :=
  if p then .error (refusal, reason) else .ok ()

/-- Refuse where there is no value. -/
def orRefuse {α : Type} (value : Option α) (refusal : Refusal) (reason : Reason) :
    Except (Refusal × Reason) α :=
  match value with
  | some a => .ok a
  | none => .error (refusal, reason)

variable {α β : Type} {refusal : Refusal} {reason : Reason}

@[simp]
theorem bind_eq_ok {x : Except (Refusal × Reason) α} {f : α → Except (Refusal × Reason) β}
    {b : β} : (x >>= f) = .ok b ↔ ∃ a, x = .ok a ∧ f a = .ok b := by
  cases x with
  | error e | ok a => simp [bind, Except.bind]

@[simp]
theorem refuseIf_eq_ok {p : Prop} [Decidable p] {u : Unit} :
    refuseIf p refusal reason = .ok u ↔ ¬p := by
  by_cases hp : p <;> simp [refuseIf, hp]

@[simp]
theorem orRefuse_eq_ok {value : Option α} {a : α} :
    orRefuse value refusal reason = .ok a ↔ value = some a := by
  cases value <;> simp [orRefuse]

end Decision

/-! ### The policy -/

/-- First-attempt cutoff. -/
def armingCutoffSeconds : ℤ := 45 * 60

/-- Retry cutoff. -/
def retryCutoffSeconds : ℤ := atRiskSeconds

/-- The cutoff that applies to an obligation, attempted before or not. -/
def cutoffSeconds (alreadyAttempted : Bool) : ℤ :=
  if alreadyAttempted then retryCutoffSeconds else armingCutoffSeconds

/-- Confirmations a match needs before auto-pay will act on it. -/
def defaultConfirmDepth : ℚ := 2

/-- Overrides of the depth for single chains: none so far. -/
def confirmDepthByChain : List (String × ℚ) := []

def confirmDepthForChain (chainId : String) : ℚ :=
  (confirmDepthByChain.lookup chainId).getD defaultConfirmDepth

/-- Two decimal strings as integers at one scale, so that their ratio can be cross-multiplied
exactly. -/
def toCommonScale (a b : JsField) : Option (ℕ × ℕ) := do
  let pa ← (← a.text?.map JsField.text).plain?
  let pb ← (← b.text?.map JsField.text).plain?
  let k := max pa.frac.length pb.frac.length
  return (pa.scaled k, pb.scaled k)

/-- What a payment of the ledger paid, where its entry is well formed. -/
def AutopayPayment.base? (p : AutopayPayment) : Option ℕ := do
  let _ ← p.orderMatchActionIndex.nonempty?
  let digits ← p.coinAmountBase.text?
  if Digits digits.toList ∧ digits.toList.any (fun c => '1' ≤ c ∧ c ≤ '9') then
    some (digitsValue digits.toList)
  else none

/-- Base units already paid under a consent record, where its ledger is well formed. -/
def paidBase (consent : AutopayOrder) : Option ℕ :=
  consent.payments.bind fun payments => (payments.mapM AutopayPayment.base?).map List.sum

/-- Remaining budget in base units: the total minus the payments, and not below zero. -/
def remainingGiveBase (consent : AutopayOrder) : Option ℕ := do
  let total ← obligationBaseUnits consent.giveCoinAmount
  let paid ← paidBase consent
  return total - paid

/-- The fills of a match on the side of one order: the coin that it gives and the token that it
gets. -/
structure OrientedFill where
  coinFill : JsField
  tokenFill : JsField
  deriving DecidableEq

/-- Orient a match row against an order: the amounts are mine if I triggered the match, and
mine with the sides exchanged if I am the counterparty. -/
def orientMatch (matchRow : OrderMatchRow) (orderActionIndex : String) : Option OrientedFill :=
  let oriented : Option OrientedFill :=
    if matchRow.getActionIndex = some orderActionIndex then
      some ⟨matchRow.giveAmount, matchRow.getAmount⟩
    else if matchRow.giveActionIndex = some orderActionIndex then
      some ⟨matchRow.getAmount, matchRow.giveAmount⟩
    else none
  oriented.filter fun o => o.coinFill.nonempty?.isSome && o.tokenFill.nonempty?.isSome

/-- The status of a match that the indexer marks as invalid. -/
def OrderMatchRow.invalid (matchRow : OrderMatchRow) : Bool :=
  matchRow.status.text?.any (startsWithNoCase "invalid")

/-- A finite number above zero. -/
def positive? (n : JsNumber) : Option ℚ := n.filter (0 < ·)

/-- The decision on one obligation. -/
def evaluateObligation (input : PolicyInput) : Decision := do
  let obligation ← Decision.orRefuse input.obligation .skip .missingInput
  let consent ← Decision.orRefuse input.consent .skip .missingInput
  Decision.refuseIf (obligation.coinpayStatus ≠ .text "pending_coinpay") .skip .notPending
  Decision.refuseIf (consent.autopay ≠ true) .skip .consentRevoked
  let matchIndex := obligation.actionIndex
  Decision.refuseIf (matchIndex = "") .notifyManual .noMatchIndex
  let _ ← Decision.orRefuse consent.payments .notifyManual .termsUnparseable
  Decision.refuseIf (consent.hasPaid matchIndex) .skip .alreadyPaid
  let deadline := classifyObligation obligation.expiration input.nowSeconds
  Decision.refuseIf (deadline.1 = .expired) .skip .expired
  let secondsLeft ← Decision.orRefuse deadline.2 .notifyManual .noDeadline
  Decision.refuseIf (input.alreadyAttempted ∧ secondsLeft ≤ retryCutoffSeconds)
    .notifyManual .pastRetryCutoff
  Decision.refuseIf (¬input.alreadyAttempted ∧ secondsLeft ≤ armingCutoffSeconds)
    .notifyManual .pastArmingCutoff
  let blockIndex ← Decision.orRefuse (positive? obligation.blockIndex) .wait .awaitingDepth
  let tipHeight ← Decision.orRefuse (positive? input.tipHeight) .wait .awaitingDepth
  Decision.refuseIf (tipHeight - blockIndex + 1 < confirmDepthForChain consent.chainId)
    .wait .awaitingDepth
  let matchRow ← Decision.orRefuse input.matchRow .notifyManual .matchUnavailable
  Decision.refuseIf (matchRow.actionIndex ≠ matchIndex) .notifyManual .matchMismatch
  Decision.refuseIf (matchRow.settlementType ≠ .text "coinpay") .notifyManual .matchShape
  Decision.refuseIf matchRow.invalid .skip .matchInvalid
  let orderActionIndex ←
    Decision.orRefuse (consent.orderActionIndex.filter (· ≠ "")) .wait .orderIndexUnresolved
  let oriented ←
    Decision.orRefuse (orientMatch matchRow orderActionIndex) .notifyManual .amountsUnavailable
  -- the debt has to be the coin leg of the match, at one scale
  let owedBase ←
    Decision.orRefuse (obligationBaseUnits obligation.coinAmount) .notifyManual .amountMismatch
  let coinFillBase ←
    Decision.orRefuse (obligationBaseUnits oriented.coinFill) .notifyManual .amountMismatch
  Decision.refuseIf (owedBase ≠ coinFillBase) .notifyManual .amountMismatch
  let giveTotalBase ←
    Decision.orRefuse (obligationBaseUnits consent.giveCoinAmount) .notifyManual .termsUnparseable
  let scaled ← Decision.orRefuse (toCommonScale oriented.tokenFill consent.getAmount)
    .notifyManual .termsUnparseable
  Decision.refuseIf (scaled.2 = 0) .notifyManual .termsUnparseable
  -- the consented price of the fill, rounded down, and one base unit for the rounding
  Decision.refuseIf (giveTotalBase * scaled.1 / scaled.2 + 1 < coinFillBase)
    .notifyManual .priceExceedsTerms
  let remaining ←
    Decision.orRefuse (remainingGiveBase consent) .notifyManual .termsUnparseable
  Decision.refuseIf (remaining < coinFillBase) .notifyManual .exceedsGiveBudget
  return toString owedBase

end XchainWallet
