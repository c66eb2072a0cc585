import XchainWallet.Decimal.Plain
import XchainWallet.Js.Text

/-!
# Consent records for automatic payment

One record for each order whose owner consented to automatic CoinPay payments: the terms that
the caps are checked against, the consent flag, and the ledger of the payments made so far.
-/

namespace XchainWallet

/-- One payment of the ledger: the match that it settled and what it paid, in base units. -/
structure AutopayPayment where
  orderMatchActionIndex : JsField
  coinAmountBase : JsField
  txid : String
  paidAt : String
  deriving DecidableEq

/-- A consent record. `payments` is `none` where the field is not an array, and
`orderActionIndex` is `none` until the order is indexed. -/
structure AutopayOrder where
  id : String
  walletId : String
  chainId : String
  sourceAddress : String
  txid : String
  orderActionIndex : Option String
  giveCoinAmount : JsField
  getAmount : JsField
  autopay : Bool
  payments : Option (List AutopayPayment)
  deriving DecidableEq

namespace AutopayOrder

/-- The ledger lists a payment for the match. -/
def hasPaid (record : AutopayOrder) (matchIndex : String) : Bool :=
  (record.payments.getD []).any fun p => p.orderMatchActionIndex.shown = matchIndex

/-- The record with one more payment in its ledger. -/
def appendPayment (record : AutopayOrder) (payment : AutopayPayment) : AutopayOrder :=
  { record with payments := some (record.payments.getD [] ++ [payment]) }

/-- One payment added to the ledger, refused where it already lists one for the match. -/
def recordPayment (record : AutopayOrder) (payment : AutopayPayment) : Option AutopayOrder :=
  if record.hasPaid payment.orderMatchActionIndex.shown then none
  else some (record.appendPayment payment)

end AutopayOrder

end XchainWallet
