import XchainWallet.Signers.SignedTx

/-!
# What a hardware signer converts

No device takes a PSBT. A converter takes the decomposition of one and builds a request in the
vendor's own form. `DevicePsbt` is the decomposition as the converters read it, and
`DevicePsbt.unsignedTx?` the transaction that it describes: the coins that are spent, in order and
with their amounts and sequences, the outputs, and the locktime. The version is apart, since no
request carries it.

Both converters make some checks in the same words; `caller` and `device` name the converter in
them.
-/

namespace XchainWallet

open Wire Checks

/-! ### The decomposition -/

/-- The amount that a text of digits states. -/
def amountOfText (s : String) : Option ℕ :=
  if Decimal.Digits s.toList then some (Decimal.digitsValue s.toList) else none

/-- A satoshi amount: a number, an exact decimal text where a number would round, or `null`. -/
inductive PsbtAmount
  | number (n : ℕ)
  | text (s : String)
  | unresolved
deriving DecidableEq

namespace PsbtAmount

/-- `String(value)`. -/
def shown : PsbtAmount → String
  | number n => toString n
  | text s => s
  | unresolved => "null"

end PsbtAmount

/-- A coin that is spent. The amount is `none` where it is not known. -/
structure SpentCoin where
  prevTxHash : String
  prevTxIndex : ℕ
  amount : Option ℕ
  sequence : ℕ
deriving DecidableEq

end XchainWallet
