import XchainWallet.Json.ToNumber
import XchainWallet.Signers.DevicePsbt

/-!
# The request of a Ledger

`toLedgerCreatePayment` builds the argument of the device's `createPaymentTransaction`. An input is
a previous transaction and an index into it, from which the device takes the outpoint that it signs
for; the outputs are serialized as they stand in a transaction.
-/

namespace XchainWallet

open Wire Checks

/-! ### The request -/

end XchainWallet
