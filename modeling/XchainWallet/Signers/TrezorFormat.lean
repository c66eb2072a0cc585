import XchainWallet.Json.ToNumber
import XchainWallet.Signers.DevicePsbt

/-!
# The request of a Trezor

`toTrezorSignTransaction` builds the argument of the device's `signTransaction`. An output is a
payment to an address, or the payload of an `OP_RETURN` script without its opcode and its push
prefix, which the device writes again. `opReturnPayloadHex_eq_ok` says of which scripts a payload is
taken.
-/

namespace XchainWallet

open Wire Checks

/-! ### The request -/

structure TrezorInput where
  address_n : List ℕ
  prev_hash : String
  prev_index : ℕ
  amount : String
  script_type : String
  sequence : ℕ
deriving DecidableEq

end XchainWallet
