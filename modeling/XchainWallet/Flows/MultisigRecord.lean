import XchainWallet.Checks.Refuse
import XchainWallet.Uri.UriText

/-!
# The record of a multisig signing session

A session collects what the cosigners send for one spend. Of a MuSig2 session these are public nonces
and then partial signatures, of the other schemes one signature for each cosigner. Hex texts are lists
of their characters. The times in the record, its wallet and its summary are read by nothing here and
are left out.
-/

namespace XchainWallet

open Checks Wire

inductive MultisigScheme
  | p2shMultisig
  | p2wshMultisig
  | taprootMusig2
  deriving DecidableEq

namespace MultisigScheme

def text : MultisigScheme → String
  | p2shMultisig => "p2sh-multisig"
  | p2wshMultisig => "p2wsh-multisig"
  | taprootMusig2 => "taproot-musig2"

end MultisigScheme

inductive MultisigStatus
  | collectingNonces
  | collectingSigs
  | readyToFinalize
  | finalized
  | broadcast
  | cancelled
  deriving DecidableEq

namespace MultisigStatus

def text : MultisigStatus → String
  | collectingNonces => "collecting-nonces"
  | collectingSigs => "collecting-sigs"
  | readyToFinalize => "ready-to-finalize"
  | finalized => "finalized"
  | broadcast => "broadcast"
  | cancelled => "cancelled"

end MultisigStatus

/-- The characters of a hex text. -/
abbrev HexText := List Char

structure NonceContribution where
  pubkey : HexText
  publicNonce : HexText
  deriving DecidableEq

structure SignatureContribution where
  pubkey : HexText
  sig : HexText
  deriving DecidableEq

structure MultisigSigningSession where
  id : String
  chainId : String
  scheme : MultisigScheme
  threshold : ℕ
  cosignerPubkeys : List HexText
  msgHash : HexText
  psbtHex : HexText
  nonces : List NonceContribution
  aggNonce : Option HexText
  partialSigs : List SignatureContribution
  aggregatedSchnorrSig : Option HexText
  signatures : List SignatureContribution
  status : MultisigStatus
  finalizedTxHex : Option HexText
  txid : Option HexText
  deriving DecidableEq

/-! ### Hex texts -/

/-- `HEX_RE`: digits in lower case, and at least one. -/
def isLowerHexText (v : HexText) : Bool := v ≠ [] ∧ v.all hexDigits.contains

def lowerHex (v : HexText) : HexText := jsLowerText v

/-- The hex text of so many bytes, in lower case. -/
def isLowerHexLength (v : HexText) (byteLen : ℕ) : Bool :=
  isLowerHexText v ∧ v.length = byteLen * 2

/-- The hex text of so many bytes, in either case. -/
def isHexTextLength (v : HexText) (byteLen : ℕ) : Bool :=
  isLowerHexText (lowerHex v) ∧ jsLength v = byteLen * 2

/-- A hex text of whole bytes, in either case. -/
def isByteHex (v : HexText) : Bool :=
  v ≠ [] ∧ jsLength v % 2 = 0 ∧ isLowerHexText (lowerHex v)

/-! ### The schema -/

/-- What the record of a new session is made from. -/
structure MultisigSessionInput where
  chainId : String
  scheme : MultisigScheme
  threshold : ℕ
  cosignerPubkeys : List HexText
  msgHash : HexText
  psbtHex : HexText

/-- A session in which nobody has contributed, under a random id. -/
def createMultisigSigningSession (id : String) (input : MultisigSessionInput) :
    Except String MultisigSigningSession := do
  refuseIf (input.chainId = "") "createMultisigSigningSession: chainId is required"
  refuseIf (input.threshold = 0)
    "createMultisigSigningSession: threshold must be a positive integer"
  refuseIf (input.cosignerPubkeys.length < 2)
    "createMultisigSigningSession: cosignerPubkeys must be an array of at least 2 entries"
  refuseIf (input.cosignerPubkeys.length < input.threshold)
    "createMultisigSigningSession: threshold must be ≤ cosignerPubkeys.length"
  refuseIf (isLowerHexLength (lowerHex input.msgHash) 32 = false)
    "createMultisigSigningSession: msgHash must be 32-byte hex"
  pure {
    id := id
    chainId := input.chainId
    scheme := input.scheme
    threshold := input.threshold
    cosignerPubkeys := input.cosignerPubkeys.map lowerHex
    msgHash := lowerHex input.msgHash
    psbtHex := input.psbtHex
    nonces := []
    aggNonce := none
    partialSigs := []
    aggregatedSchnorrSig := none
    signatures := []
    status := if input.scheme = .taprootMusig2 then .collectingNonces else .collectingSigs
    finalizedTxHex := none
    txid := none }

/-- `check`: the error of a field. -/
def checkField (field message : String) (ok : Bool) : List String :=
  if ok then [] else [field ++ ": " ++ message]

/-- `checkEach`: the errors of the elements of a field. -/
def checkElements {α : Type} (field message : String) (ok : α → Bool) (items : List α) :
    List String :=
  items.zipIdx.flatMap fun (item, i) => checkField s!"{field}[{i}]" message (ok item)

def isNonceEntry (entry : NonceContribution) : Bool :=
  isLowerHexLength entry.pubkey 33 ∧ isLowerHexLength entry.publicNonce 66

def isSignatureEntry (entry : SignatureContribution) : Bool :=
  isLowerHexLength entry.pubkey 33 ∧ isLowerHexText entry.sig

/-- The errors of a record, none where it may be stored. -/
def validateMultisigSigningSession (r : MultisigSigningSession) : List String :=
  checkField "id" "must be a non-empty string" (r.id ≠ "") ++
  checkField "chainId" "must be a non-empty string" (r.chainId ≠ "") ++
  checkField "threshold" "must be a positive integer" (0 < r.threshold) ++
  checkElements "cosignerPubkeys" "must be 33-byte hex" (isLowerHexLength · 33)
    r.cosignerPubkeys ++
  checkField "threshold" "must be ≤ cosignerPubkeys.length"
    (r.threshold ≤ r.cosignerPubkeys.length) ++
  checkField "msgHash" "must be 32-byte hex" (isLowerHexLength r.msgHash 32) ++
  checkElements "nonces" "malformed" isNonceEntry r.nonces ++
  checkField "aggNonce" "must be null or 66-byte hex" (r.aggNonce.all (isLowerHexLength · 66)) ++
  checkElements "partialSigs" "malformed" isSignatureEntry r.partialSigs ++
  checkField "aggregatedSchnorrSig" "must be null or 64-byte hex"
    (r.aggregatedSchnorrSig.all (isLowerHexLength · 64)) ++
  checkElements "signatures" "malformed" isSignatureEntry r.signatures ++
  checkField "finalizedTxHex" "must be null or hex" (r.finalizedTxHex.all isLowerHexText) ++
  checkField "txid" "must be null or a non-empty string" (r.txid.all (· ≠ []))

end XchainWallet
