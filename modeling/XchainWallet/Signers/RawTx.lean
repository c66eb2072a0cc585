import XchainWallet.Wire.Bytes
import XchainWallet.Wire.Reader

/-!
# Raw transactions

The decoder that checks a device's reply before its txid is handed to anyone, `parseRawTx`: the
legacy and the segwit serialization of a transaction, with `CompactSize` counts. The hex texts of
the code stand here as the bytes that they spell.
-/

namespace XchainWallet

open Wire

/-- Why a transaction is refused. -/
inductive RawTxError
  | notHex
  | truncated (pos : ℕ)
  | absurdVarint
  | noInputs
  | trailing (n : ℕ)
deriving DecidableEq, Repr

/-- The message of the refusal. -/
def RawTxError.message : RawTxError → String
  | notHex => "parseRawTx: txHex is not an even-length hex string"
  | truncated pos => "parseRawTx: truncated at byte " ++ toString pos
  | absurdVarint => "parseRawTx: absurd varint"
  | noInputs => "parseRawTx: transaction has no inputs"
  | trailing n => "parseRawTx: " ++ toString n ++ " trailing byte(s) after locktime"

/-- An input. The hash is in display order. -/
structure TxInput where
  prevTxHash : List UInt8
  prevTxIndex : ℕ
  sequence : ℕ
deriving DecidableEq

structure TxOutput where
  valueSat : ℕ
  scriptPubKey : List UInt8
deriving DecidableEq

structure RawTx where
  version : ℤ
  locktime : ℕ
  inputs : List TxInput
  outputs : List TxOutput
deriving DecidableEq

/-- The signature material of an input. -/
structure InputSignature where
  scriptSig : List UInt8
  witness : List (List UInt8)
deriving DecidableEq

/-- The nonempty items of the witness. -/
def InputSignature.witnessItems (signature : InputSignature) : ℕ :=
  signature.witness.countP (· ≠ [])

/-- What `walkRawTx` returns: the transaction, its bytes without witness data, and the signature
material of each input. -/
structure WalkedTx where
  tx : RawTx
  legacy : List UInt8
  signatures : List InputSignature
deriving DecidableEq

/-! ### The decoder -/

namespace TxCursor

/-- A reader of transaction bytes. -/
abbrev TxReader := Reader UInt8 RawTxError

/-- `take(n)`. -/
def take (n : ℕ) : TxReader (List UInt8) := Wire.take .truncated n

/-- `uintLE(n)`. -/
def uintLE (n : ℕ) : TxReader ℕ := leNat <$> take n

/-- `Number.MAX_SAFE_INTEGER`. -/
def maxSafeInteger : ℕ := 2 ^ 53 - 1

/-- `varint()`. -/
def varint : TxReader ℕ := do
  let first ← uintLE 1
  if first < 0xfd then pure first
  else if first = 0xfd then uintLE 2
  else if first = 0xfe then uintLE 4
  else do
    let v ← uintLE 8
    refuseIf (maxSafeInteger < v) .absurdVarint
    pure v

/-- `varSlice()`. -/
def varSlice : TxReader (List UInt8) := do take (← varint)

/-- One input, with its scriptSig. -/
def input : TxReader (TxInput × List UInt8) := do
  let hash ← take 32
  let prevTxIndex ← uintLE 4
  let scriptSig ← varSlice
  let sequence ← uintLE 4
  pure (⟨hash.reverse, prevTxIndex, sequence⟩, scriptSig)

/-- One output. -/
def output : TxReader TxOutput := do
  let valueSat ← uintLE 8
  let scriptPubKey ← varSlice
  pure ⟨valueSat, scriptPubKey⟩

/-- The inputs and the outputs. -/
def body : TxReader (List (TxInput × List UInt8) × List TxOutput) := do
  let inputCount ← varint
  refuseIf (inputCount = 0) .noInputs
  let inputs ← many input inputCount
  let outputCount ← varint
  let outputs ← many output outputCount
  pure (inputs, outputs)

/-- The witness stack of one input. -/
def stack : TxReader (List (List UInt8)) := do many varSlice (← varint)

/-- The witness stacks, which only the segwit serialization has. -/
def witnessStacks (segwit : Bool) (inputCount : ℕ) : TxReader (List (List (List UInt8))) :=
  if segwit then many stack inputCount else pure (List.replicate inputCount [])

/-- What follows the version, and the marker of the segwit serialization. -/
def afterMarker (versionBytes : List UInt8) (segwit : Bool) : TxReader WalkedTx := do
  let ((inputs, outputs), bodyBytes) ← captured body
  let witnesses ← witnessStacks segwit inputs.length
  let lockBytes ← take 4
  pure
    { tx :=
        { version := (leNat versionBytes : ℤ).bmod (2 ^ 32)
          locktime := leNat lockBytes
          inputs := inputs.map Prod.fst
          outputs }
      legacy := versionBytes ++ bodyBytes ++ lockBytes
      signatures := inputs.zipWith (fun i witness => ⟨i.2, witness⟩) witnesses }

/-- The marker `0x00` and the flag `0x01`, where an input count would be. -/
def marker : TxReader Bool := fun c =>
  if [0x00, 0x01].isPrefixOf c.rest then .ok (true, ⟨c.pos + 2, c.rest.drop 2⟩) else .ok (false, c)

/-- `walkRawTx(...)` on the bytes of its cursor. -/
def walk : TxReader WalkedTx := do
  let versionBytes ← take 4
  let segwit ← marker
  afterMarker versionBytes segwit

end TxCursor

/-- The bytes of the cursor. -/
def txBytes (txHex : String) : Except RawTxError (List UInt8) :=
  if txHex = "" then .error .notHex
  else match ofHex txHex.toList with
    | none => .error .notHex
    | some bytes => .ok bytes

/-- `walkRawTx(txHex)`. -/
def walkRawTx (txHex : String) : Except RawTxError WalkedTx := do
  let bytes ← txBytes txHex
  let (walked, c) ← TxCursor.walk.run ⟨0, bytes⟩
  if c.rest ≠ [] then throw (.trailing c.rest.length)
  pure walked

/-- `parseRawTx(txHex)`. -/
def parseRawTx (txHex : String) : Except RawTxError RawTx := do
  let walked ← walkRawTx txHex
  pure walked.tx

/-- `readSignedRawTx(txHex)`. -/
def readSignedRawTx (txHex : String) : Except RawTxError (RawTx × List InputSignature) := do
  let walked ← walkRawTx txHex
  pure (walked.tx, walked.signatures)

/-- `rawTxid(txHex)`, in display order. -/
def rawTxid (sha256 : List UInt8 → List UInt8) (txHex : String) :
    Except RawTxError (List UInt8) := do
  let walked ← walkRawTx txHex
  pure (sha256 (sha256 walked.legacy)).reverse

/-! ### The encoder -/

/-- `uintLE(value, bytes)`. -/
def uintLE (value bytes : ℕ) : List UInt8 := leBytes bytes value

/-- `varint(n)`. -/
def varint (n : ℕ) : List UInt8 :=
  if n < 0xfd then uintLE n 1
  else if n ≤ 0xffff then 0xfd :: uintLE n 2
  else if n ≤ 0xffffffff then 0xfe :: uintLE n 4
  else 0xff :: uintLE n 8

/-- `varSlice(hex)`. -/
def varSlice (bytes : List UInt8) : List UInt8 := varint bytes.length ++ bytes

/-- `outpoint(input)`. -/
def outpoint (input : TxInput) : List UInt8 :=
  input.prevTxHash.reverse ++ uintLE input.prevTxIndex 4

/-- `serializeOutputs(outputs)`. -/
def serializeOutputs (outputs : List TxOutput) : List UInt8 :=
  outputs.flatMap fun o => uintLE o.valueSat 8 ++ varSlice o.scriptPubKey

/-- `value >>> 0`. -/
def toUint32 (value : ℤ) : ℕ := (value % 2 ^ 32).toNat

/-- The hex text of some bytes. -/
def hexText (bytes : List UInt8) : String := String.ofList (hexOf bytes)

end XchainWallet
