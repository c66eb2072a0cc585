import XchainWallet.Signers.SignedTx

/-!
# The signatures of a device's reply

`assertInputSignaturesVerify` checks each signature of a device's reply against the coin that the
PSBT says it spends: the key owns the coin, and the signature verifies for the hash of the reply.
It takes the script type of an input from the PSBT and knows the three types that devices sign.
The hash functions and the two signature schemes are parameters, `Crypto`.
-/

namespace XchainWallet

open Wire Checks

/-- The hash functions and the signature schemes. -/
structure Crypto where
  sha256 : List UInt8 → List UInt8
  ripemd160 : List UInt8 → List UInt8
  /-- `Signature.fromBytes(der, 'der').toBytes('der')`, `none` where it throws. -/
  canonicalDer : List UInt8 → Option (List UInt8)
  /-- `secp256k1.verify(der, digest, pubkey)`, false where it throws. -/
  ecdsaVerify : List UInt8 → List UInt8 → List UInt8 → Bool
  /-- `schnorr.verify(signature, digest, pubkey)`, false where it throws. -/
  schnorrVerify : List UInt8 → List UInt8 → List UInt8 → Bool

/-- `SIGNATURE_MISMATCH_MESSAGE`. -/
def signatureMismatchMessage : String :=
  "The signer returned a signature that does not match this transaction. Nothing was broadcast."

/-- The error of a signature that does not verify. Its message is `signatureMismatchMessage`. -/
structure SignatureMismatchError where
  signerId : String
  detail : String
deriving DecidableEq

def SignatureMismatchError.message (_ : SignatureMismatchError) : String :=
  signatureMismatchMessage

/-- `SIGHASH_ALL`. -/
def sighashAll : ℕ := 0x01

/-! ### Scripts -/

/-- The size of the next push of a script and what follows its opcode. `OP_0` is a push of
nothing for some readers, and no push for others. -/
def pushHeader (zeroPush : Bool) : List UInt8 → Option (ℕ × List UInt8)
  | [] => none
  | op :: rest =>
    if op = 0x00 then if zeroPush then some (0, rest) else none
    else if op ≤ 0x4b then some (op.toNat, rest)
    else if op = 0x4c then
      if 1 ≤ rest.length then some (leNat (rest.take 1), rest.drop 1) else none
    else if op = 0x4d then
      if 2 ≤ rest.length then some (leNat (rest.take 2), rest.drop 2) else none
    else none

theorem length_pushHeader {zeroPush : Bool} {script rest : List UInt8} {size : ℕ}
    (h : pushHeader zeroPush script = some (size, rest)) : rest.length < script.length := by
  cases script with
  | nil => cases h
  | cons op tail =>
    have hrest : rest.length ≤ tail.length := by
      unfold pushHeader at h
      dsimp only at h
      split_ifs at h <;> cases h <;> simp
    exact Nat.lt_succ_of_le hrest

/-- The pushes of a script, or `none` where it holds another opcode or runs off its end. -/
def pushes (zeroPush : Bool) (script : List UInt8) : Option (List (List UInt8)) :=
  if script = [] then some []
  else match _h : pushHeader zeroPush script with
    | none => none
    | some (size, rest) =>
      if rest.length < size then none
      else (pushes zeroPush (rest.drop size)).map (rest.take size :: ·)
termination_by script.length
decreasing_by
  have hlt := length_pushHeader _h
  rw [List.length_drop]
  omega

/-- `scriptPushes(hex)`: only data pushes. -/
def scriptPushes (script : List UInt8) : Option (List (List UInt8)) := pushes false script

/-- What matches `[0-9a-f]{2n}` in `^before([0-9a-f]{2n})after$`. -/
def between (before : List UInt8) (n : ℕ) (after script : List UInt8) : Option (List UInt8) :=
  let inner := (script.drop before.length).take n
  if script = before ++ (inner ++ after) ∧ inner.length = n then some inner else none

/-- The key hash of a p2pkh script. -/
def p2pkhKeyHash (script : List UInt8) : Option (List UInt8) :=
  between [0x76, 0xa9, 0x14] 20 [0x88, 0xac] script

/-- The key hash of a p2wpkh program. -/
def p2wpkhKeyHash (script : List UInt8) : Option (List UInt8) := between [0x00, 0x14] 20 [] script

/-- The script hash of a p2sh script. -/
def p2shScriptHash (script : List UInt8) : Option (List UInt8) :=
  between [0xa9, 0x14] 20 [0x87] script

/-- `p2pkhScript(keyHashHex)`. -/
def p2pkhScript (keyHash : List UInt8) : List UInt8 :=
  [0x76, 0xa9, 0x14] ++ (keyHash ++ [0x88, 0xac])

/-- The bytes of a script in hex. A text that is no hex is no script that the code knows. -/
def scriptBytes (text : String) : List UInt8 := (ofHex text.toList).getD []

/-- `isPubkey(hex)`. -/
def isPubkey (key : List UInt8) : Bool :=
  (key.length = 33 ∧ (key.head? = some 0x02 ∨ key.head? = some 0x03)) ∨
    (key.length = 65 ∧ key.head? = some 0x04)

/-- `exactSats(value)` of this check, which also refuses what is negative. -/
def exactSats? (value : SatAmount) : Option ℕ :=
  value.exactSats?.bind fun n => if 0 ≤ n then some n.toNat else none

/-- The item of a list of one. -/
def oneItem : List (List UInt8) → Option (List UInt8)
  | [item] => some item
  | _ => none

/-- The items of a list of two. -/
def twoItems : List (List UInt8) → Option (List UInt8 × List UInt8)
  | [first, second] => some (first, second)
  | _ => none

/-- The script of the coin that an input of the PSBT spends. -/
def DecomposedPsbtInput.prevScript (want : DecomposedPsbtInput) : String :=
  if want.scriptPubKeyHex ≠ "" then want.scriptPubKeyHex
  else want.witnessUtxoScriptHex.getD ""

namespace Crypto

variable (crypto : Crypto)

/-- `hash256(hex)`. -/
def hash256 (bytes : List UInt8) : List UInt8 := crypto.sha256 (crypto.sha256 bytes)

/-- `hash160(hex)`. -/
def hash160 (bytes : List UInt8) : List UInt8 := crypto.ripemd160 (crypto.sha256 bytes)

/-! ### The signature hashes -/

/-- `legacyDigest(tx, index, scriptCodeHex)`. -/
def legacyDigest (tx : RawTx) (index : ℕ) (scriptCode : List UInt8) : List UInt8 :=
  crypto.hash256 (uintLE (toUint32 tx.version) 4 ++ varint tx.inputs.length ++
    (tx.inputs.zipIdx.flatMap fun input => outpoint input.1 ++
      (if input.2 = index then varSlice scriptCode else [0x00]) ++ uintLE input.1.sequence 4) ++
    varint tx.outputs.length ++ serializeOutputs tx.outputs ++ uintLE tx.locktime 4 ++
    uintLE sighashAll 4)

/-- `bip143Digester(tx)(index, scriptCodeHex, amountSats)`. -/
def bip143Digest (tx : RawTx) (index : ℕ) (scriptCode : List UInt8) (amountSats : ℕ) :
    List UInt8 :=
  let hashPrevouts := crypto.hash256 (tx.inputs.flatMap outpoint)
  let hashSequence := crypto.hash256 (tx.inputs.flatMap fun input => uintLE input.sequence 4)
  let hashOutputs := crypto.hash256 (serializeOutputs tx.outputs)
  let input := tx.inputs.getD index ⟨[], 0, 0⟩
  crypto.hash256 (uintLE (toUint32 tx.version) 4 ++ hashPrevouts ++ hashSequence ++
    outpoint input ++ varSlice scriptCode ++ uintLE amountSats 8 ++ uintLE input.sequence 4 ++
    hashOutputs ++ uintLE tx.locktime 4 ++ uintLE sighashAll 4)

/-- `checkSignature(sigHex, pubkeyHex, digestFor, wantSighash)`: the reason why a signature with
its sighash byte does not verify, if any. -/
def checkSignature (sig pubkey digest : List UInt8) (wantSighash : ℕ) : Option String :=
  if sig.length < 2 then some "the signature is empty"
  else
    let sighashType := leNat (sig.drop (sig.length - 1))
    if sighashType ≠ wantSighash then
      some ("the signature's sighash type is 0x" ++ hexNumber sighashType ++
        ", the PSBT asked for 0x" ++ hexNumber wantSighash)
    else if wantSighash ≠ sighashAll then
      some ("sighash type 0x" ++ hexNumber wantSighash ++ " cannot be checked")
    else
      let der := sig.dropLast
      match crypto.canonicalDer der with
      | none => some "the signature is not DER encoded"
      | some canonical =>
        if canonical ≠ der then some "the signature is not strictly DER encoded"
        else if crypto.ecdsaVerify der digest pubkey then none
        else some "the signature does not verify for this input"

/-! ### The check -/

/-- The signature of an input, its key and the hash that it should sign. -/
structure SignedDigest where
  sig : List UInt8
  pubkey : List UInt8
  digest : List UInt8

/-- The witness of input `i`, which spends a p2wpkh program. -/
def witnessDigest (tx : RawTx) (i : ℕ) (signature : InputSignature) (want : DecomposedPsbtInput)
    (program : List UInt8) : Except String SignedDigest := do
  let keyHash ← orRefuse (p2wpkhKeyHash program) "the witness program is not p2wpkh"
  let (sig, pubkey) ← orRefuse (twoItems signature.witness)
    "the witness is not <signature> <pubkey>"
  refuseIf (pubkey.length ≠ 33 ∨ !isPubkey pubkey ∨ crypto.hash160 pubkey ≠ keyHash)
    "the public key does not own the prevout"
  let amount ← orRefuse (exactSats? want.value) "the PSBT carries no exact amount for this input"
  pure ⟨sig, pubkey, crypto.bip143Digest tx i (p2pkhScript keyHash) amount⟩

/-- The signature, key and hash of input `i`, whose coin the PSBT says `want` is. -/
def signedDigest (tx : RawTx) (i : ℕ) (signature : InputSignature) (want : DecomposedPsbtInput) :
    Except String SignedDigest := do
  let prevScript := scriptBytes (lowerCase want.prevScript)
  match want.scriptType with
  | .p2pkh => do
    let keyHash ← orRefuse (p2pkhKeyHash prevScript) "the PSBT prevout script is not p2pkh"
    let (sig, pubkey) ← orRefuse ((scriptPushes signature.scriptSig).bind twoItems)
      "the scriptSig is not <signature> <pubkey>"
    refuseIf (∃ item ∈ signature.witness, item ≠ []) "a p2pkh input carries a witness"
    refuseIf (!isPubkey pubkey ∨ crypto.hash160 pubkey ≠ keyHash)
      "the public key does not own the prevout"
    pure ⟨sig, pubkey, crypto.legacyDigest tx i prevScript⟩
  | .p2wpkh => do
    refuseIf (signature.scriptSig ≠ []) "a p2wpkh input carries a scriptSig"
    crypto.witnessDigest tx i signature want prevScript
  | .p2shP2wpkh => do
    let scriptHash ← orRefuse (p2shScriptHash prevScript) "the PSBT prevout script is not p2sh"
    let program ← orRefuse ((scriptPushes signature.scriptSig).bind oneItem)
      "the scriptSig is not the redeem script push"
    refuseIf (crypto.hash160 program ≠ scriptHash) "the redeem script does not match the prevout"
    crypto.witnessDigest tx i signature want program
  | _ => .error "this script type cannot be verified"

/-- The check of input `i`. -/
def checkInput (tx : RawTx) (i : ℕ) (signature : InputSignature) (want : DecomposedPsbtInput) :
    Except String Unit :=
  (do
    let signed ← crypto.signedDigest tx i signature want
    match crypto.checkSignature signed.sig signed.pubkey signed.digest
        (want.sighashType.getD sighashAll) with
    | none => pure ()
    | some reason => .error reason).mapError fun reason =>
      "input " ++ toString i ++ " (" ++ want.scriptType.text ++ "): " ++ reason

/-- `assertInputSignaturesVerify`. The decomposition is `none` where its inputs are no array. -/
def assertInputSignaturesVerify (txHex : String) (decomposed : Option DecomposedPsbt)
    (signerId : String) : Except SignatureMismatchError Unit :=
  (do
    let (tx, signatures) ← (readSignedRawTx txHex).mapError fun e : RawTxError =>
      "the reply could not be decoded (" ++ e.message ++ ")"
    let inputs ← orRefuse ((decomposed.map DecomposedPsbt.inputs).filter
        fun inputs : List DecomposedPsbtInput => inputs.length = tx.inputs.length)
      "the reply and the PSBT spend a different number of inputs"
    checkEach (crypto.checkInput tx) 0 signatures inputs).mapError (⟨signerId, ·⟩)

end Crypto

end XchainWallet
