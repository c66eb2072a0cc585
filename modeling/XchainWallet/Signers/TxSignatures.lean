import XchainWallet.Signers.InputSignatures

/-!
# The signatures of a transaction that is pasted or finalized

`assertTxSignaturesVerify` checks each signature of a transaction that this wallet did not just
sign, against the coins that it is said to spend. It takes the type of an input from the script of
the coin, and besides key spends it knows multisig scripts, bare or behind a script hash, and the
key path of taproot.
-/

namespace XchainWallet

open Wire Checks

/-- A coin that an input spends. -/
structure Prevout where
  prevTxHash : String
  prevTxIndex : ℕ
  scriptPubKeyHex : String
  value : SatAmount
  sighashType : Option ℕ

/-- The coin that an input of a PSBT spends. -/
def DecomposedPsbtInput.prevout (input : DecomposedPsbtInput) : Prevout where
  prevTxHash := input.prevTxHash
  prevTxIndex := input.prevTxIndex
  scriptPubKeyHex := input.prevScript
  value := input.value
  sighashType := input.sighashType

/-- `prevoutsFromPsbt(decomposed)`. -/
def prevoutsFromPsbt (decomposed : DecomposedPsbt) : List Prevout :=
  decomposed.inputs.map DecomposedPsbtInput.prevout

/-- `pushItems(hex)`: data pushes, with `OP_0` as an empty item. -/
def pushItems (script : List UInt8) : Option (List (List UInt8)) := pushes true script

/-- The script hash of a p2wsh program. -/
def p2wshScriptHash (script : List UInt8) : Option (List UInt8) :=
  between [0x00, 0x20] 32 [] script

/-- The output key of a p2tr script. -/
def p2trOutputKey (script : List UInt8) : Option (List UInt8) :=
  between [0x51, 0x20] 32 [] script

/-- A bare multisig script: how many of which keys sign. -/
structure Multisig where
  m : ℕ
  keys : List (List UInt8)

/-- `parseMultisigScript(hex)`. -/
def parseMultisigScript (script : List UInt8) : Option Multisig := do
  guard (3 ≤ script.length ∧ script.getLast? = some 0xae)
  let m : ℤ := leNat (script.take 1) - 0x50
  let n : ℤ := leNat ((script.drop (script.length - 2)).take 1) - 0x50
  guard (1 ≤ m ∧ m ≤ 16 ∧ m ≤ n ∧ n ≤ 16)
  let keys ← pushItems ((script.drop 1).take (script.length - 3))
  guard (keys.length = n ∧ keys.all isPubkey)
  pure ⟨m.toNat, keys⟩

/-- The keys that are left after the first that `check` passes, or the last reason. -/
def matchKey (check : List UInt8 → Option String) :
    List (List UInt8) → String → Except String (List (List UInt8))
  | [], lastReason => .error lastReason
  | key :: keys, _ => match check key with
    | none => .ok keys
    | some reason => matchKey check keys reason

/-- Signature `s` and those after it, each against a later key than the one before it. -/
def matchSignatures (check : List UInt8 → List UInt8 → Option String) :
    ℕ → List (List UInt8) → List (List UInt8) → Option String
  | _, [], _ => none
  | s, sig :: sigs, keys => match matchKey (check sig) keys "no key is left to match the signature" with
    | .ok keys => matchSignatures check (s + 1) sigs keys
    | .error lastReason => some ("signature " ++ toString s ++
        " does not verify against any remaining key (" ++ lastReason ++ ")")

namespace Crypto

variable (crypto : Crypto)

/-- `checkMultisig(items, scriptHex, digestFor, wantSighash)`. -/
def checkMultisig (items : List (List UInt8)) (script digest : List UInt8) (wantSighash : ℕ) :
    Option String :=
  match parseMultisigScript script with
  | none => some "the script is not a bare multisig script"
  | some ⟨m, keys⟩ =>
    if items.length ≠ m + 1 then
      some ("the spend does not carry " ++ toString m ++ " signature(s) after the dummy")
    else if items.head? ≠ some [] then some "the multisig dummy element is not empty"
    else matchSignatures (fun sig key => crypto.checkSignature sig key digest wantSighash) 1
      items.tail keys

/-- `taggedHash('TapSighash', hex)`. -/
def tapSighash (message : List UInt8) : List UInt8 :=
  let tagHash := crypto.sha256 ("TapSighash".toList.map fun c => UInt8.ofNat c.toNat)
  crypto.sha256 (tagHash ++ tagHash ++ message)

/-- `bip341Digester(tx, amounts, scripts)(index, hashType)`. -/
def bip341Digest (tx : RawTx) (amounts : List ℕ) (scripts : List (List UInt8)) (index hashType : ℕ) :
    List UInt8 :=
  let shaPrevouts := crypto.sha256 (tx.inputs.flatMap outpoint)
  let shaAmounts := crypto.sha256 (amounts.flatMap fun a => uintLE a 8)
  let shaScripts := crypto.sha256 (scripts.flatMap varSlice)
  let shaSequences := crypto.sha256 (tx.inputs.flatMap fun input => uintLE input.sequence 4)
  let shaOutputs := crypto.sha256 (serializeOutputs tx.outputs)
  crypto.tapSighash (0x00 :: uintLE hashType 1 ++ uintLE (toUint32 tx.version) 4 ++
    uintLE tx.locktime 4 ++ shaPrevouts ++ shaAmounts ++ shaScripts ++ shaSequences ++ shaOutputs ++
    0x00 :: uintLE index 4)

/-- A reason is thrown. -/
def throwReason : Option String → Except String Unit
  | none => .ok ()
  | some reason => .error reason

/-- `segwitDigest(scriptCode)` of input `i`. -/
def segwitDigest (tx : RawTx) (i : ℕ) (want : Prevout) (scriptCode : List UInt8) :
    Except String (List UInt8) := do
  let amount ← orRefuse (exactSats? want.value) "the prevout carries no exact amount"
  pure (crypto.bip143Digest tx i scriptCode amount)

/-- `checkWitnessMultisig(witnessScript)`. -/
def checkWitnessMultisig (tx : RawTx) (i : ℕ) (witness : List (List UInt8)) (want : Prevout)
    (witnessScript : List UInt8) : Except String Unit := do
  refuseIf (witness.length < 2) "the witness does not end in a witness script"
  refuseIf (witness.getLast? ≠ some witnessScript)
    "the witness script is not the one the prevout commits to"
  let digest ← crypto.segwitDigest tx i want witnessScript
  throwReason (crypto.checkMultisig witness.dropLast witnessScript digest
    (want.sighashType.getD sighashAll))

/-- `checkWitnessKey(keyHash)`. -/
def checkWitnessKey (tx : RawTx) (i : ℕ) (witness : List (List UInt8)) (want : Prevout)
    (keyHash : List UInt8) : Except String Unit := do
  let (sig, pubkey) ← orRefuse (twoItems witness) "the witness is not <signature> <pubkey>"
  refuseIf (pubkey.length ≠ 33 ∨ !isPubkey pubkey ∨ crypto.hash160 pubkey ≠ keyHash)
    "the public key does not own the prevout"
  let digest ← crypto.segwitDigest tx i want (p2pkhScript keyHash)
  throwReason (crypto.checkSignature sig pubkey digest (want.sighashType.getD sighashAll))

/-- The branch of a p2pkh script. -/
def checkP2pkh (tx : RawTx) (i : ℕ) (signature : InputSignature) (want : Prevout)
    (script keyHash : List UInt8) : Except String Unit := do
  let (sig, pubkey) ← orRefuse ((pushItems signature.scriptSig).bind twoItems)
    "the scriptSig is not <signature> <pubkey>"
  refuseIf (∃ item ∈ signature.witness, item ≠ []) "a p2pkh input carries a witness"
  refuseIf (!isPubkey pubkey ∨ crypto.hash160 pubkey ≠ keyHash)
    "the public key does not own the prevout"
  throwReason (crypto.checkSignature sig pubkey (crypto.legacyDigest tx i script)
    (want.sighashType.getD sighashAll))

/-- The branch of a p2sh script, by what its redeem script is. -/
def checkP2sh (tx : RawTx) (i : ℕ) (signature : InputSignature) (want : Prevout)
    (scriptHash : List UInt8) : Except String Unit := do
  let items ← orRefuse ((pushItems signature.scriptSig).filter (· ≠ []))
    "the scriptSig does not end in a redeem script"
  let redeem := items.getLastD []
  refuseIf (crypto.hash160 redeem ≠ scriptHash) "the redeem script does not match the prevout"
  match p2wpkhKeyHash redeem with
  | some keyHash => do
    refuseIf (items.length ≠ 1) "the scriptSig is not the redeem script push"
    crypto.checkWitnessKey tx i signature.witness want keyHash
  | none => match p2wshScriptHash redeem with
    | some witnessHash => do
      refuseIf (items.length ≠ 1) "the scriptSig is not the redeem script push"
      let witnessScript := signature.witness.getLastD []
      refuseIf (crypto.sha256 witnessScript ≠ witnessHash)
        "the witness script does not match the redeem script"
      crypto.checkWitnessMultisig tx i signature.witness want witnessScript
    | none => do
      refuseIf (∃ item ∈ signature.witness, item ≠ []) "a p2sh input carries a witness"
      throwReason (crypto.checkMultisig items.dropLast redeem (crypto.legacyDigest tx i redeem)
        (want.sighashType.getD sighashAll))

/-- The branch of a p2tr script, which commits to the amounts and scripts of all coins. A script
that is no hex text counts as missing here, where the source hashes what its characters give and
refuses the transaction at the input of that script. -/
def checkP2tr (tx : RawTx) (i : ℕ) (signature : InputSignature) (want : Prevout)
    (prevouts : List Prevout) (outputKey : List UInt8) : Except String Unit := do
  refuseIf (signature.scriptSig ≠ []) "a p2tr input carries a scriptSig"
  let sig ← orRefuse (oneItem signature.witness)
    "only a key-path spend with no annex can be verified"
  refuseIf (sig.length ≠ 64 ∧ sig.length ≠ 65) "the signature is not 64 or 65 bytes"
  let hashType := if sig.length = 65 then leNat (sig.drop 64) else 0x00
  refuseIf (sig.length = 65 ∧ hashType ≠ sighashAll)
    ("sighash type 0x" ++ hexNumber hashType ++ " cannot be checked")
  refuseIf (∃ requested, want.sighashType = some requested ∧ requested ≠ 0x00 ∧ requested ≠ sighashAll)
    ("the PSBT asked for sighash type 0x" ++ hexNumber (want.sighashType.getD 0) ++
      ", which cannot be checked")
  let amounts := prevouts.map fun p => exactSats? p.value
  let scripts := prevouts.map fun p => scriptBytes (lowerCase p.scriptPubKeyHex)
  refuseIf (none ∈ amounts ∨ [] ∈ scripts)
    "a taproot signature commits to every prevout, and one carries no exact amount or script"
  refuseIf (!crypto.schnorrVerify (sig.take 64)
    (crypto.bip341Digest tx amounts.reduceOption scripts i hashType) outputKey)
    "the signature does not verify for this input"

/-- The check of input `i`, without the index in its refusal. -/
def checkPrevout (tx : RawTx) (prevouts : List Prevout) (i : ℕ) (got : TxInput × InputSignature)
    (want : Prevout) : Except String Unit := do
  refuseIf (lowerCase want.prevTxHash ≠ hexText got.1.prevTxHash ∨
      want.prevTxIndex ≠ got.1.prevTxIndex)
    ("it spends " ++ pointText (hexText got.1.prevTxHash) got.1.prevTxIndex ++ ", the prevout is " ++
      pointText want.prevTxHash want.prevTxIndex)
  let script := scriptBytes (lowerCase want.scriptPubKeyHex)
  match p2pkhKeyHash script with
  | some keyHash => crypto.checkP2pkh tx i got.2 want script keyHash
  | none => match p2wpkhKeyHash script with
    | some keyHash => do
      refuseIf (got.2.scriptSig ≠ []) "a p2wpkh input carries a scriptSig"
      crypto.checkWitnessKey tx i got.2.witness want keyHash
    | none => match p2wshScriptHash script with
      | some scriptHash => do
        refuseIf (got.2.scriptSig ≠ []) "a p2wsh input carries a scriptSig"
        let witnessScript := got.2.witness.getLastD []
        refuseIf (crypto.sha256 witnessScript ≠ scriptHash)
          "the witness script does not match the prevout"
        crypto.checkWitnessMultisig tx i got.2.witness want witnessScript
      | none => match p2shScriptHash script with
        | some scriptHash => crypto.checkP2sh tx i got.2 want scriptHash
        | none => match p2trOutputKey script with
          | some outputKey => crypto.checkP2tr tx i got.2 want prevouts outputKey
          | none => .error "this script type cannot be verified"

/-- `assertTxSignaturesVerify`. The prevouts are `none` where they are no array. -/
def assertTxSignaturesVerify (txHex : String) (prevouts : Option (List Prevout))
    (signerId : String) : Except SignatureMismatchError Unit :=
  (do
    let (tx, signatures) ← (readSignedRawTx txHex).mapError fun e : RawTxError =>
      "the transaction could not be decoded (" ++ e.message ++ ")"
    let prevouts ← orRefuse (prevouts.filter
        fun prevouts : List Prevout => prevouts.length = tx.inputs.length)
      "the prevouts do not cover every input"
    checkEach (fun i got want => (crypto.checkPrevout tx prevouts i got want).mapError fun reason =>
      "input " ++ toString i ++ ": " ++ reason) 0 (tx.inputs.zip signatures) prevouts).mapError
    (⟨signerId, ·⟩)

end Crypto

end XchainWallet
