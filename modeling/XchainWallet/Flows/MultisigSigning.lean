import XchainWallet.Flows.MultisigRecord
import XchainWallet.Versioned.World

/-!
# The changes of a multisig signing session

A change reads the record, checks it and writes a new one. Each is a `Task` over the record that it
has read: the node and the chain's SDK are asked where the code awaits them. Curve points, signatures
and the aggregation of MuSig2 are the platform's.
-/

namespace XchainWallet

open Checks Wire Versioned

/-! ### The platform -/

/-- `sdk.musig2`, with its session keys and what its calls throw. `verifyPartial` may be missing. -/
structure Musig2 (K : Type) where
  aggregateNonces : List (List UInt8) → Except String (List UInt8)
  startSession : List UInt8 → List UInt8 → List (List UInt8) → Except String K
  verifyPartial : Option (List UInt8 → List UInt8 → List UInt8 → K → Except String Bool)
  aggregateSignatures : List (List UInt8) → K → Except String (List UInt8)

/-- The SDK of a chain: its `musig2`, and whether it has `broadcastTx` and
`finalizeMultisigPsbt`. -/
structure MultisigSdk (K : Type) where
  musig2 : Option (Musig2 K)
  canBroadcast : Bool
  canFinalize : Bool

/-- The SDK of each chain, whether a text decodes as a curve point, and whether a text is a low-S
signature of a hash by a key. -/
structure MultisigPlatform (K : Type) where
  sdks : String → Option (MultisigSdk K)
  isPoint : HexText → Bool
  isEcdsaSignature : HexText → HexText → HexText → Bool

structure MultisigError where
  message : String
  code : Option String

/-- What a change waits for: the freeze and the signatures of the bytes to send, the node, and the
SDK's finalizer. -/
inductive MultisigQuestion
  | checkBroadcast (txHex : Option HexText) (psbtHex : HexText) (signerId : String)
  | broadcastTx (txHex : Option HexText)
  | finalizeMultisigPsbt (psbtHex : HexText)

/-- What is read of an answer. -/
structure SdkReply where
  txHex : Option HexText
  txid : Option HexText

/-- A refusal, and whether it says that the transaction is known. -/
structure SdkRefusal where
  message : String
  isAlreadyOnNetwork : Bool

abbrev SdkAnswer := Except SdkRefusal SdkReply

abbrev MultisigTask := Versioned.Task MultisigSigningSession MultisigError MultisigQuestion SdkAnswer

/-! ### Checks -/

variable {K : Type} (p : MultisigPlatform K)

/-- The bytes of a hex text, as the records hold them. -/
def hexToBytes (hex : HexText) : List UInt8 := (ofHex hex).getD []

def bytesToHex (bytes : List UInt8) : HexText := hexOf bytes

/-- An error without a code. -/
def plainError (message : String) : MultisigError := ⟨message, none⟩

def signatureInvalidError : MultisigError :=
  ⟨"This cosigner reply's signature doesn't match this signing session, so it doesn't count. Ask the cosigner to sign this session's request again and send the new reply.",
    some "MULTISIG_SIGNATURE_INVALID"⟩

def nonceInvalidError (message : String) : MultisigError :=
  ⟨message, some "MULTISIG_NONCE_INVALID"⟩

def multisigFinalizationConflictError : MultisigError :=
  ⟨"This signing session was already finalized with a different transaction. The saved transaction was not changed.",
    some "MULTISIG_FINALIZATION_CONFLICT"⟩

def ensureSession (sessionId : String) (session : Option MultisigSigningSession) :
    Except MultisigError MultisigSigningSession :=
  orRefuse session (plainError s!"multisigSigning: session \"{sessionId}\" not found")

/-- The cosigner's key in lower case. -/
def assertCosigner (session : MultisigSigningSession) (pubkey : HexText) :
    Except MultisigError HexText := do
  refuseIf (session.cosignerPubkeys.contains (lowerHex pubkey) = false)
    (plainError s!"multisigSigning: pubkey \"{String.ofList pubkey}\" is not a cosigner of this session")
  pure (lowerHex pubkey)

def assertStatus (session : MultisigSigningSession) (allowed : List MultisigStatus) :
    Except MultisigError Unit :=
  refuseIf (session.status ∉ allowed) (plainError
    (s!"multisigSigning: session is in status \"{session.status.text}\"; expected one of " ++
      " / ".intercalate (allowed.map MultisigStatus.text)))

/-- The message for a nonce that does not count. -/
def musig2NonceProblem (session : MultisigSigningSession) (publicNonceHex : HexText) :
    Option String :=
  if p.isPoint (publicNonceHex.take 66) = false ∨ p.isPoint (publicNonceHex.drop 66) = false then
    some "This cosigner's step 1 reply isn't a valid response for this signing session, so it doesn't count. Ask the cosigner to load this session's request again and send the new reply."
  else if session.nonces.any (·.publicNonce = publicNonceHex) then
    some "This step 1 reply is identical to one already counted for another cosigner, so it doesn't count. One of the two replies isn't genuine. If this session can't collect a reply from every cosigner, cancel it and start a new signing session."
  else none

/-- Whether a partial verifies under the cosigner and its nonce. `registry` says whether the caller
has handed over the chains' SDKs. -/
def isMusig2PartialOf (registry : Bool) (session : MultisigSigningSession)
    (pubkey partialHex : HexText) : Except MultisigError Bool := do
  refuseIf (registry = false)
    (plainError "contributeMultisigSignature: sdkRegistry is required to verify a MuSig2 partial")
  let unavailable := plainError
    s!"contributeMultisigSignature: sdk.musig2.verifyPartial unavailable for chainId \"{session.chainId}\""
  let sdk ← orRefuse (p.sdks session.chainId) unavailable
  let musig2 ← orRefuse sdk.musig2 unavailable
  let verifyPartial ← orRefuse musig2.verifyPartial unavailable
  match session.aggNonce.filter (· ≠ []), session.nonces.find? (·.pubkey = pubkey) with
  | some aggNonce, some nonce =>
    let verified := do
      let sessionKey ← musig2.startSession (hexToBytes aggNonce) (hexToBytes session.msgHash)
        (session.cosignerPubkeys.map hexToBytes)
      verifyPartial (hexToBytes partialHex) (hexToBytes pubkey) (hexToBytes nonce.publicNonce)
        sessionKey
    pure (verified.toOption = some true)
  | _, _ => pure false

/-! ### Changes -/

/-- The record is written, and returned once it is stored. -/
def persist (session : MultisigSigningSession) : MultisigTask := .put session (.done session)

/-- Move a session that has not ended to `cancelled`. -/
def cancelMultisigSigningSession (sessionId : String) (session : Option MultisigSigningSession) :
    MultisigTask :=
  Versioned.Task.checked do
    let session ← ensureSession sessionId session
    if session.status = .cancelled ∨ session.status = .broadcast then pure (.done session)
    else pure (persist { session with status := .cancelled })

/-- MuSig2 round 1: append a cosigner's public nonce. -/
def contributeMultisigNonce (sessionId : String) (pubkey publicNonceHex : HexText)
    (session : Option MultisigSigningSession) : MultisigTask :=
  Versioned.Task.checked do
    refuseIf (isHexTextLength publicNonceHex 66 = false)
      (plainError "contributeMultisigNonce: publicNonceHex must be 66-byte hex")
    let session ← ensureSession sessionId session
    refuseIf (session.scheme ≠ .taprootMusig2) (plainError
      s!"contributeMultisigNonce: scheme \"{session.scheme.text}\" does not collect nonces")
    assertStatus session [.collectingNonces]
    let lowerPubkey ← assertCosigner session pubkey
    refuseIf (session.nonces.any (·.pubkey = lowerPubkey)) (plainError
      s!"contributeMultisigNonce: cosigner \"{String.ofList lowerPubkey}\" already contributed a nonce")
    match musig2NonceProblem p session (lowerHex publicNonceHex) with
    | some message => throw (nonceInvalidError message)
    | none =>
      pure (persist { session with
        nonces := session.nonces ++ [⟨lowerPubkey, lowerHex publicNonceHex⟩] })

/-- MuSig2 round 2: append a cosigner's partial signature. -/
def contributePartialSig (registry : Bool) (session : MultisigSigningSession)
    (lowerPubkey lowerSig : HexText) : Except MultisigError MultisigTask := do
  refuseIf (lowerSig.length ≠ 64) (plainError
    "contributeMultisigSignature: MuSig2 partial sig must be 32-byte (64-char) hex")
  refuseIf (session.partialSigs.any (·.pubkey = lowerPubkey)) (plainError
    s!"contributeMultisigSignature: cosigner \"{String.ofList lowerPubkey}\" already contributed a partial sig")
  let verified ← isMusig2PartialOf p registry session lowerPubkey lowerSig
  refuseIf (verified = false) signatureInvalidError
  pure (persist { session with
    partialSigs := session.partialSigs ++ [⟨lowerPubkey, lowerSig⟩] })

/-- The single round of the other schemes: append a cosigner's signature. -/
def contributeClassicalSig (session : MultisigSigningSession) (lowerPubkey lowerSig : HexText) :
    Except MultisigError MultisigTask := do
  refuseIf (lowerSig.length < 16 ∨ 200 < lowerSig.length) (plainError
    "contributeMultisigSignature: ECDSA DER signature length out of expected range")
  refuseIf (session.signatures.any (·.pubkey = lowerPubkey)) (plainError
    s!"contributeMultisigSignature: cosigner \"{String.ofList lowerPubkey}\" already contributed a signature")
  refuseIf (p.isEcdsaSignature lowerSig session.msgHash lowerPubkey = false) signatureInvalidError
  let signatures := session.signatures ++ [⟨lowerPubkey, lowerSig⟩]
  pure (persist { session with
    signatures := signatures,
    status := if session.threshold ≤ signatures.length then .readyToFinalize
      else session.status })

def contributeMultisigSignature (sessionId : String) (registry : Bool)
    (pubkey signatureHex : HexText) (session : Option MultisigSigningSession) : MultisigTask :=
  Versioned.Task.checked do
    refuseIf (isByteHex signatureHex = false)
      (plainError "contributeMultisigSignature: signatureHex must be hex")
    let session ← ensureSession sessionId session
    assertStatus session [.collectingSigs]
    let lowerPubkey ← assertCosigner session pubkey
    if session.scheme = .taprootMusig2 then
      contributePartialSig p registry session lowerPubkey (lowerHex signatureHex)
    else contributeClassicalSig p session lowerPubkey (lowerHex signatureHex)

/-- The second transition of the aggregation, from round 2 on. -/
def aggregatePartialSigs (musig2 : Musig2 K) (session : MultisigSigningSession) : MultisigTask :=
  if session.status = .collectingSigs ∧ session.threshold ≤ session.partialSigs.length then
    match session.aggNonce.filter (· ≠ []) with
    | none => .fail (plainError
        "aggregateMultisigSession: cannot aggregate sigs without aggNonce (round 1 not completed)")
    | some aggNonce =>
      let orderedSigs := ((session.cosignerPubkeys.filterMap fun pk =>
        session.partialSigs.find? (·.pubkey = pk)).take session.threshold).map
          fun s => hexToBytes s.sig
      let schnorr := do
        let sessionKey ← musig2.startSession (hexToBytes aggNonce) (hexToBytes session.msgHash)
          (session.cosignerPubkeys.map hexToBytes)
        musig2.aggregateSignatures orderedSigs sessionKey
      match schnorr with
      | .error message => .fail (plainError message)
      | .ok schnorr =>
        persist { session with
          aggregatedSchnorrSig := some (bytesToHex schnorr), status := .readyToFinalize }
  else .done session

/-- Both transitions of the aggregation, where the nonces or the partials are enough. -/
def aggregateMultisigSession (sessionId : String) (registry : Bool)
    (session : Option MultisigSigningSession) : MultisigTask :=
  Versioned.Task.checked do
    refuseIf (registry = false) (plainError "aggregateMultisigSession: sdkRegistry is required")
    let session ← ensureSession sessionId session
    refuseIf (session.scheme ≠ .taprootMusig2)
      (plainError "aggregateMultisigSession: only valid for taproot-musig2 sessions")
    let sdk ← orRefuse (p.sdks session.chainId) (plainError
      s!"aggregateMultisigSession: no SDK registered for chainId \"{session.chainId}\"")
    let musig2 ← orRefuse sdk.musig2
      (plainError "aggregateMultisigSession: sdk.musig2 unavailable; bump xchain-sdk to 1.10+")
    if session.status = .collectingNonces ∧ session.threshold ≤ session.nonces.length then
      let orderedNonces := ((session.cosignerPubkeys.filterMap fun pk =>
        session.nonces.find? (·.pubkey = pk)).take session.threshold).map
          fun n => hexToBytes n.publicNonce
      match musig2.aggregateNonces orderedNonces with
      | .error message => throw (plainError message)
      | .ok aggNonce =>
        let session := { session with
          aggNonce := some (bytesToHex aggNonce), status := .collectingSigs }
        pure (.put session (aggregatePartialSigs musig2 session))
    else pure (aggregatePartialSigs musig2 session)

/-- `TXID_RE`: 64 digits in either case. -/
def isTxid (txid : HexText) : Bool :=
  txid.length = 64 ∧ txid.all fun c => (hexValue? c).isSome

/-- What the answer of the node makes of the session. -/
def recordBroadcast (session : MultisigSigningSession) : SdkAnswer → MultisigTask
  | .error refusal =>
    if refusal.isAlreadyOnNetwork then persist { session with status := .broadcast }
    else .fail (plainError refusal.message)
  | .ok reply =>
    match reply.txid.filter isTxid with
    | none => .fail (plainError "finalizeMultisigSigningSession: broadcast returned no txid")
    | some broadcastTxid =>
      if session.txid.any fun txid => isTxid txid ∧ lowerHex broadcastTxid ≠ lowerHex txid then
        .fail (plainError
          "finalizeMultisigSigningSession: broadcast returned a txid for a different transaction")
      else
        persist { session with txid := some (lowerHex broadcastTxid), status := .broadcast }

/-- `finalizeMultisigSigningSession` with `broadcast`: send the finalized bytes. -/
def broadcastMultisigSession (sessionId : String) (registry : Bool)
    (session : Option MultisigSigningSession) : MultisigTask :=
  Versioned.Task.checked do
    refuseIf (sessionId = "")
      (plainError "finalizeMultisigSigningSession: sessionId is required")
    let session ← ensureSession sessionId session
    if session.status = .broadcast then pure (.done session)
    else
      assertStatus session [.finalized]
      refuseIf (registry = false)
        (plainError "finalizeMultisigSigningSession: sdkRegistry is required to broadcast")
      let sdk ← orRefuse (p.sdks session.chainId) (plainError
        s!"finalizeMultisigSigningSession: no SDK registered for chainId \"{session.chainId}\"")
      refuseIf (sdk.canBroadcast = false)
        (plainError "finalizeMultisigSigningSession: sdk.encoder.broadcastTx is unavailable")
      pure (.ask (.checkBroadcast session.finalizedTxHex session.psbtHex ("multisig:" ++ session.id))
        fun
          | .error refusal => .fail (plainError refusal.message)
          | .ok _ => .ask (.broadcastTx session.finalizedTxHex) (recordBroadcast session))

/-- What the answer of the finalizer makes of the session. -/
def recordFinalized (session : MultisigSigningSession) : SdkAnswer → MultisigTask
  | .error refusal => .fail (plainError refusal.message)
  | .ok reply =>
    match reply.txHex.filter isByteHex with
    | none => .fail (plainError
        "finalizeMultisigSigningSession: SDK returned invalid transaction hex")
    | some txHex =>
      persist { session with
        finalizedTxHex := some (lowerHex txHex),
        txid := (reply.txid.filter (· ≠ [])).or session.txid,
        status := .finalized }

/-- The bytes that the caller has supplied, for a session that is ready or has them already. -/
def finalizeSupplied (session : MultisigSigningSession) (finalizedTxHex : HexText)
    (txid : Option HexText) : Except MultisigError MultisigTask := do
  refuseIf (isByteHex finalizedTxHex = false)
    (plainError "finalizeMultisigSigningSession: finalizedTxHex must be hex")
  let suppliedTxid := txid.filter (· ≠ [])
  if session.status = .finalized then
    let sameTxid := suppliedTxid.all fun supplied =>
      session.txid.any fun txid => lowerHex supplied = lowerHex txid
    refuseIf (some (lowerHex finalizedTxHex) ≠ session.finalizedTxHex.map lowerHex ∨
      sameTxid = false) multisigFinalizationConflictError
    pure (.done session)
  else
    pure (persist { session with
      finalizedTxHex := some (lowerHex finalizedTxHex),
      txid := suppliedTxid.or session.txid,
      status := .finalized })

/-- `finalizeMultisigSigningSession` without `broadcast`. -/
def finalizeMultisigSigningSession (sessionId : String) (registry : Bool)
    (finalizedTxHex txid : Option HexText) (session : Option MultisigSigningSession) :
    MultisigTask :=
  Versioned.Task.checked do
    refuseIf (sessionId = "")
      (plainError "finalizeMultisigSigningSession: sessionId is required")
    let session ← ensureSession sessionId session
    assertStatus session [.readyToFinalize, .finalized]
    match finalizedTxHex with
    | some finalizedTxHex => finalizeSupplied session finalizedTxHex txid
    | none =>
      if session.status = .finalized then pure (.done session)
      else
        refuseIf (registry = false)
          (plainError "finalizeMultisigSigningSession: sdkRegistry is required to finalize")
        let sdk ← orRefuse (p.sdks session.chainId) (plainError
          s!"finalizeMultisigSigningSession: no SDK registered for chainId \"{session.chainId}\"")
        refuseIf (sdk.canFinalize = false) (plainError
          "finalizeMultisigSigningSession: sdk.wallet.finalizeMultisigPsbt is unavailable")
        pure (.ask (.finalizeMultisigPsbt session.psbtHex) (recordFinalized session))

/-! ### The system -/

/-- The entry points, each of which takes the lock of the session. -/
inductive MultisigCall
  | cancel
  | contributeNonce (pubkey publicNonceHex : HexText)
  | contributeSignature (registry : Bool) (pubkey signatureHex : HexText)
  | aggregate (registry : Bool)
  | finalize (registry : Bool) (finalizedTxHex txid : Option HexText)
  | broadcast (registry : Bool)
  deriving DecidableEq

/-- What a call does with the record that it reads. -/
def MultisigCall.change (sessionId : String) :
    MultisigCall → Option MultisigSigningSession → MultisigTask
  | cancel => cancelMultisigSigningSession sessionId
  | contributeNonce pubkey publicNonceHex =>
    contributeMultisigNonce p sessionId pubkey publicNonceHex
  | contributeSignature registry pubkey signatureHex =>
    contributeMultisigSignature p sessionId registry pubkey signatureHex
  | aggregate registry => aggregateMultisigSession p sessionId registry
  | finalize registry finalizedTxHex txid =>
    finalizeMultisigSigningSession p sessionId registry finalizedTxHex txid
  | broadcast registry => broadcastMultisigSession p sessionId registry

/-- One session over a vault: the handles' contexts, those with the Web Locks API, the schema and the
changes. -/
def multisigSystem (sessionId : String) (home : ℕ → ℕ) (webLocks : ℕ → Bool) :
    System MultisigSigningSession MultisigCall MultisigError MultisigQuestion SdkAnswer where
  home := home
  wideLock := webLocks
  validates := fun session => validateMultisigSigningSession session = []
  change := MultisigCall.change p sessionId

end XchainWallet
