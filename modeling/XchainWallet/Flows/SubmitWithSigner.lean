import XchainWallet.Flows.Ads
import XchainWallet.Traced.Program

/-!
# Submitting with a signer

`submitWithSigner` creates, encodes, signs and broadcasts an action, with one transaction or with a
commit and a reveal. What it asks of its environment is a field of `SubmitEnv`: an arbitrary function
of the world, which may throw. The long function of the source is cut at its own numbered steps:
`prepare` (1 and 2), `signTransactions` (3 to 3c), `clearBroadcast` (up to the checkpoint of 4),
`broadcastTransactions` (4 to 4b) and the wait (5).
-/

namespace XchainWallet.Submit

/-! ### Data -/

structure SigningPath where
  inputIndex : ℕ
  path : String

structure SignedTransaction where
  signedPsbtHex : String
  txHex : String
  txid : String
  deriving DecidableEq

/-- The recovery record of an envelope as it arrived; `none` is a field that is missing or of the
wrong type. -/
structure EnvelopeRecord where
  commitTxid : Option String
  commitVout : Option ℤ
  commitValue : Option String
  commitAddress : Option String
  internalPubkey : Option String
  tapleafHash : Option String
  deriving DecidableEq

/-- A field that should hold the hex of the reveal: missing, a text, or another truthy value. -/
inductive RevealPsbt where
  | missing
  | text (hex : String)
  | other
  deriving DecidableEq

/-- An encoder answer. -/
structure Encoded where
  psbt : String
  encoding : String
  compression : Option String
  revealPsbt : RevealPsbt
  envelope : Option EnvelopeRecord
  deriving DecidableEq

structure RevealOpts where
  change : Option String
  rawData : Option String

structure PrebuiltPsbt where
  psbtHex : String
  encoding : String
  actionString : String
  version : Option String
  deferredFeeOutput : Option CustomOutput
  deferredOutputs : List CustomOutput
  revealOpts : Option RevealOpts
  compression : Option String
  revealPsbt : RevealPsbt
  envelope : Option EnvelopeRecord

structure EncoderOpts where
  pubkey : String
  change : Option String
  sourceAddress : Option String
  rawData : Option String
  fee : Option ℕ
  feePerKb : Option ℕ
  customOutputs : Option (List CustomOutput)

structure CreateResult where
  actionString : String
  action : String
  version : Option String

structure FeeQuote where
  feeDestination : String
  requiredFeeSats : ℕ

structure SubmitOpts where
  chainId : String
  action : String
  encoderOpts : EncoderOpts
  signerKind : Option String
  signingPaths : List SigningPath
  prebuiltPsbt : Option PrebuiltPsbt
  verifyBuiltTx : Bool

/-! ### Errors -/

inductive BroadcastPhase where
  | phase1
  | envelope_reveal
  | phase2
  deriving DecidableEq

structure BroadcastFailed where
  cause : String
  signedTxHex : String
  txid : String
  chainId : String
  encoding : String
  phase : BroadcastPhase
  revealTxHex : Option String
  revealTxid : Option String

inductive SubmitError where
  | error (message : String)
  | hardwareChunkLane (action encoding : String) (signerKind : Option String)
  | envelopeConfirmLane (action encoding : String) (commitMismatch : Bool)
  | broadcastFailed (failure : BroadcastFailed)
  | other (name message : String)

def SubmitError.message : SubmitError → String
  | .error message => message
  | .other _ message => message
  | .hardwareChunkLane .. => "HardwareChunkLaneError"
  | .envelopeConfirmLane .. => "EnvelopeConfirmLaneError"
  | .broadcastFailed failure => failure.cause

/-! ### The envelope -/

def RevealPsbt.truthy : RevealPsbt → Bool
  | .missing => false
  | .text hex => hex ≠ ""
  | .other => true

def isEnvelopePair (encoding : String) (revealPsbt : RevealPsbt) (envelope : Option EnvelopeRecord) :
    Bool :=
  encoding = "TAPROOT" || revealPsbt.truthy || envelope.isSome

def EnvelopeRecord.isComplete (env : EnvelopeRecord) : Bool :=
  env.commitTxid.any (· ≠ "") && env.commitVout.any (0 ≤ ·) && env.commitValue.isSome &&
    env.commitAddress.any (· ≠ "") && env.tapleafHash.any (· ≠ "")

def isCompleteEnvelope (encoding : String) (revealPsbt : RevealPsbt)
    (envelope : Option EnvelopeRecord) : Bool :=
  isEnvelopePair encoding revealPsbt envelope && encoding = "TAPROOT" &&
    (match revealPsbt with
      | .text hex => hex ≠ ""
      | _ => false) &&
    envelope.any EnvelopeRecord.isComplete

/-! ### Requests and events -/

structure SignRequest where
  psbtHex : String
  signingPaths : List SigningPath
  envelopeReveal : Bool
  reveal : Bool

structure SpendRequest where
  pubkey : String
  p2shHash : String
  p2shHex : String
  data : String
  encoding : String
  rawData : Option String
  change : Option String
  fee : Option ℕ
  feePerKb : Option ℕ
  customOutputs : List CustomOutput

structure RecoveryRecord where
  commitTxid : Option String
  commitVout : Option ℤ
  commitValue : Option String
  commitAddress : Option String
  internalKeyPath : Option String
  tapleafHash : Option String
  coin : String
  deriving DecidableEq

/-- The signed bytes that the awaited `broadcasting` event writes down. -/
structure Checkpoint where
  txid : String
  txHex : String
  reveal : Option SignedTransaction
  deriving DecidableEq

inductive SubmitPhase where
  | creating (action : String)
  | encoding (actionString : Option String)
  | signing (encoding : String)
  | broadcasting (checkpoint : Checkpoint)
  | envelope_revealing (commitTxid : String)
  | envelope_revealed (txid commitTxid : String)
  | p2sh_spending (phase1Txid : String)
  | waiting (txid : String)
  | confirmed (txid : String)
  deriving DecidableEq

/-- The steps that stand before a broadcast. -/
inductive ClearingStep where
  | sign (psbtHex : String)
  | beforeBroadcast
  | freeze
  | recovery
  | checkpoint
  deriving DecidableEq

/-- What a trace shows of a submission. -/
inductive SubmitEvent where
  | built (encoded : Encoded)
  | spendBuilt (psbt : String)
  | signed (psbtHex : String) (tx : SignedTransaction)
  | approved
  | freezeChecked
  | recorded (record : RecoveryRecord)
  | checkpointed (checkpoint : Checkpoint)
  | threw (step : ClearingStep)
  | broadcast (txHex : String)
  | progress (phase : SubmitPhase)
  deriving DecidableEq

/-- A question to the environment. -/
abbrev Ask (σ α : Type) := σ → Except SubmitError α × σ

structure SubmitEnv (σ : Type) where
  hasEncoder : Bool
  isBareNativePayment : Bool
  owesPayment : Bool
  hasNativePaymentOutput : EncoderOpts → Bool
  capRbfToDescriptor : EncoderOpts → EncoderOpts
  isChunkEncoding : String → Bool
  annotateEncoderFeeRequirement : SubmitError → Option FeeQuote → SubmitError
  isAlreadyOnNetworkRejection : SubmitError → Bool
  inputCount : String → Option ℕ
  assertSigningAllowed : Ask σ Unit
  assertMainnetActionAllowed : Ask σ Unit
  createAction : Ask σ CreateResult
  envelopeEncoderOpts : Option CreateResult → EncoderOpts → Ask σ EncoderOpts
  withNativePaymentOutput : EncoderOpts → Ask σ EncoderOpts
  applyNativeFeePreflight : EncoderOpts → Option String → Ask σ (Option FeeQuote × EncoderOpts)
  applyOracleFeePreflight : EncoderOpts → Ask σ EncoderOpts
  createTx : Option String → EncoderOpts → Ask σ Encoded
  assertBuiltActionMatchesIntent : Encoded → Option String → EncoderOpts → Ask σ Unit
  outputsOf : String → Ask σ (List CustomOutput)
  signPsbt : SignRequest → Ask σ SignedTransaction
  spendP2sh : SpendRequest → Ask σ String
  assertRevealSpendsCommitLegs : String → List CustomOutput → SignedTransaction → Ask σ Unit
  assertRevealPaysApprovedOutputs : String → List CustomOutput → List (Option String) →
    SignedTransaction → Ask σ Unit
  beforeBroadcast : Option (SignedTransaction → Option SignedTransaction → String → Ask σ Unit)
  recordPendingCommit : RecoveryRecord → Ask σ Unit
  clearPendingCommit : Option String → Option ℤ → Ask σ Unit
  broadcastTx : String → Ask σ Unit
  waitForTxid : Option (String → Ask σ String)
  onProgress : SubmitPhase → Ask σ Unit

/-! ### The program -/

abbrev SubmitM (σ : Type) := Traced σ SubmitEvent SubmitError

variable {σ : Type} (env : SubmitEnv σ) (opts : SubmitOpts)

def progress (phase : SubmitPhase) : SubmitM σ Unit := do
  Traced.emit (.progress phase)
  Traced.call (env.onProgress phase)

/-- A clearing step: what it did is an event, and so is that it threw. -/
def clearing {α : Type} (step : ClearingStep) (did : α → SubmitEvent) (oracle : Ask σ α) :
    SubmitM σ α :=
  Traced.record oracle did (.threw step)

def assertSigningAllowed : SubmitM σ Unit :=
  clearing .freeze (fun _ => .freezeChecked) env.assertSigningAllowed

def signPsbt (request : SignRequest) : SubmitM σ SignedTransaction :=
  clearing (.sign request.psbtHex) (.signed request.psbtHex) (env.signPsbt request)

def refuseIf (refused : Bool) (err : SubmitError) : SubmitM σ Unit :=
  if refused then throw err else pure ()

def assertCompleteEnvelope (action encoding : String) (revealPsbt : RevealPsbt)
    (envelope : Option EnvelopeRecord) : SubmitM σ Unit :=
  refuseIf (isEnvelopePair encoding revealPsbt envelope && !isCompleteEnvelope encoding revealPsbt envelope)
    (.envelopeConfirmLane action encoding false)

/-- What the steps before the first signature hand on. -/
structure Prepared where
  createResult : Option CreateResult
  effectiveEncoderOpts : EncoderOpts
  encoded : Encoded
  quote : Option FeeQuote
  deferredOutputs : List CustomOutput
  revealOpts : Option RevealOpts

/-- The prebuilt branch: the transaction is the one that was previewed. -/
def preparePrebuilt (prebuilt : PrebuiltPsbt) : SubmitM σ Prepared := do
  assertCompleteEnvelope opts.action prebuilt.encoding prebuilt.revealPsbt prebuilt.envelope
  progress env (.creating opts.action)
  progress env (.encoding (some prebuilt.actionString))
  let pair := isEnvelopePair prebuilt.encoding prebuilt.revealPsbt prebuilt.envelope
  let encoded : Encoded :=
    { psbt := prebuilt.psbtHex, encoding := prebuilt.encoding, compression := prebuilt.compression,
      revealPsbt := if pair then prebuilt.revealPsbt else .missing,
      envelope := if pair then prebuilt.envelope else none }
  pure
    { createResult := some ⟨prebuilt.actionString, opts.action, prebuilt.version⟩,
      effectiveEncoderOpts := opts.encoderOpts,
      encoded := encoded,
      quote := none,
      deferredOutputs :=
        if prebuilt.deferredOutputs.isEmpty then prebuilt.deferredFeeOutput.toList
        else prebuilt.deferredOutputs,
      revealOpts := prebuilt.revealOpts }

/-- A bare payment has no action to create. -/
def createAction : SubmitM σ (Option CreateResult) :=
  if env.isBareNativePayment then pure none else some <$> Traced.call env.createAction

/-- `createTx`, with the fee requirement on an error. -/
def createTx (data : Option String) (encoderOpts : EncoderOpts) (quote : Option FeeQuote) :
    SubmitM σ Encoded :=
  tryCatch (Traced.call (env.createTx data encoderOpts)) fun err =>
    throw (env.annotateEncoderFeeRequirement err quote)

def verifyBuilt (encoded : Encoded) (data : Option String) (encoderOpts : EncoderOpts) :
    SubmitM σ Unit :=
  if opts.verifyBuiltTx then
    Traced.call (env.assertBuiltActionMatchesIntent encoded data encoderOpts)
  else pure ()

/-- The live branch: create the action, price its fees, and have it encoded. -/
def prepareLive : SubmitM σ Prepared := do
  progress env (.creating opts.action)
  let createResult ← createAction env
  let requested ← Traced.call (env.envelopeEncoderOpts createResult opts.encoderOpts)
  let paid ← Traced.call (env.withNativePaymentOutput requested)
  let preflight ← Traced.call
    (env.applyNativeFeePreflight paid (requested.sourceAddress.or requested.change))
  let oracle ← Traced.call (env.applyOracleFeePreflight preflight.2)
  let effective := env.capRbfToDescriptor oracle
  refuseIf (env.owesPayment && !env.hasNativePaymentOutput effective)
    (.error "submitWithSigner: a native-coin send must carry its destination payment output")
  let data := createResult.map CreateResult.actionString
  progress env (.encoding data)
  let encoded ← createTx env data effective preflight.1
  assertCompleteEnvelope opts.action encoded.encoding encoded.revealPsbt encoded.envelope
  verifyBuilt env opts encoded data effective
  pure
    { createResult := createResult, effectiveEncoderOpts := effective, encoded := encoded,
      quote := preflight.1,
      deferredOutputs :=
        if env.isChunkEncoding encoded.encoding then effective.customOutputs.getD [] else [],
      revealOpts := none }

def prepare : SubmitM σ Prepared := do
  refuseIf (opts.action = "") (.error "submitWithSigner: actionData.action is required")
  refuseIf (opts.encoderOpts.pubkey = "") (.error "submitWithSigner: encoderOpts.pubkey is required")
  refuseIf opts.signingPaths.isEmpty
    (.error "submitWithSigner: signingPaths must be a non-empty array")
  assertSigningAllowed env
  Traced.call env.assertMainnetActionAllowed
  refuseIf (!env.hasEncoder) (.error
    "submitWithSigner: SDK encoder not initialized; call sdkRegistry.initActive([chainId]) first")
  match opts.prebuiltPsbt with
  | some prebuilt => preparePrebuilt env opts prebuilt
  | none => prepareLive env opts

/-- The two-phase lane: a second transaction spends the script that the first one pays. -/
def Encoded.needsPhase2 (encoded : Encoded) : Bool :=
  encoded.encoding = "P2SH" || encoded.encoding = "P2WSH"

/-- The taproot lane: the reveal comes with the commit. -/
def Encoded.envelopePair (encoded : Encoded) : Bool := encoded.revealPsbt.truthy

def RevealPsbt.hex : RevealPsbt → String
  | .text hex => hex
  | _ => ""

/-- One signing path an input, where the transaction has more inputs than paths were given. -/
def expandSigningPaths (psbtHex : String) : List SigningPath :=
  match opts.signingPaths.head?, env.inputCount psbtHex with
  | some base, some count =>
    if count ≤ opts.signingPaths.length then opts.signingPaths
    else (List.range count).map fun inputIndex => { base with inputIndex := inputIndex }
  | _, _ => opts.signingPaths

/-- A bare payment has no action, and reading one off it throws. -/
def actionStringOf : Option CreateResult → SubmitM σ String
  | some createResult => pure createResult.actionString
  | none => throw (.other "TypeError" "Cannot read properties of null (reading 'actionString')")

/-- Step 3b: the reveal of an envelope. -/
def signEnvelopeReveal (encoded : Encoded) : SubmitM σ (Option SignedTransaction) :=
  if encoded.envelopePair then
    some <$> signPsbt env
      ⟨encoded.revealPsbt.hex, expandSigningPaths env opts encoded.revealPsbt.hex, true, false⟩
  else pure none

/-- The phase-2 transaction, built over the signed commit, checked and signed. -/
def signSpend (prepared : Prepared) (phase1Outputs : List CustomOutput)
    (signed : SignedTransaction) : SubmitM σ SignedTransaction := do
  let effective := prepared.effectiveEncoderOpts
  let revealChange := (prepared.revealOpts.bind RevealOpts.change).or effective.change
  let data ← actionStringOf prepared.createResult
  let spend ← Traced.call (env.spendP2sh
    { pubkey := effective.pubkey, p2shHash := signed.txid, p2shHex := signed.txHex, data := data,
      encoding := prepared.encoded.encoding,
      rawData := (prepared.revealOpts.bind RevealOpts.rawData).or effective.rawData,
      change := revealChange,
      fee := effective.fee,
      feePerKb := effective.feePerKb,
      customOutputs := prepared.deferredOutputs })
  Traced.emit (.spendBuilt spend)
  Traced.call (env.assertRevealSpendsCommitLegs spend phase1Outputs signed)
  Traced.call (env.assertRevealPaysApprovedOutputs spend prepared.deferredOutputs
    [revealChange, effective.sourceAddress, effective.change] signed)
  signPsbt env ⟨spend, expandSigningPaths env opts spend, false, true⟩

/-- Step 3c: the reveal of the two-phase lane. -/
def signPhase2 (prepared : Prepared) (phase1Outputs : List CustomOutput)
    (signed : SignedTransaction) : SubmitM σ (Option SignedTransaction) :=
  if prepared.encoded.needsPhase2 then
    some <$> signSpend env opts prepared phase1Outputs signed
  else pure none

def commitOutputs (encoded : Encoded) : SubmitM σ (List CustomOutput) :=
  if encoded.needsPhase2 then Traced.call (env.outputsOf encoded.psbt) else pure []

/-- Steps 3 to 3c: every transaction of the action is signed while nothing is on chain. -/
def signTransactions (prepared : Prepared) :
    SubmitM σ (SignedTransaction × Option SignedTransaction) := do
  let encoded := prepared.encoded
  Traced.emit (.built encoded)
  refuseIf (encoded.needsPhase2 && opts.signerKind ≠ some "software")
    (.hardwareChunkLane opts.action encoded.encoding opts.signerKind)
  let phase1Outputs ← commitOutputs env encoded
  progress env (.signing encoded.encoding)
  let signed ← signPsbt env ⟨encoded.psbt, expandSigningPaths env opts encoded.psbt, false, false⟩
  refuseIf (encoded.envelopePair && encoded.envelope.any fun e => e.commitTxid ≠ some signed.txid)
    (.envelopeConfirmLane opts.action encoded.encoding true)
  let envelopeRevealSigned ← signEnvelopeReveal env opts encoded
  let phase2Signed ← signPhase2 env opts prepared phase1Outputs signed
  pure (signed, envelopeRevealSigned.or phase2Signed)

/-- The record from which the key-path cancel of a commit is rebuilt. -/
def recoveryRecord (e : EnvelopeRecord) : RecoveryRecord :=
  { commitTxid := e.commitTxid, commitVout := e.commitVout, commitValue := e.commitValue,
    commitAddress := e.commitAddress,
    internalKeyPath := ((opts.signingPaths.head?.map SigningPath.path).filter (· ≠ "")).or
      e.internalPubkey,
    tapleafHash := e.tapleafHash,
    coin := opts.chainId }

def checkpointOf (signed : SignedTransaction) (revealSigned : Option SignedTransaction) :
    Checkpoint :=
  ⟨signed.txid, signed.txHex, revealSigned⟩

def approve (psbt : String) (signed : SignedTransaction) (revealSigned : Option SignedTransaction) :
    SubmitM σ Unit :=
  match env.beforeBroadcast with
  | some hook => clearing .beforeBroadcast (fun _ => .approved) (hook signed revealSigned psbt)
  | none => pure ()

def recordPendingCommit (encoded : Encoded) : SubmitM σ Unit :=
  match encoded.envelopePair, encoded.envelope with
  | true, some e =>
    clearing .recovery (fun _ => .recorded (recoveryRecord opts e))
      (env.recordPendingCommit (recoveryRecord opts e))
  | _, _ => pure ()

/-- The steps between the last signature and the first broadcast. -/
def clearBroadcast (encoded : Encoded) (signed : SignedTransaction)
    (revealSigned : Option SignedTransaction) : SubmitM σ Unit := do
  approve env encoded.psbt signed revealSigned
  assertSigningAllowed env
  recordPendingCommit env opts encoded
  let checkpoint := checkpointOf signed revealSigned
  clearing .checkpoint (fun _ => .checkpointed checkpoint) (env.onProgress (.broadcasting checkpoint))

/-- Bytes that the node already holds are delivered. -/
def broadcastSigned (txHex : String) : SubmitM σ Unit := do
  Traced.emit (.broadcast txHex)
  tryCatch (Traced.call (env.broadcastTx txHex)) fun err =>
    if env.isAlreadyOnNetworkRejection err then pure () else throw err

/-- A broadcast whose failure carries the signed bytes. -/
def broadcastOrFail (encoding : String) (phase : BroadcastPhase) (tx : SignedTransaction)
    (reveal : Option SignedTransaction) : SubmitM σ Unit :=
  tryCatch (broadcastSigned env tx.txHex) fun err =>
    throw (.broadcastFailed
      { cause := err.message, signedTxHex := tx.txHex, txid := tx.txid, chainId := opts.chainId,
        encoding := encoding, phase := phase,
        revealTxHex := (reveal.map SignedTransaction.txHex).filter (· ≠ ""),
        revealTxid := (reveal.filter (·.txHex ≠ "")).map SignedTransaction.txid |>.filter (· ≠ "") })

def ignoringErrors (p : SubmitM σ Unit) : SubmitM σ Unit := tryCatch p fun _ => pure ()

/-- Step 4a: the envelope's reveal. Nothing after its broadcast makes it a failure. -/
def broadcastEnvelopeReveal (encoded : Encoded) (signed reveal : SignedTransaction) :
    SubmitM σ Unit := do
  progress env (.envelope_revealing signed.txid)
  broadcastOrFail env opts encoded.encoding .envelope_reveal reveal none
  ignoringErrors (Traced.call (env.clearPendingCommit
    (encoded.envelope.bind EnvelopeRecord.commitTxid)
    (encoded.envelope.bind EnvelopeRecord.commitVout)))
  ignoringErrors (progress env (.envelope_revealed reveal.txid signed.txid))

/-- Step 4b: the phase-2 transaction. -/
def broadcastPhase2 (encoded : Encoded) (signed reveal : SignedTransaction) : SubmitM σ Unit := do
  progress env (.p2sh_spending signed.txid)
  broadcastOrFail env opts encoded.encoding .phase2 reveal none

/-- No answer is both an envelope and two-phase: an envelope's encoding is `TAPROOT`. -/
def broadcastReveal (encoded : Encoded) (signed reveal : SignedTransaction) : SubmitM σ Unit :=
  if encoded.envelopePair then broadcastEnvelopeReveal env opts encoded signed reveal
  else broadcastPhase2 env opts encoded signed reveal

/-- Steps 4 to 4b: the commit goes out and then its reveal. The last transaction is the action's. -/
def broadcastTransactions (encoded : Encoded) (signed : SignedTransaction)
    (revealSigned : Option SignedTransaction) : SubmitM σ SignedTransaction := do
  broadcastOrFail env opts encoded.encoding .phase1 signed revealSigned
  match revealSigned with
  | none => pure signed
  | some reveal => do
    broadcastReveal env opts encoded signed reveal
    pure reveal

structure SubmitResult where
  txid : String
  createResult : Option CreateResult
  encoding : String
  signed : SignedTransaction
  indexed : Option String
  nativeFeeQuote : Option FeeQuote
  compression : Option String

/-- Step 5: the optional wait for the indexer. -/
def awaitIndexed (txid : String) : SubmitM σ (Option String) :=
  match env.waitForTxid with
  | none => pure none
  | some waitForTxid => do
    progress env (.waiting txid)
    let indexed ← Traced.call (waitForTxid txid)
    progress env (.confirmed txid)
    pure (some indexed)

def submitWithSigner : SubmitM σ SubmitResult := do
  let prepared ← prepare env opts
  let (signed, revealSigned) ← signTransactions env opts prepared
  clearBroadcast env opts prepared.encoded signed revealSigned
  let final ← broadcastTransactions env opts prepared.encoded signed revealSigned
  let indexed ← awaitIndexed env final.txid
  pure ⟨final.txid, prepared.createResult, prepared.encoded.encoding, final, indexed, prepared.quote,
    prepared.encoded.compression⟩

end XchainWallet.Submit
