import XchainWallet.Flows.EnvelopeRevealCheck

/-!
# The built transaction is the one that was asked for

On the atomic path the user approves an intent and the encoder, a service of the network, answers
with a PSBT. `assertBuiltActionMatchesIntent` assembles what the wallet asked for and runs the
checks on that answer. On the chunk lanes the commit emits none of the requested outputs; with an
envelope it funds the envelope's output besides.
-/

namespace XchainWallet.ConfirmChecks

open Checks

/-! ### The size of the payload -/

/-- The bytes in front of a push. -/
def pushPrefixSize (n : ℕ) : ℕ :=
  if n < 0x4c then 1 else if n ≤ 0xff then 2 else if n ≤ 0xffff then 3 else 5

def rawDataByteLen : RawData → ℕ
  | .text s => jsLength s.toList
  | .bytes bytes => bytes.length

/-- The size of the action and the payload as one script, stored without compression. -/
def compiledPayloadByteLen (actionString : String) (rawData : Option RawData) : ℕ :=
  let actionBytes := actionString.utf8ByteSize
  match rawData with
  | none => actionBytes + pushPrefixSize actionBytes
  | some raw =>
    let rawBytes := rawDataByteLen raw
    actionBytes + pushPrefixSize actionBytes + rawBytes + pushPrefixSize rawBytes

/-! ### The check -/

/-- The answer of the encoder. -/
structure EncodedTx where
  psbt : String
  encoding : Option String
  carrierScripts : List String
  compressed : Bool
  revealPsbt : String
  envelope : Option Envelope

/-- The functions of the chain's kit. -/
structure ChainTools extends PsbtTools where
  decodeRevealAction : String → Option DecodedAction
  assertEnvelopeCarrierBinding : Option (String → Option String → Option String → Bool)
  network : Option String

structure BuiltAction where
  encoded : Option EncodedTx
  actionString : Option String
  bareNativePayment : Bool
  customOutputs : List RequestedOutput
  ownAddresses : List String
  rawData : Option RawData

/-- `isChunkEncoding`. -/
def isChunkEncoding (encoding : Option String) : Bool :=
  CarrierEncoding.ofText encoding ∈ [CarrierEncoding.p2sh, .p2wsh]

/-- The spender and the change address. -/
def BuiltAction.own (built : BuiltAction) : List String := (built.ownAddresses.filter (· ≠ "")).dedup

/-- The outputs the first transaction has to emit. -/
def BuiltAction.expectedCustom (built : BuiltAction) (encoded : EncodedTx) : List RequestedOutput :=
  (if !built.bareNativePayment && isChunkEncoding encoded.encoding then [] else built.customOutputs) ++
    (encoded.envelope.map fun e => (⟨e.commitAddress, e.commitValue⟩ : RequestedOutput)).toList

def BuiltAction.payloadByteLen (built : BuiltAction) : JsNumber :=
  if built.bareNativePayment then none
  else (built.actionString.filter (· ≠ "")).map fun s => (compiledPayloadByteLen s built.rawData : ℚ)

def BuiltAction.tamperArgs (built : BuiltAction) (encoded : EncodedTx) (network : Option String) :
    TamperArgs :=
  { psbtHex := encoded.psbt
    expected := buildExpectedOutputs (built.expectedCustom encoded)
      (if built.bareNativePayment then none else encoded.encoding) none built.payloadByteLen
    ownAddresses := built.own
    actionString := built.actionString
    psbt := encoded.psbt
    carrierScripts := encoded.carrierScripts
    rawData := built.rawData
    rawDataCompressed := false
    network := network }

def BuiltAction.envelopeArgs (built : BuiltAction) (tools : ChainTools) (encoded : EncodedTx) :
    EnvelopeArgs :=
  { commit := tools.decomposePsbt encoded.psbt
    reveal := tools.decomposePsbt encoded.revealPsbt
    envelope := encoded.envelope
    ownAddresses := built.own
    actionString := built.actionString
    decodeRevealAction := tools.decodeRevealAction encoded.revealPsbt
    revealPsbt := encoded.revealPsbt
    network := tools.network
    assertEnvelopeCarrierBinding := tools.assertEnvelopeCarrierBinding }

def assertBuiltActionMatchesIntent (tools : ChainTools) (built : BuiltAction) :
    Except TamperDetectedError Unit := do
  let encoded ← orRefuse built.encoded ⟨ACTION_MISMATCH, .reason "no-psbt"⟩
  refuseIf (encoded.psbt = "") ⟨ACTION_MISMATCH, .reason "no-psbt"⟩
  refuseIf (encoded.compressed = true) ⟨ACTION_MISMATCH, .reason "unrequested-compression"⟩
  refuseIf (¬(encoded.revealPsbt = "" ↔ encoded.envelope = none))
    ⟨ACTION_MISMATCH, .reason "envelope-incomplete"⟩
  let _ ← assertNoTamper tools.toPsbtTools (built.tamperArgs encoded tools.network)
  match encoded.envelope with
  | none => pure ()
  | some _ =>
    match checkEnvelopeReveal (built.envelopeArgs tools encoded) with
    | none => pure ()
    | some refusal =>
      .error ⟨envelopeRevealRefusalMessage refusal, .reason refusal.reason⟩

/-- **What is signed is what was asked for.** Every output of the transaction is one that the wallet
asked for, change or a carrier, and the reveal of an envelope pays the wallet only. -/
theorem builtAction_accounted {tools : ChainTools} {built : BuiltAction}
    (h : assertBuiltActionMatchesIntent tools built = .ok ()) :
    ∃ encoded, built.encoded = some encoded ∧
      Accounted tools.toPsbtTools (built.tamperArgs encoded tools.network) ∧
      ∀ envelope, encoded.envelope = some envelope → ∃ funded spent,
        SoundEnvelopeReveal (built.envelopeArgs tools encoded) envelope funded spent := by
  unfold assertBuiltActionMatchesIntent at h
  obtain ⟨encoded, hencoded, h⟩ := bind_eq_ok.mp h
  obtain ⟨_, -, h⟩ := bind_eq_ok.mp h
  obtain ⟨_, -, h⟩ := bind_eq_ok.mp h
  obtain ⟨_, -, h⟩ := bind_eq_ok.mp h
  obtain ⟨checks, htamper, h⟩ := bind_eq_ok.mp h
  refine ⟨encoded, orRefuse_eq_ok.mp hencoded, accounted_of_ok htamper, fun envelope henvelope => ?_⟩
  rw [henvelope] at h
  cases hreveal : checkEnvelopeReveal (built.envelopeArgs tools encoded) with
  | some refusal => simp [hreveal] at h
  | none =>
    obtain ⟨envelope', funded, spent, hsome, hsound⟩ := checkEnvelopeReveal_sound hreveal
    obtain rfl : envelope = envelope' := Option.some.inj (henvelope.symm.trans hsome)
    exact ⟨funded, spent, hsound⟩

/-- A payment that carries no action, with change. -/
theorem builtAction_accounted_payment :
    let tools : ChainTools :=
      { decomposePsbt := fun _ =>
          { inputs := []
            outputs := [⟨some (.text "payee"), some "0014dd", some .p2wpkh, .text "5000"⟩,
              ⟨some (.text "change"), some "0014aa", some .p2wpkh, .number (some 900)⟩] }
        decodeActionFromPsbt := fun _ => none
        verifyCarrierScripts := none
        decodeRevealAction := fun _ => none
        assertEnvelopeCarrierBinding := none
        network := none }
    let encoded : EncodedTx := ⟨"70736274", none, [], false, "", none⟩
    let built : BuiltAction :=
      ⟨some encoded, none, true, [⟨"payee", .number (some 5000)⟩], ["change"], none⟩
    Accounted tools.toPsbtTools (built.tamperArgs encoded none) := by
  intro tools encoded built
  have hok : assertBuiltActionMatchesIntent tools built = .ok () := by rfl
  obtain ⟨_, hencoded, haccounted, -⟩ := builtAction_accounted hok
  exact Option.some.inj hencoded ▸ haccounted

end XchainWallet.ConfirmChecks
