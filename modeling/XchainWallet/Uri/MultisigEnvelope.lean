import XchainWallet.Checks.Refuse
import XchainWallet.Json.Reading

/-!
# Envelopes of a multisig spend

Cosigners hand a spend round as JSON: a request of the coordinator, a reply, or the finalized
transaction. `validateEnvelope` reads a parsed value as an envelope, with the texts in lower case and
the session reference in its canonical form, whose hash is the fingerprint. `decodeEnvelope` reads
one from bytes, `encodeEnvelope` writes one.

A refusal is a `MultisigEnvelopeError`. `typeError` is what the language throws where a text is asked
of a value that has none, or lower case of a value that is no string.

The case mapping of the language and SHA-256 are fields of `EnvelopePlatform`, with what is known of
them: to lower the case twice is to lower it once, in ASCII it changes the capital letters, and no
character outside ASCII becomes a hex digit.
-/

namespace XchainWallet

open Json Checks

/-- A unit of a hex text in lower case. -/
def isHexUnit (u : UInt16) : Bool := (48 ≤ u ∧ u ≤ 57) ∨ (97 ≤ u ∧ u ≤ 102)

/-- The lower case of a unit of ASCII. -/
def asciiLower (u : UInt16) : UInt16 := if 65 ≤ u ∧ u ≤ 90 then u + 32 else u

/-- What the envelopes take from the platform. -/
structure EnvelopePlatform where
  toLowerCase : Units → Units
  toLowerCase_idem : ∀ s, toLowerCase (toLowerCase s) = toLowerCase s
  toLowerCase_ascii : ∀ s, (∀ u ∈ s, u < 128) → toLowerCase s = s.map asciiLower
  ascii_of_hex : ∀ s, (toLowerCase s).all isHexUnit → ∀ u ∈ s, u < 128
  sha256 : ByteArray → List UInt8
  length_sha256 : ∀ bytes, (sha256 bytes).length = 32
  parseFailure : ByteArray → Units

/-- What is thrown. -/
inductive EnvelopeFault where
  | multisigEnvelopeError (message : Units)
  | typeError

/-! ### Kinds -/

/-- The kinds of an envelope. -/
inductive EnvelopeKind where
  | requestNonce
  | round1Reply
  | requestPartial
  | round2Reply
  | requestSignature
  | classicalReply
  | finalized
deriving DecidableEq

namespace EnvelopeKind

/-- The kind as the envelope names it. -/
def name : EnvelopeKind → String
  | requestNonce => "multisig-request-nonce"
  | round1Reply => "multisig-round-1-reply"
  | requestPartial => "multisig-request-partial"
  | round2Reply => "multisig-round-2-reply"
  | requestSignature => "multisig-request-signature"
  | classicalReply => "multisig-classical-reply"
  | finalized => "multisig-finalized"

/-- `MULTISIG_ENVELOPE_KINDS`. -/
def all : List EnvelopeKind :=
  [requestNonce, round1Reply, requestPartial, round2Reply, requestSignature, classicalReply,
    finalized]

/-- `kind.startsWith('multisig-request-')`. -/
def isRequest (kind : EnvelopeKind) : Bool :=
  "multisig-request-".toList.isPrefixOf kind.name.toList

/-- `kind.endsWith('-reply')`. -/
def isReply (kind : EnvelopeKind) : Bool := "-reply".toList.isSuffixOf kind.name.toList

end EnvelopeKind

/-- The kind among `kinds` that a value names. -/
def kindOf? (kinds : List EnvelopeKind) (v : Option Value) : Option EnvelopeKind :=
  (text? v).bind fun s => kinds.find? fun kind => units kind.name = s

/-! ### Refusals -/

/-- A refusal. -/
def envelopeError (message : Units) : EnvelopeFault :=
  .multisigEnvelopeError (units "multisig-envelope: " ++ message)

/-- Refuse in a case. -/
def refuseEnvelope (refused : Prop) [Decidable refused] (message : String) :
    Except EnvelopeFault Unit :=
  refuseIf refused (envelopeError (units message))

/-- Refuse in a case with a message that shows a value. -/
def refuseShowing (refused : Prop) [Decidable refused] (before : String) (v : Option Value)
    (behind : String) : Except EnvelopeFault Unit :=
  if refused then
    match shown v with
    | some s => .error (envelopeError (units before ++ s ++ units behind))
    | none => .error .typeError
  else .ok ()

/-- The text of a value, where it has one. -/
def stringOf (v : Option Value) : Except EnvelopeFault Units := orRefuse (shown v) .typeError

variable (p : EnvelopePlatform)

/-! ### Field checks -/

/-- `HEX_RE.test(s.toLowerCase())`. -/
def isHexText (s : Units) : Bool := p.toLowerCase s ≠ [] ∧ (p.toLowerCase s).all isHexUnit

/-- `isHexLength(v, bytes)`. -/
def isHexLength (v : Option Value) (bytes : ℕ) : Bool :=
  (text? v).any fun s => isHexText p s ∧ s.length = bytes * 2

/-- `isEvenHex(v)`. -/
def isEvenHex (v : Option Value) : Bool :=
  (text? v).any fun s => 0 < s.length ∧ s.length % 2 = 0 ∧ isHexText p s

/-- The schemes of a session. -/
def sessionSchemes : List Units :=
  [units "p2sh-multisig", units "p2wsh-multisig", units "taproot-musig2"]

/-- `Number.isInteger(n)`. -/
def isInteger : Number → Bool
  | .finite u _ => u % 2 ^ pointBits = 0
  | _ => false

/-- `n <= 0`. -/
def isAtMostZero : Number → Bool
  | .finite u _ => u ≤ 0
  | .infinite negative => negative
  | .nan => false

/-- `n > count`. -/
def exceeds (count : ℕ) : Number → Bool
  | .finite u _ => count * 2 ^ pointBits < u
  | .infinite negative => !negative
  | .nan => false

/-- The elements of an array. -/
def elements? : Option Value → Option (List Value)
  | some (.arr elements) => some elements
  | _ => none

/-- `assertSessionRef(ref)`. -/
def assertSessionRef (ref : Option Value) : Except EnvelopeFault Unit := do
  refuseEnvelope (¬isObject ref) "sessionRef is required"
  refuseShowing (¬(text? (prop "scheme" ref)).any (sessionSchemes.contains ·))
    "sessionRef.scheme \"" (prop "scheme" ref) "\" is invalid"
  refuseEnvelope
    (¬(number? (prop "threshold" ref)).any fun n => isInteger n ∧ ¬isAtMostZero n)
    "sessionRef.threshold must be a positive integer"
  refuseEnvelope (¬(elements? (prop "cosignerPubkeys" ref)).any fun pubkeys => 2 ≤ pubkeys.length)
    "sessionRef.cosignerPubkeys must be ≥ 2 entries"
  refuseEnvelope (¬(elements? (prop "cosignerPubkeys" ref)).any fun pubkeys =>
      pubkeys.all fun pubkey => isHexLength p (some pubkey) 33)
    "sessionRef.cosignerPubkeys must be 33-byte hex"
  refuseEnvelope (((number? (prop "threshold" ref)).any fun n =>
      (elements? (prop "cosignerPubkeys" ref)).any fun pubkeys => exceeds pubkeys.length n))
    "sessionRef.threshold must be ≤ cosignerPubkeys.length"
  refuseEnvelope (¬isHexLength p (prop "msgHash" ref) 32) "sessionRef.msgHash must be 32-byte hex"
  refuseEnvelope (¬isEvenHex p (prop "psbtHex" ref))
    "sessionRef.psbtHex must be non-empty, even-length hex"

/-- `assertContribution(kind, contribution)`. -/
def assertContribution (kind : EnvelopeKind) (contribution : Option Value) :
    Except EnvelopeFault Unit := do
  refuseEnvelope (¬isObject contribution) s!"contribution is required for \"{kind.name}\""
  match kind with
  | .round1Reply => do
    refuseEnvelope (¬isHexLength p (prop "pubkey" contribution) 33)
      "contribution.pubkey must be 33-byte hex"
    refuseEnvelope (¬isHexLength p (prop "publicNonce" contribution) 66)
      "contribution.publicNonce must be 66-byte hex"
  | .round2Reply => do
    refuseEnvelope (¬isHexLength p (prop "pubkey" contribution) 33)
      "contribution.pubkey must be 33-byte hex"
    refuseEnvelope (¬isHexLength p (prop "sig" contribution) 32)
      "contribution.sig must be 32-byte hex"
  | .classicalReply => do
    refuseEnvelope (¬isHexLength p (prop "pubkey" contribution) 33)
      "contribution.pubkey must be 33-byte hex"
    refuseEnvelope (¬isEvenHex p (prop "sig" contribution))
      "contribution.sig must be even-length hex"
    refuseEnvelope ((text? (prop "sig" contribution)).any fun sig =>
        sig.length < 16 ∨ 200 < sig.length)
      "contribution.sig length out of expected range"
  | .finalized => do
    refuseEnvelope (¬isEvenHex p (prop "txHex" contribution))
      "contribution.txHex must be non-empty, even-length hex"
    refuseEnvelope ((prop "txid" contribution).isSome ∧
        ¬(text? (prop "txid" contribution)).any fun txid => 0 < txid.length)
      "contribution.txid must be a non-empty string"
  | _ => .ok ()

/-- `assertAggNonce(kind, aggNonceHex)`. -/
def assertAggNonce (kind : EnvelopeKind) (aggNonceHex : Option Value) :
    Except EnvelopeFault Unit :=
  refuseEnvelope (kind = .requestPartial ∧ ¬isHexLength p aggNonceHex 66)
    "aggNonceHex must be 66-byte hex for round-2 requests"

/-! ### Session references -/

/-- `String(v || '').toLowerCase()`. -/
def lowerString (v : Option Value) : Except EnvelopeFault Units := do
  let s ← if truthy v then stringOf v else .ok []
  .ok (p.toLowerCase s)

/-- `(pubkeys || []).map((p) => String(p).toLowerCase())`. -/
def lowerPubkeys (pubkeys : Option Value) : Except EnvelopeFault (List Units) :=
  if truthy pubkeys then
    match elements? pubkeys with
    | some elements => elements.mapM fun pubkey => p.toLowerCase <$> stringOf (some pubkey)
    | none => .error .typeError
  else .ok []

/-- The members of a session reference, in their order. -/
structure SessionFields where
  scheme : Option Value
  threshold : Option Value
  cosignerPubkeys : List Units
  msgHash : Units
  psbtHex : Units

/-- The reference as a value. -/
def SessionFields.toValue (fields : SessionFields) : Value :=
  .obj ((fields.scheme.toList.map (units "scheme", ·)) ++
    (fields.threshold.toList.map (units "threshold", ·)) ++
    [(units "cosignerPubkeys", .arr (fields.cosignerPubkeys.map .str)),
      (units "msgHash", .str fields.msgHash), (units "psbtHex", .str fields.psbtHex)])

/-- `canonicalizeSessionRef(ref)`. -/
def canonicalizeSessionRef (ref : Option Value) : Except EnvelopeFault SessionFields := do
  let cosignerPubkeys ← lowerPubkeys p (prop "cosignerPubkeys" ref)
  let msgHash ← lowerString p (prop "msgHash" ref)
  let psbtHex ← lowerString p (prop "psbtHex" ref)
  .ok ⟨prop "scheme" ref, prop "threshold" ref, cosignerPubkeys, msgHash, psbtHex⟩

/-- `new TextEncoder().encode(JSON.stringify(v))`. -/
def encodedText (v : Value) : ByteArray := (String.ofList (Json.stringify v)).toByteArray

/-- The hash of a canonical reference, in hex. -/
def fingerprintOf (fields : SessionFields) : Units :=
  unitsOf (Wire.hexOf (p.sha256 (encodedText fields.toValue)))

/-- `fingerprintSessionRef(sessionRef)`. -/
def fingerprintSessionRef (sessionRef : Option Value) : Except EnvelopeFault Units := do
  refuseEnvelope (¬isObject sessionRef) "sessionRef must be an object"
  let canonical ← canonicalizeSessionRef p sessionRef
  .ok (fingerprintOf p canonical)

/-! ### Envelopes -/

/-- An envelope. -/
structure Envelope where
  kind : EnvelopeKind
  fingerprint : Units
  sessionRef : Option SessionFields
  aggNonce : Option Units
  contribution : Option (List (Units × Value))

/-- `ENVELOPE_VERSION`. -/
def envelopeVersion : Number := .ofDigits 1 0

/-- The envelope as a value. -/
def Envelope.toValue (e : Envelope) : Value :=
  .obj ([(units "v", .num envelopeVersion), (units "kind", .str (units e.kind.name)),
      (units "fingerprint", .str e.fingerprint)] ++
    (e.sessionRef.toList.map fun ref => (units "sessionRef", ref.toValue)) ++
    (e.aggNonce.toList.map fun nonce => (units "aggNonce", .str nonce)) ++
    (e.contribution.toList.map fun contribution => (units "contribution", .obj contribution)))

/-- The reference of a request or of a finalized spend, whose fingerprint must be `fingerprint`. -/
def checkedSessionRef (ref : Option Value) (fingerprint : Units) :
    Except EnvelopeFault SessionFields := do
  assertSessionRef p ref
  let canonical ← canonicalizeSessionRef p ref
  let expected ← fingerprintSessionRef p (some canonical.toValue)
  refuseEnvelope (expected ≠ fingerprint)
    "fingerprint does not match sessionRef; envelope is malformed or tampered"
  .ok canonical

/-- `if (contribution[name]) contribution[name] = contribution[name].toLowerCase()`. -/
def lowerMember (name : String) (contribution : List (Units × Value)) :
    Except EnvelopeFault (List (Units × Value)) :=
  if truthy (prop name (some (.obj contribution))) then
    match text? (prop name (some (.obj contribution))) with
    | some s => .ok (Keyed.upsert Prod.fst (units name, .str (p.toLowerCase s)) contribution)
    | none => .error .typeError
  else .ok contribution

/-- The contribution as the envelope keeps it. -/
def checkedContribution (kind : EnvelopeKind) (contribution : Option Value) :
    Except EnvelopeFault (List (Units × Value)) := do
  assertContribution p kind contribution
  let kept := contribution.elim [] Value.members
  let kept ← lowerMember p "pubkey" kept
  let kept ← lowerMember p "publicNonce" kept
  let kept ← lowerMember p "sig" kept
  lowerMember p "txHex" kept

/-- What is read in a case only. -/
def readWhen {α : Type} (applies : Bool) (read : Except EnvelopeFault α) :
    Except EnvelopeFault (Option α) :=
  if applies then some <$> read else .ok none

/-- `validateEnvelope(value)`. -/
def validateEnvelope (value : Option Value) : Except EnvelopeFault Envelope := do
  refuseEnvelope (¬isObject value) "envelope must be an object"
  refuseShowing (number? (prop "v" value) ≠ some envelopeVersion)
    "unsupported envelope version \"" (prop "v" value) "\" (expected 1)"
  refuseShowing (kindOf? EnvelopeKind.all (prop "kind" value) = none)
    "unknown envelope kind \"" (prop "kind" value) "\""
  let kind ← orRefuse (kindOf? EnvelopeKind.all (prop "kind" value)) .typeError
  refuseEnvelope (¬isHexLength p (prop "fingerprint" value) 32) "fingerprint must be 32-byte hex"
  let fingerprint ← p.toLowerCase <$> stringOf (prop "fingerprint" value)
  let sessionRef ← readWhen (kind.isRequest || kind = .finalized)
    (checkedSessionRef p (prop "sessionRef" value) fingerprint)
  let aggNonce ← readWhen (kind = .requestPartial) do
    assertAggNonce p kind (prop "aggNonce" value)
    p.toLowerCase <$> stringOf (prop "aggNonce" value)
  let contribution ← readWhen (kind.isReply || kind = .finalized)
    (checkedContribution p kind (prop "contribution" value))
  .ok ⟨kind, fingerprint, sessionRef, aggNonce, contribution⟩

/-- `encodeEnvelope(envelope)`. -/
def encodeEnvelope (envelope : Option Value) : Except EnvelopeFault ByteArray := do
  let validated ← validateEnvelope p envelope
  .ok (encodedText validated.toValue)

/-- `new TextDecoder('utf-8', { fatal: true }).decode(bytes)`, and `none` where it throws: the mark
of the byte order is no part of the text. -/
def decodeText (bytes : ByteArray) : Option (List Char) :=
  bytes.utf8Decode?.map fun text =>
    if text.toList.head? = some '\uFEFF' then text.toList.tail else text.toList

/-- What the bytes are parsed as. -/
def parseBytes (bytes : ByteArray) : Option Value := (decodeText bytes).bind parse

/-- `decodeEnvelope(bytes)`. -/
def decodeEnvelope (bytes : ByteArray) : Except EnvelopeFault Envelope := do
  let parsed ← orRefuse (parseBytes bytes)
    (envelopeError (units "JSON.parse failed: " ++ p.parseFailure bytes))
  validateEnvelope p (some parsed)

/-! ### Building -/

/-- What a request is built from. -/
structure RequestOptions where
  kind : Option Value
  sessionRef : Option Value
  aggNonceHex : Option Value

/-- `buildRequestEnvelope(opts)`. -/
def buildRequestEnvelope (opts : Option RequestOptions) : Except EnvelopeFault Envelope := do
  let opts ← orRefuse opts (envelopeError (units "opts is required"))
  let requests := [.requestNonce, .requestPartial, .requestSignature]
  refuseShowing (kindOf? requests opts.kind = none) "unknown request kind \"" opts.kind "\""
  let kind ← orRefuse (kindOf? requests opts.kind) .typeError
  assertSessionRef p opts.sessionRef
  assertAggNonce p kind opts.aggNonceHex
  let fingerprint ← fingerprintSessionRef p opts.sessionRef
  let sessionRef ← canonicalizeSessionRef p opts.sessionRef
  let aggNonce ← readWhen (kind = .requestPartial) (p.toLowerCase <$> stringOf opts.aggNonceHex)
  .ok ⟨kind, fingerprint, some sessionRef, aggNonce, none⟩

/-- What a reply is built from. -/
structure ReplyOptions where
  kind : Option Value
  fingerprint : Option Value
  contribution : Option Value

/-- `buildReplyEnvelope(opts)`. -/
def buildReplyEnvelope (opts : Option ReplyOptions) : Except EnvelopeFault Envelope := do
  let opts ← orRefuse opts (envelopeError (units "opts is required"))
  let replies := [.round1Reply, .round2Reply, .classicalReply]
  refuseShowing (kindOf? replies opts.kind = none) "unknown reply kind \"" opts.kind "\""
  let kind ← orRefuse (kindOf? replies opts.kind) .typeError
  refuseEnvelope (¬isHexLength p opts.fingerprint 32) "fingerprint must be 32-byte hex"
  assertContribution p kind opts.contribution
  let fingerprint ← p.toLowerCase <$> stringOf opts.fingerprint
  .ok ⟨kind, fingerprint, none, none, some (opts.contribution.elim [] Value.members)⟩

/-- What a finalized envelope is built from. -/
structure FinalizedOptions where
  sessionRef : Option Value
  txHex : Option Value
  txid : Option Value

/-- The contribution of a finalized envelope. -/
def finalizedContribution (txHex txid : Option Value) : List (Units × Value) :=
  (txHex.toList.map (units "txHex", ·)) ++ txid.toList.map (units "txid", ·)

/-- `buildFinalizedEnvelope(opts)`. -/
def buildFinalizedEnvelope (opts : Option FinalizedOptions) : Except EnvelopeFault Envelope := do
  let opts ← orRefuse opts (envelopeError (units "opts is required"))
  assertSessionRef p opts.sessionRef
  assertContribution p .finalized (some (.obj (finalizedContribution opts.txHex opts.txid)))
  let fingerprint ← fingerprintSessionRef p opts.sessionRef
  let sessionRef ← canonicalizeSessionRef p opts.sessionRef
  let txHex ← orRefuse (text? opts.txHex) .typeError
  let txid := if truthy opts.txid then opts.txid else none
  .ok ⟨.finalized, fingerprint, some sessionRef, none,
    some (finalizedContribution (some (.str (p.toLowerCase txHex))) txid)⟩

end XchainWallet
