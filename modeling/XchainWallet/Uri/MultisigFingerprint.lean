import XchainWallet.Uri.MultisigDecoding

/-!
# The identity of a session

The fingerprint of an envelope is a hash of the text of its canonical reference. The text determines the
reference, so that two envelopes with one fingerprint have one reference unless the hash collides on
their texts (`sessionRef_eq_of_fingerprint_eq`).

Requests and finalized envelopes that are built are returned by validation as they are. A reply is built
from whatever members its contribution has, and validation throws on it where one that is put in lower
case is no string (`passesValidation_reply_iff`).
-/

namespace XchainWallet

open Json Checks

variable {p : EnvelopePlatform}

/-! ### Fingerprints -/

private theorem unitsOfChar_hexDigit {c : Char} (h : c ∈ Wire.hexDigits) :
    ∃ u, unitsOfChar c = [u] ∧ isHexUnit u := by
  have hall : Wire.hexDigits.all (fun c => c.toNat < 0x10000 ∧
      isHexUnit (UInt16.ofNat c.toNat)) := by decide
  have hc := of_decide_eq_true (List.all_eq_true.mp hall c h)
  exact ⟨_, if_pos hc.1, hc.2⟩

private theorem unitsOf_hexOf {text : List Char} (h : ∀ c ∈ text, c ∈ Wire.hexDigits) :
    (unitsOf text).all isHexUnit ∧ (unitsOf text).length = text.length := by
  induction text with
  | nil => exact ⟨rfl, rfl⟩
  | cons c text ih =>
    obtain ⟨u, hu, hhex⟩ := unitsOfChar_hexDigit (h c (.head _))
    obtain ⟨hall, hlength⟩ := ih fun d hd => h d (.tail c hd)
    have hcons : unitsOf (c :: text) = u :: unitsOf text := by
      rw [unitsOf, List.flatMap_cons, hu]
      rfl
    rw [hcons, List.all_cons, hhex, hall, List.length_cons, List.length_cons, hlength]
    exact ⟨rfl, rfl⟩

/-- Digits in lower case are left as they are. -/
theorem toLowerCase_of_isHexUnit {s : Units} (h : s.all isHexUnit) : p.toLowerCase s = s := by
  have hunit : ∀ u ∈ s, u < 128 ∧ asciiLower u = u := by
    intro u hu
    have hhex := List.all_eq_true.mp h u hu
    simp only [isHexUnit, UInt16.le_iff_toNat_le, decide_eq_true_eq] at hhex
    simp only [asciiLower, UInt16.lt_iff_toNat_lt, UInt16.le_iff_toNat_le]
    simp only [UInt16.reduceToNat] at *
    exact ⟨by omega, if_neg (by omega)⟩
  have hmap : s.map asciiLower = s.map id := List.map_congr_left fun u hu => (hunit u hu).2
  rw [p.toLowerCase_ascii s fun u hu => (hunit u hu).1, hmap, List.map_id]

theorem fingerprintOf_isHex (fields : SessionFields) :
    isHexLength p (some (.str (fingerprintOf p fields))) 32 ∧
      p.toLowerCase (fingerprintOf p fields) = fingerprintOf p fields := by
  have hdigits : ∀ c ∈ Wire.hexOf (p.sha256 (encodedText fields.toValue)), c ∈ Wire.hexDigits :=
    fun _ => Wire.mem_hexDigits_of_mem_hexOf
  obtain ⟨hall, hlength⟩ := unitsOf_hexOf hdigits
  have hlower := toLowerCase_of_isHexUnit (p := p) hall
  rw [Wire.length_hexOf, p.length_sha256] at hlength
  refine ⟨isHexLength_iff.mpr ⟨_, rfl, ?_, hlength⟩, hlower⟩
  rw [isHexText, decide_eq_true_eq, fingerprintOf, hlower]
  refine ⟨fun hnil => ?_, hall⟩
  rw [hnil] at hlength
  cases hlength

theorem encodedText_injective {v w : Value} (hv : v.Distinct) (hw : w.Distinct)
    (hv' : v.AllFinite) (hw' : w.AllFinite) (h : encodedText v = encodedText w) : v = w := by
  have hparse := parseBytes_encodedText hv
  rw [h, parseBytes_encodedText hw, settled_of_allFinite _ hv', settled_of_allFinite _ hw'] at hparse
  exact (Option.some.inj hparse).symm

/-- **One fingerprint, one session.** Two envelopes that are accepted with the same fingerprint have the
same reference, unless the hash collides on the texts of the references. -/
def FingerprintsIdentify (p : EnvelopePlatform) : Prop :=
  ∀ (value₁ value₂ : Option Value) (e₁ e₂ : Envelope) (fields₁ fields₂ : SessionFields)
    (hashed : Set ByteArray), validateEnvelope p value₁ = .ok e₁ → validateEnvelope p value₂ = .ok e₂ →
    e₁.sessionRef = some fields₁ → e₂.sessionRef = some fields₂ →
    Set.InjOn p.sha256 hashed → encodedText fields₁.toValue ∈ hashed →
    encodedText fields₂.toValue ∈ hashed → e₁.fingerprint = e₂.fingerprint → fields₁ = fields₂

theorem sessionRef_eq_of_fingerprint_eq (p : EnvelopePlatform) : FingerprintsIdentify p := by
  intro value₁ value₂ e₁ e₂ fields₁ fields₂ hashed h₁ h₂ hs₁ hs₂ hinj hmem₁ hmem₂ heq
  obtain ⟨r₁, hvalid₁, rfl, hf₁⟩ := sessionRef_of_validateEnvelope h₁ hs₁
  obtain ⟨r₂, hvalid₂, rfl, hf₂⟩ := sessionRef_of_validateEnvelope h₂ hs₂
  rw [hf₁, hf₂, fingerprintOf, fingerprintOf] at heq
  have hhash := Wire.hexOf_injective (unitsOf_injective heq)
  have htext := hinj hmem₁ hmem₂ hhash
  have hvalue := encodedText_injective hvalid₁.distinct.1 hvalid₂.distinct.1 hvalid₁.distinct.2
    hvalid₂.distinct.2 htext
  exact SessionRead.fields_eq_of_toValue hvalue

/-! ### Building -/

/-- Validation accepts the envelope. -/
def PassesValidation (p : EnvelopePlatform) (e : Envelope) : Prop :=
  ∃ e', validateEnvelope p (some e.toValue) = .ok e'

theorem kindOf?_eq_some {kinds : List EnvelopeKind} {v : Option Value} {kind : EnvelopeKind}
    (h : kindOf? kinds v = some kind) : kind ∈ kinds := by
  obtain ⟨s, -, hfind⟩ := Option.bind_eq_some_iff.mp h
  exact List.mem_of_find?_eq_some hfind

private theorem checkedSessionRef_fields {ref : Option Value} {fields : SessionFields}
    (hassert : assertSessionRef p ref = .ok ())
    (hcanonical : canonicalizeSessionRef p ref = .ok fields) :
    fingerprintSessionRef p ref = .ok (fingerprintOf p fields) ∧
      checkedSessionRef p (some fields.toValue) (fingerprintOf p fields) = .ok fields := by
  obtain ⟨r, hvalid, hread⟩ := assertSessionRef_eq_ok.mp hassert
  rw [canonicalizeSessionRef_of_readFrom hread] at hcanonical
  cases hcanonical
  refine ⟨fingerprintSessionRef_of_readFrom hread, checkedSessionRef_eq_ok.mpr ⟨r.lowered p,
    hvalid.lowered, (r.lowered p).readFrom_fields, ?_, rfl⟩⟩
  rw [SessionRead.lowered_lowered]

/-- **A request that is built is returned by validation.** -/
theorem validateEnvelope_request {opts : Option RequestOptions} {e : Envelope}
    (h : buildRequestEnvelope p opts = .ok e) : validateEnvelope p (some e.toValue) = .ok e := by
  simp only [buildRequestEnvelope, bind_eq_ok, orRefuse_eq_ok, refuseShowing_eq_ok, exists_const]
    at h
  obtain ⟨opts, rfl, -, kind, hkind, ⟨⟩, hassert, ⟨⟩, hnonce, fingerprint, hfingerprint, fields,
    hfields, aggNonce, haggNonce, hsome⟩ := h
  cases hsome
  obtain ⟨hexpected, hchecked⟩ := checkedSessionRef_fields hassert hfields
  rw [hexpected] at hfingerprint
  cases hfingerprint
  obtain ⟨hhex, hlower⟩ := fingerprintOf_isHex (p := p) fields
  have hmem := kindOf?_eq_some hkind
  have hrequest : (kind.isRequest || decide (kind = .finalized)) = true ∧
      (kind.isReply || decide (kind = .finalized)) = false := by
    simp only [List.mem_cons, List.not_mem_nil, or_false] at hmem
    rcases hmem with rfl | rfl | rfl <;> decide
  refine validateEnvelope_eq_ok.mpr ⟨rfl, prop_v_toValue _, ?_, ⟨_, prop_fingerprint_toValue _,
    hhex, hlower.symm⟩, ?_, ?_, ?_⟩
  · rw [prop_kind_toValue, kindOf?_name]
  · rw [prop_sessionRef_toValue]
    exact readWhen_eq_ok.mpr (.inl ⟨hrequest.1, fields, hchecked, rfl⟩)
  · rw [prop_aggNonce_toValue]
    rcases readWhen_eq_ok.mp haggNonce with ⟨happlies, nonce, hread, rfl⟩ | ⟨hno, rfl⟩
    · have hround : kind = .requestPartial := of_decide_eq_true happlies
      simp only [assertAggNonce, refuseEnvelope, refuseIf_eq_ok, not_and, not_not] at hnonce
      have hhexNonce := hnonce hround
      obtain ⟨s, hs, -⟩ := isHexLength_iff.mp hhexNonce
      rw [hs] at hhexNonce hread
      cases hread
      refine readWhen_eq_ok.mpr (.inl ⟨happlies, p.toLowerCase s, ?_, rfl⟩)
      simp only [assertAggNonce, refuseEnvelope, bind_eq_ok, refuseIf_eq_ok, not_and, not_not,
        exists_const]
      refine ⟨fun _ => isHexLength_toLowerCase hhexNonce, ?_⟩
      exact congrArg Except.ok (p.toLowerCase_idem s)
    · exact readWhen_eq_ok.mpr (.inr ⟨hno, rfl⟩)
  · exact readWhen_eq_ok.mpr (.inr ⟨hrequest.2, rfl⟩)

/-- An envelope with a contribution that passes its checks is accepted where its texts are
strings. -/
private theorem passesValidation_iff {e : Envelope} {ms : List (Units × Value)}
    (hcontribution : e.contribution = some ms) (hkind : e.kind.isReply || e.kind = .finalized)
    (hhex : isHexLength p (some (.str e.fingerprint)) 32)
    (hlower : p.toLowerCase e.fingerprint = e.fingerprint)
    (hsession : readWhen (e.kind.isRequest || e.kind = .finalized)
      (checkedSessionRef p (e.sessionRef.map SessionFields.toValue) e.fingerprint) =
        .ok e.sessionRef)
    (hassert : assertContribution p e.kind (some (.obj ms)) = .ok ()) :
    PassesValidation p e ↔ TextMembers (some (.obj ms)) := by
  have hprop : prop "contribution" (some e.toValue) = some (.obj ms) := by
    rw [prop_contribution_toValue, hcontribution]
    rfl
  have hread : ContributionRead p (some e.toValue) := by
    refine ⟨e.kind, e.fingerprint, e.sessionRef, ⟨rfl, ?_, ?_, e.fingerprint,
      prop_fingerprint_toValue e, hhex, hlower.symm⟩, hkind, ?_, ?_⟩
    · exact number?_eq_some.mpr (prop_v_toValue e)
    · rw [prop_kind_toValue, kindOf?_name]
    · rwa [prop_sessionRef_toValue]
    · rwa [hprop]
  constructor
  · rintro ⟨e', he'⟩
    by_contra htext
    have hmisread := validateEnvelope_eq_typeError.mpr
      (Misread.member hread (by rwa [hprop]))
    rw [he'] at hmisread
    cases hmisread
  · intro htext
    exact exists_validateEnvelope hread (by rwa [hprop])

theorem prop_finalizedContribution (name : String) (txHex txid : Option Value) :
    prop name (some (.obj (finalizedContribution txHex txid))) =
      if name = "txHex" then txHex else if name = "txid" then txid else none := by
  by_cases hhex : name = "txHex"
  · subst hhex
    cases txHex <;> cases txid <;> simp [finalizedContribution, prop_obj_cons]
  · by_cases hid : name = "txid"
    · subst hid
      cases txHex <;> cases txid <;> simp [finalizedContribution, prop_obj_cons]
    · cases txHex <;> cases txid <;>
        simp [finalizedContribution, prop_obj_cons, hhex, hid, Ne.symm hhex, Ne.symm hid]

/-- **A finalized envelope that is built is accepted.** -/
theorem passesValidation_finalized {opts : Option FinalizedOptions} {e : Envelope}
    (h : buildFinalizedEnvelope p opts = .ok e) : PassesValidation p e := by
  simp only [buildFinalizedEnvelope, bind_eq_ok, orRefuse_eq_ok, text?_eq_some] at h
  obtain ⟨opts, rfl, ⟨⟩, hassert, ⟨⟩, hcontribution, fingerprint, hfingerprint, fields, hfields,
    txHex, htxHex, hsome⟩ := h
  obtain ⟨hexpected, hchecked⟩ := checkedSessionRef_fields hassert hfields
  rw [hexpected] at hfingerprint
  cases hfingerprint
  obtain ⟨hhex, hlower⟩ := fingerprintOf_isHex (p := p) fields
  generalize htxid : (if truthy opts.txid then opts.txid else none) = txid at hsome
  cases hsome
  have hkind : (EnvelopeKind.finalized.isRequest || decide (EnvelopeKind.finalized = .finalized)) =
      true := by
    decide
  have hreply : (EnvelopeKind.finalized.isReply || decide (EnvelopeKind.finalized = .finalized)) =
      true := by
    decide
  refine (passesValidation_iff rfl hreply hhex hlower
    (readWhen_eq_ok.mpr (.inl ⟨hkind, fields, hchecked, rfl⟩)) ?_).mpr ?_
  · simp only [assertContribution, refuseEnvelope, bind_eq_ok, refuseIf_eq_ok, not_not,
      exists_const, prop_finalizedContribution, htxHex, if_true, String.reduceEq,
      if_false] at hcontribution ⊢
    obtain ⟨-, htext, hid⟩ := hcontribution
    refine ⟨rfl, isEvenHex_toLowerCase htext, ?_⟩
    rw [← htxid]
    split
    · exact hid
    · exact fun h => absurd h.1 (by decide)
  · intro name hname htruthy
    simp only [textMembers, List.mem_cons, List.not_mem_nil, or_false] at hname
    simp only [prop_finalizedContribution] at htruthy ⊢
    rcases hname with rfl | rfl | rfl | rfl
    · simp [truthy] at htruthy
    · simp [truthy] at htruthy
    · simp [truthy] at htruthy
    · rfl

/-- **A reply that is built is accepted where the members that are put in lower case are strings.** -/
theorem passesValidation_reply_iff {opts : ReplyOptions} {e : Envelope}
    (h : buildReplyEnvelope p (some opts) = .ok e) :
    PassesValidation p e ↔ TextMembers opts.contribution := by
  simp only [buildReplyEnvelope, bind_eq_ok, orRefuse_eq_ok, refuseShowing_eq_ok, exists_const,
    Option.some.injEq, exists_eq_left', refuseEnvelope, refuseIf_eq_ok, not_not] at h
  obtain ⟨-, kind, hkind, hhex, ⟨⟩, hassert, fingerprint, hfingerprint, hsome⟩ := h
  cases hsome
  obtain ⟨s, hs, -⟩ := isHexLength_iff.mp hhex
  rw [hs] at hhex hfingerprint
  cases hfingerprint
  have hmem := kindOf?_eq_some hkind
  have hreply : (kind.isReply || decide (kind = .finalized)) = true ∧
      (kind.isRequest || decide (kind = .finalized)) = false := by
    simp only [List.mem_cons, List.not_mem_nil, or_false] at hmem
    rcases hmem with rfl | rfl | rfl <;> decide
  obtain ⟨ms, hms⟩ := obj_of_assertContribution hreply.1 hassert
  rw [hms] at hassert ⊢
  exact passesValidation_iff rfl hreply.1 (isHexLength_toLowerCase hhex) (p.toLowerCase_idem s)
    (readWhen_eq_ok.mpr (.inr ⟨hreply.2, rfl⟩)) hassert

/-- Every envelope that a build function makes is accepted. -/
def BuiltPass (p : EnvelopePlatform) : Prop :=
  (∀ opts e, buildRequestEnvelope p opts = .ok e → PassesValidation p e) ∧
  (∀ opts e, buildFinalizedEnvelope p opts = .ok e → PassesValidation p e) ∧
  ∀ opts e, buildReplyEnvelope p (some opts) = .ok e → PassesValidation p e

/-- **Identity of sessions, and what is built.** Fingerprints identify sessions; requests and finalized
envelopes that are built are accepted, and a reply exactly where the members of its contribution that
are put in lower case are strings, if anything. -/
theorem fingerprintsIdentify_and_built (p : EnvelopePlatform) :
    FingerprintsIdentify p ∧
      (∀ opts e, buildRequestEnvelope p opts = .ok e → PassesValidation p e) ∧
      (∀ opts e, buildFinalizedEnvelope p opts = .ok e → PassesValidation p e) ∧
      ∀ opts e, buildReplyEnvelope p (some opts) = .ok e →
        (PassesValidation p e ↔ TextMembers opts.contribution) :=
  ⟨sessionRef_eq_of_fingerprint_eq p, fun _ e h => ⟨e, validateEnvelope_request h⟩,
    fun _ _ h => passesValidation_finalized h, fun _ _ h => passesValidation_reply_iff h⟩

/-! ### A reply that is refused -/

/-- A reply with a nonce and a member `sig` that is a number, to be built. -/
def nonceReplyOptions : ReplyOptions where
  kind := some (.str (units "multisig-round-1-reply"))
  fingerprint := some (.str (List.replicate 64 48))
  contribution := some (.obj [(units "pubkey", .str (List.replicate 66 48)),
    (units "publicNonce", .str (List.replicate 132 48)), (units "sig", .num envelopeVersion)])

theorem not_builtPass_nonceReplyOptions :
    ¬∀ p : EnvelopePlatform, FingerprintsIdentify p ∧ BuiltPass p := by
  intro h
  have hbuilt : (buildReplyEnvelope asciiPlatform (some nonceReplyOptions)).toOption.isSome := by
    decide
  have hmember : ¬(truthy (prop "sig" nonceReplyOptions.contribution) = true →
      (text? (prop "sig" nonceReplyOptions.contribution)).isSome = true) := by
    decide +kernel
  cases hbuild : buildReplyEnvelope asciiPlatform (some nonceReplyOptions) with
  | error fault =>
    rw [hbuild] at hbuilt
    cases hbuilt
  | ok e =>
    have htext := (passesValidation_reply_iff hbuild).mp ((h asciiPlatform).2.2.2 _ e hbuild)
    exact hmember (htext "sig" (by decide))

end XchainWallet
