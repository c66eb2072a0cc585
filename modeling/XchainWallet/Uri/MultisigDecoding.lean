import XchainWallet.Uri.MultisigRoundTrip

/-!
# What decoding an envelope can do

`Misread` lists the ways in which a parsed value makes `validateEnvelope` throw what is no
`MultisigEnvelopeError`, and `LosesNumber` says that the contribution of an envelope that is accepted has
a number that is not finite. `decodesSafely_iff` says that for every bytes it is one of these, or
decoding returns a normal envelope that is encoded and decoded to itself, or throws a
`MultisigEnvelopeError`.
-/

namespace XchainWallet

open Json Checks

variable {p : EnvelopePlatform}

/-! ### Errors of a row of checks -/

theorem bind_eq_error {ε α β : Type} {x : Except ε α} {f : α → Except ε β} {e : ε} :
    (x >>= f) = .error e ↔ x = .error e ∨ ∃ a, x = .ok a ∧ f a = .error e := by
  cases x with
  | error e' | ok a => simp [bind, Except.bind]

theorem refuseEnvelope_ne_typeError {refused : Prop} [Decidable refused] {message : String} :
    refuseEnvelope refused message ≠ .error .typeError := by
  unfold refuseEnvelope refuseIf
  split
  · exact fun h => by cases h
  · exact fun h => by cases h

theorem refuseShowing_eq_typeError {refused : Prop} [Decidable refused] {before behind : String}
    {v : Option Value} :
    refuseShowing refused before v behind = .error .typeError ↔ refused ∧ shown v = none := by
  by_cases h : refused
  · rw [refuseShowing, if_pos h]
    cases hshown : shown v <;> simp [h, envelopeError]
  · simp [refuseShowing, h]

theorem readWhen_eq_error {α : Type} {applies : Bool} {read : Except EnvelopeFault α}
    {fault : EnvelopeFault} :
    readWhen applies read = .error fault ↔ applies = true ∧ read = .error fault := by
  cases applies with
  | false => simp [readWhen]
  | true => cases read <;> simp [readWhen, Functor.map, Except.map]

/-- The scheme of a reference that is an object is none, and has no text. -/
def SchemeMisread (ref : Option Value) : Prop :=
  isObject ref ∧ ¬(text? (prop "scheme" ref)).any (sessionSchemes.contains ·) ∧
    shown (prop "scheme" ref) = none

theorem assertSessionRef_eq_typeError {ref : Option Value} :
    assertSessionRef p ref = .error .typeError ↔ SchemeMisread ref := by
  simp only [assertSessionRef, bind_eq_error, refuseEnvelope_ne_typeError,
    refuseShowing_eq_typeError, false_or, or_false, and_false, exists_false, SchemeMisread]
  simp only [refuseEnvelope, refuseIf_eq_ok, not_not, exists_const]

theorem checkedSessionRef_eq_typeError {ref : Option Value} {fingerprint : Units} :
    checkedSessionRef p ref fingerprint = .error .typeError ↔ SchemeMisread ref := by
  rw [checkedSessionRef, bind_eq_error, assertSessionRef_eq_typeError]
  refine or_iff_left ?_
  rintro ⟨⟨⟩, hassert, h⟩
  obtain ⟨r, -, hread⟩ := assertSessionRef_eq_ok.mp hassert
  have hexpected := fingerprintSessionRef_of_readFrom (p := p) (r.lowered p).readFrom_fields
  rw [canonicalizeSessionRef_of_readFrom hread, bind_eq_error] at h
  simp only [reduceCtorEq, false_or, Except.ok.injEq, exists_eq_left', hexpected, bind_eq_error,
    refuseEnvelope_ne_typeError, and_false, exists_false] at h

theorem assertContribution_ne_typeError {kind : EnvelopeKind} {contribution : Option Value} :
    assertContribution p kind contribution ≠ .error .typeError := by
  cases kind <;>
    simp [assertContribution, bind_eq_error, refuseEnvelope_ne_typeError]

theorem checkedContribution_eq_typeError {kind : EnvelopeKind} {contribution : Option Value}
    (hkind : kind.isReply || kind = .finalized) :
    checkedContribution p kind contribution = .error .typeError ↔
      assertContribution p kind contribution = .ok () ∧ ¬TextMembers contribution := by
  rw [checkedContribution_eq, bind_eq_error]
  constructor
  · rintro (h | ⟨⟨⟩, hassert, h⟩)
    · exact absurd h assertContribution_ne_typeError
    · obtain ⟨ms, rfl⟩ := obj_of_assertContribution hkind hassert
      rcases lowerMembers_cases p ms with ⟨-, kept, hkept⟩ | ⟨htext, -⟩
      · have hkept' : lowerMembers p ((some (Value.obj ms)).elim [] Value.members) = .ok kept :=
          hkept
        rw [hkept'] at h
        cases h
      · exact ⟨hassert, htext⟩
  · rintro ⟨hassert, htext⟩
    obtain ⟨ms, rfl⟩ := obj_of_assertContribution hkind hassert
    rcases lowerMembers_cases p ms with ⟨htext', -⟩ | ⟨-, herror⟩
    · exact absurd htext' htext
    · exact .inr ⟨(), hassert, herror⟩

/-! ### What is misread -/

/-- The value is an object of the version, of a kind and with a fingerprint. -/
structure Header (p : EnvelopePlatform) (value : Option Value) (kind : EnvelopeKind)
    (fingerprint : Units) : Prop where
  isObject : isObject value
  version : number? (prop "v" value) = some envelopeVersion
  kind : kindOf? EnvelopeKind.all (prop "kind" value) = some kind
  fingerprint : ∃ s, prop "fingerprint" value = some (.str s) ∧
    isHexLength p (some (.str s)) 32 ∧ fingerprint = p.toLowerCase s

/-- The contribution of the value passes the checks of its kind, and so does what stands before
it. -/
structure ContributionRead (p : EnvelopePlatform) (value : Option Value) : Prop where
  read : ∃ kind fingerprint sessionRef, Header p value kind fingerprint ∧
    (kind.isReply || kind = .finalized) = true ∧
    readWhen (kind.isRequest || kind = .finalized)
      (checkedSessionRef p (prop "sessionRef" value) fingerprint) = .ok sessionRef ∧
    assertContribution p kind (prop "contribution" value) = .ok ()

/-- **The values that make validation throw a `TypeError`.** -/
inductive Misread (p : EnvelopePlatform) (value : Option Value) : Prop where
  /-- The version is another one and has no text. -/
  | version : isObject value → number? (prop "v" value) ≠ some envelopeVersion →
      shown (prop "v" value) = none → Misread p value
  /-- The kind is none and has no text. -/
  | kind : isObject value → number? (prop "v" value) = some envelopeVersion →
      kindOf? EnvelopeKind.all (prop "kind" value) = none → shown (prop "kind" value) = none →
      Misread p value
  /-- So is the scheme of a reference that is read. -/
  | scheme (kind : EnvelopeKind) (fingerprint : Units) : Header p value kind fingerprint →
      (kind.isRequest || kind = .finalized) = true → SchemeMisread (prop "sessionRef" value) →
      Misread p value
  /-- A member that is put in lower case is no string. -/
  | member : ContributionRead p value → ¬TextMembers (prop "contribution" value) → Misread p value

/-- A number of the contribution is not finite. -/
def LosesNumber (p : EnvelopePlatform) (value : Option Value) : Prop :=
  ContributionRead p value ∧ ∃ c, prop "contribution" value = some c ∧ ¬c.AllFinite

private theorem aggNonce_ne_typeError {kind : EnvelopeKind} {nonce : Option Value}
    (hkind : kind = .requestPartial) :
    (do assertAggNonce p kind nonce; p.toLowerCase <$> stringOf nonce) ≠ .error .typeError := by
  intro h
  rw [bind_eq_error] at h
  rcases h with h | ⟨⟨⟩, hassert, h⟩
  · exact refuseEnvelope_ne_typeError h
  · simp only [assertAggNonce, refuseEnvelope, refuseIf_eq_ok, not_and, not_not] at hassert
    obtain ⟨s, hs, -⟩ := isHexLength_iff.mp (hassert hkind)
    rw [hs] at h
    cases h

variable {value : Option Value}

theorem validateEnvelope_eq_typeError :
    validateEnvelope p value = .error .typeError ↔ Misread p value := by
  constructor
  · intro h
    simp only [validateEnvelope, bind_eq_error, refuseEnvelope_ne_typeError,
      refuseShowing_eq_typeError, refuseShowing_eq_ok, false_or, ne_eq, not_not] at h
    obtain ⟨⟨⟩, hobject, h⟩ := h
    have hobject' : isObject value := by
      simpa only [refuseEnvelope, refuseIf_eq_ok, not_not] using hobject
    rcases h with ⟨hversion, hshown⟩ | ⟨⟨⟩, hversion, h⟩
    · exact .version hobject' hversion hshown
    rcases h with ⟨hkind, hshown⟩ | ⟨⟨⟩, hkind, h⟩
    · exact .kind hobject' hversion hkind hshown
    rcases h with hnone | ⟨kind, hsome, h⟩
    · cases hvalue : kindOf? EnvelopeKind.all (prop "kind" value) with
      | none => exact absurd hvalue hkind
      | some kind =>
        rw [hvalue] at hnone
        cases hnone
    rw [orRefuse_eq_ok] at hsome
    obtain ⟨⟨⟩, hhex, h⟩ := h
    simp only [refuseEnvelope, refuseIf_eq_ok, not_not] at hhex
    obtain ⟨s, hs, -⟩ := isHexLength_iff.mp hhex
    rw [hs] at h
    rcases h with h | ⟨fingerprint, hfingerprint, h⟩
    · cases h
    cases hfingerprint
    have hheader : Header p value kind (p.toLowerCase s) :=
      ⟨hobject', hversion, hsome, s, hs, hs ▸ hhex, rfl⟩
    rcases h with h | ⟨sessionRef, hsessionRef, h⟩
    · obtain ⟨happlies, hread⟩ := readWhen_eq_error.mp h
      exact .scheme kind _ hheader happlies (checkedSessionRef_eq_typeError.mp hread)
    rcases h with h | ⟨aggNonce, haggNonce, h⟩
    · obtain ⟨happlies, hread⟩ := readWhen_eq_error.mp h
      exact absurd hread (aggNonce_ne_typeError (of_decide_eq_true happlies))
    rcases h with h | ⟨contribution, -, h⟩
    · obtain ⟨happlies, hread⟩ := readWhen_eq_error.mp h
      obtain ⟨hassert, htext⟩ := (checkedContribution_eq_typeError happlies).mp hread
      exact .member ⟨kind, _, sessionRef, hheader, happlies, hsessionRef, hassert⟩ htext
    · cases h
  · intro h
    have hheader : ∀ kind fingerprint, Header p value kind fingerprint →
        (∃ sessionRef, readWhen (kind.isRequest || kind = .finalized)
          (checkedSessionRef p (prop "sessionRef" value) fingerprint) = .ok sessionRef ∧
          (kind.isReply || kind = .finalized) = true ∧
          checkedContribution p kind (prop "contribution" value) = .error .typeError) ∨
        ((kind.isRequest || kind = .finalized) = true ∧
          checkedSessionRef p (prop "sessionRef" value) fingerprint = .error .typeError) →
        validateEnvelope p value = .error .typeError := by
      rintro kind fingerprint ⟨hobject, hversion, hkind, s, hs, hhex, rfl⟩ hread
      have hhex' : isHexLength p (prop "fingerprint" value) 32 := hs ▸ hhex
      have hlower : p.toLowerCase <$> stringOf (prop "fingerprint" value) =
          .ok (p.toLowerCase s) := by
        rw [hs]
        rfl
      have hnone : ¬kindOf? EnvelopeKind.all (prop "kind" value) = none := by
        rw [hkind]
        exact Option.some_ne_none _
      simp only [validateEnvelope, bind_eq_error, refuseShowing_eq_typeError, refuseShowing_eq_ok,
        refuseEnvelope, refuseIf_eq_ok, ne_eq, not_not, exists_const]
      refine .inr ⟨hobject, .inr ⟨hversion, .inr ⟨hnone, .inr ⟨kind, by rw [hkind]; rfl,
        .inr ⟨hhex', .inr ⟨_, hlower, ?_⟩⟩⟩⟩⟩⟩
      rcases hread with ⟨sessionRef, hsessionRef, happlies, hcontribution⟩ | hsession
      · have hnoNonce : decide (kind = .requestPartial) = false := by
          cases kind <;> first | rfl | exact absurd happlies (by decide)
        refine .inr ⟨sessionRef, hsessionRef, .inr ⟨none, ?_, .inl ?_⟩⟩
        · exact readWhen_eq_ok.mpr (.inr ⟨hnoNonce, rfl⟩)
        · exact readWhen_eq_error.mpr ⟨happlies, hcontribution⟩
      · exact .inl (readWhen_eq_error.mpr hsession)
    cases h with
    | version hobject hversion hshown =>
      simp only [validateEnvelope, bind_eq_error, refuseShowing_eq_typeError, refuseEnvelope,
        refuseIf_eq_ok, not_not, exists_const]
      exact .inr ⟨hobject, .inl ⟨hversion, hshown⟩⟩
    | kind hobject hversion hkind hshown =>
      simp only [validateEnvelope, bind_eq_error, refuseShowing_eq_typeError, refuseShowing_eq_ok,
        refuseEnvelope, refuseIf_eq_ok, ne_eq, not_not, exists_const]
      exact .inr ⟨hobject, .inr ⟨hversion, .inl ⟨hkind, hshown⟩⟩⟩
    | scheme kind fingerprint hhead happlies hscheme =>
      exact hheader kind fingerprint hhead
        (.inr ⟨happlies, checkedSessionRef_eq_typeError.mpr hscheme⟩)
    | member hread htext =>
      obtain ⟨kind, fingerprint, sessionRef, hhead, happlies, hsession, hassert⟩ := hread.read
      exact hheader kind fingerprint hhead (.inl ⟨sessionRef, hsession, happlies,
        (checkedContribution_eq_typeError happlies).mpr ⟨hassert, htext⟩⟩)

/-! ### Numbers -/

/-- A member of a value with a property that passes to members has it. -/
theorem distinct_of_prop {name : String} {value c : Value} (h : value.Distinct)
    (hc : prop name (some value) = some c) : c.Distinct := by
  cases value with
  | obj ms =>
    obtain ⟨member, hfind, rfl⟩ := Option.map_eq_some_iff.mp hc
    exact distinctMembers_iff.mp h.2 member (Keyed.mem_of_find hfind)
  | _ => cases hc

theorem allFinite_of_prop {name : String} {value c : Value} (h : value.AllFinite)
    (hc : prop name (some value) = some c) : c.AllFinite := by
  cases value with
  | obj ms =>
    obtain ⟨member, hfind, rfl⟩ := Option.map_eq_some_iff.mp hc
    exact allFiniteMembers_iff.mp h member (Keyed.mem_of_find hfind)
  | _ => cases hc

variable {e : Envelope}

/-- What an envelope keeps of a contribution, and that it is one. -/
theorem exists_contribution (h : validateEnvelope p value = .ok e) {kept : List (Units × Value)}
    (hkept : e.contribution = some kept) :
    ∃ ms, prop "contribution" value = some (.obj ms) ∧ KeptFrom p ms kept ∧
      ContributionRead p value := by
  obtain ⟨hobject, hversion, hkind, hfingerprint, hsessionRef, -, hcontribution⟩ :=
    validateEnvelope_eq_ok.mp h
  rcases readWhen_eq_ok.mp hcontribution with ⟨happlies, kept', hread, hsome⟩ | ⟨-, hnone⟩
  · obtain rfl : kept = kept' := Option.some.inj (hkept.symm.trans hsome)
    rw [checkedContribution_eq, bind_eq_ok] at hread
    obtain ⟨⟨⟩, hassert, hlower⟩ := hread
    obtain ⟨ms, hms⟩ := obj_of_assertContribution happlies hassert
    rw [hms] at hlower
    refine ⟨ms, hms, keptFrom_of_lowerMembers hlower, ⟨e.kind, e.fingerprint, e.sessionRef, ?_,
      happlies, hsessionRef, hassert⟩⟩
    exact ⟨hobject, number?_eq_some.mpr hversion, hkind, hfingerprint⟩
  · rw [hkept] at hnone
    cases hnone

/-- An envelope keeps a contribution that passes its checks. -/
theorem contribution_of_contributionRead (h : validateEnvelope p value = .ok e)
    (hread : ContributionRead p value) :
    ∃ kept, e.contribution = some kept := by
  obtain ⟨kind, fingerprint, sessionRef, hheader, happlies, -, -⟩ := hread.read
  have he := validateEnvelope_eq_ok.mp h
  obtain rfl : e.kind = kind := Option.some.inj (he.kind.symm.trans hheader.kind)
  rcases readWhen_eq_ok.mp he.contribution with ⟨-, kept, -, hkept⟩ | ⟨hno, -⟩
  · exact ⟨kept, hkept⟩
  · rw [happlies] at hno
    cases hno

/-- A value whose contribution passes its checks is returned where its texts are strings. -/
theorem exists_validateEnvelope (hread : ContributionRead p value)
    (htext : TextMembers (prop "contribution" value)) :
    ∃ e, validateEnvelope p value = .ok e := by
  obtain ⟨kind, fingerprint, sessionRef, hheader, happlies, hsession, hassert⟩ := hread.read
  obtain ⟨ms, hms⟩ := obj_of_assertContribution happlies hassert
  rw [hms] at htext hassert
  rcases lowerMembers_cases p ms with ⟨-, kept, hkept⟩ | ⟨hno, -⟩
  swap
  · exact absurd htext hno
  have hnoNonce : decide (kind = .requestPartial) = false := by
    cases kind <;> first | rfl | exact absurd happlies (by decide)
  refine ⟨⟨kind, fingerprint, sessionRef, none, some kept⟩, validateEnvelope_eq_ok.mpr
    ⟨hheader.isObject, number?_eq_some.mp hheader.version, hheader.kind, hheader.fingerprint,
      hsession, readWhen_eq_ok.mpr (.inr ⟨hnoNonce, rfl⟩), readWhen_eq_ok.mpr (.inl
        ⟨happlies, kept, ?_, rfl⟩)⟩⟩
  rw [hms, checkedContribution_eq, hassert]
  exact hkept

/-- A value whose contribution passes its checks is returned or misread. -/
theorem validateEnvelope_of_contributionRead (hread : ContributionRead p value) :
    Misread p value ∨ ∃ e, validateEnvelope p value = .ok e := by
  by_cases htext : TextMembers (prop "contribution" value)
  · exact .inr (exists_validateEnvelope hread htext)
  · exact .inl (.member hread htext)

/-- The session reference of an envelope that is returned. -/
theorem sessionRef_of_validateEnvelope (h : validateEnvelope p value = .ok e)
    {fields : SessionFields} (hfields : e.sessionRef = some fields) :
    ∃ r : SessionRead, r.Valid p ∧ fields = r.fields ∧ e.fingerprint = fingerprintOf p fields := by
  rcases readWhen_eq_ok.mp (validateEnvelope_eq_ok.mp h).sessionRef with
    ⟨-, fields', hread, hsome⟩ | ⟨-, hnone⟩
  · obtain rfl : fields = fields' := Option.some.inj (hfields.symm.trans hsome)
    obtain ⟨r, hvalid, -, hlower, hfingerprint⟩ := checkedSessionRef_eq_ok.mp hread
    exact ⟨r.lowered p, hvalid.lowered, hlower, hfingerprint⟩
  · rw [hfields] at hnone
    cases hnone

private theorem toValue_iff (P : Value → Prop) (Q : List (Units × Value) → Prop)
    (hnil : Q []) (hcons : ∀ name v ms, Q ((name, v) :: ms) ↔ P v ∧ Q ms)
    (hnum : P (.num envelopeVersion)) (hstr : ∀ s, P (.str s)) (e : Envelope)
    (hsession : ∀ fields ∈ e.sessionRef, P fields.toValue) :
    Q ([(units "v", .num envelopeVersion), (units "kind", .str (units e.kind.name)),
      (units "fingerprint", .str e.fingerprint)] ++
    (e.sessionRef.toList.map fun ref => (units "sessionRef", ref.toValue)) ++
    (e.aggNonce.toList.map fun nonce => (units "aggNonce", .str nonce)) ++
    (e.contribution.toList.map fun contribution => (units "contribution", .obj contribution))) ↔
      ∀ kept ∈ e.contribution, P (.obj kept) := by
  obtain ⟨kind, fingerprint, sessionRef, aggNonce, contribution⟩ := e
  cases sessionRef <;> cases aggNonce <;> cases contribution <;>
    simp_all

/-- An envelope has no name twice where its contribution has none. -/
theorem distinct_toValue (hsession : ∀ fields ∈ e.sessionRef, fields.toValue.Distinct) :
    e.toValue.Distinct ↔ ∀ kept ∈ e.contribution, (Value.obj kept).Distinct := by
  have hvalues := toValue_iff Value.Distinct DistinctMembers trivial (fun _ _ _ => Iff.rfl) trivial
    (fun _ => trivial) e hsession
  rw [← hvalues]
  refine ⟨And.right, fun h => ⟨?_, h⟩⟩
  obtain ⟨kind, fingerprint, sessionRef, aggNonce, contribution⟩ := e
  cases sessionRef <;> cases aggNonce <;> cases contribution <;> simp

theorem allFinite_envelopeVersion : (Value.num envelopeVersion).AllFinite := by
  have hdouble : IsDouble (2 ^ pointBits) := by
    refine ⟨?_, Nat.pow_lt_pow_right (by decide) (by omega)⟩
    rw [Nat.log2_two_pow]
    exact Nat.pow_dvd_pow 2 (by omega)
  have hself := nearestDouble_self (b := 1) hdouble (by decide)
  have hread : ofDecimal 1 0 = some ⟨2 ^ pointBits, hdouble⟩ := by
    rw [Nat.mul_one] at hself
    rw [ofDecimal]
    simpa using hself
  rw [envelopeVersion, Number.ofDigits, hread]
  trivial

/-- An envelope has finite numbers only where its contribution has. -/
theorem allFinite_toValue (hsession : ∀ fields ∈ e.sessionRef, fields.toValue.AllFinite) :
    e.toValue.AllFinite ↔ ∀ kept ∈ e.contribution, (Value.obj kept).AllFinite :=
  toValue_iff Value.AllFinite AllFiniteMembers trivial (fun _ _ _ => Iff.rfl)
    allFinite_envelopeVersion (fun _ => trivial) e hsession

/-! ### Normal envelopes -/

/-- What an envelope that is returned is like: its texts are hex in lower case, it has the sections of
its kind and no others, its reference is canonical and has the fingerprint, and its contribution passes
the checks of the kind. -/
structure Envelope.Normal (p : EnvelopePlatform) (e : Envelope) : Prop where
  fingerprint : isHexLength p (some (.str e.fingerprint)) 32 ∧
    p.toLowerCase e.fingerprint = e.fingerprint
  hasSessionRef : e.sessionRef.isSome = (e.kind.isRequest || e.kind = .finalized)
  sessionRef : ∀ fields ∈ e.sessionRef, ∃ r : SessionRead, r.Valid p ∧ r.lowered p = r ∧
    fields = r.fields ∧ e.fingerprint = fingerprintOf p fields
  hasAggNonce : e.aggNonce.isSome = decide (e.kind = .requestPartial)
  aggNonce : ∀ nonce ∈ e.aggNonce, isHexLength p (some (.str nonce)) 66 ∧
    p.toLowerCase nonce = nonce
  hasContribution : e.contribution.isSome = (e.kind.isReply || e.kind = .finalized)
  contribution : ∀ kept ∈ e.contribution, assertContribution p e.kind (some (.obj kept)) = .ok () ∧
      ∀ name ∈ textMembers, ∀ s, prop name (some (.obj kept)) = some (.str s) → p.toLowerCase s = s

private theorem isSome_of_readWhen {α : Type} {applies : Bool} {read : Except EnvelopeFault α}
    {value : Option α} (h : readWhen applies read = .ok value) : value.isSome = applies := by
  rcases readWhen_eq_ok.mp h with ⟨happlies, a, -, rfl⟩ | ⟨hno, rfl⟩
  · exact happlies.symm
  · exact hno.symm

theorem normal_of_validateEnvelope (h : validateEnvelope p value = .ok e) : e.Normal p where
  fingerprint := by
    obtain ⟨s, -, hhex, hlower⟩ := (validateEnvelope_eq_ok.mp h).fingerprint
    rw [hlower, p.toLowerCase_idem]
    exact ⟨isHexLength_toLowerCase hhex, rfl⟩
  hasSessionRef := isSome_of_readWhen (validateEnvelope_eq_ok.mp h).sessionRef
  sessionRef := by
    intro fields hfields
    rcases readWhen_eq_ok.mp (validateEnvelope_eq_ok.mp h).sessionRef with
      ⟨-, fields', hread, hsome⟩ | ⟨-, hnone⟩
    · obtain rfl : fields = fields' := Option.some.inj (hfields.symm.trans hsome)
      obtain ⟨r, hvalid, -, hlower, hfingerprint⟩ := checkedSessionRef_eq_ok.mp hread
      exact ⟨r.lowered p, hvalid.lowered, r.lowered_lowered, hlower, hfingerprint⟩
    · rw [Option.mem_def, hnone] at hfields
      cases hfields
  hasAggNonce := isSome_of_readWhen (validateEnvelope_eq_ok.mp h).aggNonce
  aggNonce := by
    intro nonce hnonce
    rcases readWhen_eq_ok.mp (validateEnvelope_eq_ok.mp h).aggNonce with
      ⟨happlies, nonce', hread, hsome⟩ | ⟨-, hnone⟩
    · obtain rfl : nonce = nonce' := Option.some.inj (hnonce.symm.trans hsome)
      have hkind : e.kind = .requestPartial := of_decide_eq_true happlies
      simp only [assertAggNonce, refuseEnvelope, bind_eq_ok, refuseIf_eq_ok, not_and, not_not,
        exists_const, hkind, forall_const] at hread
      obtain ⟨hhex, hlower⟩ := hread
      obtain ⟨s, hs, -⟩ := isHexLength_iff.mp hhex
      rw [hs] at hhex hlower
      rw [← (Except.ok.inj hlower : p.toLowerCase s = nonce), p.toLowerCase_idem]
      exact ⟨isHexLength_toLowerCase hhex, rfl⟩
    · rw [Option.mem_def, hnone] at hnonce
      cases hnonce
  hasContribution := isSome_of_readWhen (validateEnvelope_eq_ok.mp h).contribution
  contribution := by
    intro kept hkept
    obtain ⟨ms, hms, hfrom, -⟩ := exists_contribution h hkept
    rcases readWhen_eq_ok.mp (validateEnvelope_eq_ok.mp h).contribution with
      ⟨-, kept', hread, -⟩ | ⟨-, hnone⟩
    · rw [checkedContribution_eq, bind_eq_ok] at hread
      obtain ⟨⟨⟩, hassert, -⟩ := hread
      rw [hms] at hassert
      refine ⟨assertContribution_kept hassert hfrom, fun name hname s hs => ?_⟩
      rw [hfrom.text name hname] at hs
      obtain ⟨v, -, hv⟩ := Option.map_eq_some_iff.mp hs
      cases v with
      | str original =>
        rw [← (Value.str.inj hv : p.toLowerCase original = s), p.toLowerCase_idem]
      | _ => cases hv
    · rw [Option.mem_def, hnone] at hkept
      cases hkept

/-! ### Reading what was written -/

theorem decodeText_encodedText (v : Value) :
    decodeText (encodedText v) = some (Json.stringify v) := by
  obtain ⟨c, tail, htext, -, -, hascii⟩ := head_stringify v
  have hmark : (Json.stringify v).head? ≠ some '\uFEFF' := by
    rw [htext]
    intro heq
    rw [Option.some.inj heq] at hascii
    exact absurd hascii (by decide)
  rw [decodeText, encodedText, String.toByteArray_ofList, List.utf8Decode?_utf8Encode,
    Option.map_some, if_neg hmark]

/-- What is written is parsed as what is left of it. -/
theorem parseBytes_encodedText {v : Value} (h : v.Distinct) :
    parseBytes (encodedText v) = some v.settled := by
  rw [parseBytes, decodeText_encodedText, Option.bind_some, parse_stringify h]

theorem distinct_of_parseBytes {bytes : ByteArray} {v : Value} (h : parseBytes bytes = some v) :
    v.Distinct := by
  obtain ⟨text, -, hparse⟩ := Option.bind_eq_some_iff.mp h
  exact distinct_of_parse hparse

/-! ### Decoding -/

/-- **What is claimed of decoding.** It throws a `MultisigEnvelopeError`, or returns a normal envelope
that validation leaves as it is and that is encoded and decoded to itself. -/
def DecodesSafely (p : EnvelopePlatform) (bytes : ByteArray) : Prop :=
  match decodeEnvelope p bytes with
  | .error (.multisigEnvelopeError _) => True
  | .error .typeError => False
  | .ok e => e.Normal p ∧ validateEnvelope p (some e.toValue) = .ok e ∧
      ∃ written, encodeEnvelope p (some e.toValue) = .ok written ∧ decodeEnvelope p written = .ok e

/-- A value that is parsed is neither misread nor loses a number. -/
def ReadsSafely (p : EnvelopePlatform) (value : Value) : Prop :=
  ¬Misread p (some value) ∧ ¬LosesNumber p (some value)

/-- An envelope that is written and read again is read from what is left of its value. -/
theorem decodeEnvelope_encodedText {v : Value} (h : v.Distinct) :
    decodeEnvelope p (encodedText v) = validateEnvelope p (some v.settled) := by
  rw [decodeEnvelope, parseBytes_encodedText h]
  rfl

/-- The envelope of a parsed value comes back where no number of its contribution is lost. -/
theorem decodeEnvelope_toValue_iff {value : Value} (hdistinct : value.Distinct)
    (h : validateEnvelope p (some value) = .ok e) :
    decodeEnvelope p (encodedText e.toValue) = .ok e ↔ ¬LosesNumber p (some value) := by
  have hsession : ∀ {v : Option Value}, validateEnvelope p v = .ok e →
      (∀ fields ∈ e.sessionRef, fields.toValue.Distinct) ∧
        ∀ fields ∈ e.sessionRef, fields.toValue.AllFinite := by
    intro v hv
    refine ⟨fun fields hfields => ?_, fun fields hfields => ?_⟩ <;>
      obtain ⟨r, hvalid, rfl, -⟩ := sessionRef_of_validateEnvelope hv hfields
    · exact hvalid.distinct.1
    · exact hvalid.distinct.2
  have hdistinct' : e.toValue.Distinct := by
    refine (distinct_toValue (hsession h).1).mpr fun kept hkept => ?_
    obtain ⟨ms, hms, hfrom, -⟩ := exists_contribution h hkept
    have hnames : (Value.obj ms).Distinct := distinct_of_prop hdistinct hms
    refine ⟨by rw [hfrom.keys]; exact hnames.1, ?_⟩
    exact distinctMembers_iff.mpr
      ((hfrom.values Value.Distinct fun _ => trivial).mpr (distinctMembers_iff.mp hnames.2))
  have hfinite := allFinite_toValue (hsession h).2
  rw [decodeEnvelope_encodedText hdistinct']
  constructor
  · rintro hagain ⟨hread, c, hc, hinfinite⟩
    -- What is left of the envelope has finite numbers only, and so has what is read from it.
    obtain ⟨kept, hkept⟩ := contribution_of_contributionRead h hread
    obtain ⟨ms, hms, hfrom, -⟩ := exists_contribution h hkept
    obtain ⟨ms', hms', hfrom', -⟩ := exists_contribution hagain hkept
    have hsettled : (Value.obj ms').AllFinite := allFinite_of_prop (allFinite_settled _) hms'
    obtain rfl : c = .obj ms := Option.some.inj (hc.symm.trans hms)
    have hvalues := (hfrom'.values Value.AllFinite fun _ => trivial).mpr
      (allFiniteMembers_iff.mp hsettled)
    exact hinfinite (allFiniteMembers_iff.mpr
      ((hfrom.values Value.AllFinite fun _ => trivial).mp hvalues))
  · intro hnone
    have hall : e.toValue.AllFinite := by
      refine hfinite.mpr fun kept hkept => ?_
      obtain ⟨ms, hms, hfrom, hread⟩ := exists_contribution h hkept
      have hms' : (Value.obj ms).AllFinite := by
        by_contra hinfinite
        exact hnone ⟨hread, _, hms, hinfinite⟩
      exact allFiniteMembers_iff.mpr
        ((hfrom.values Value.AllFinite fun _ => trivial).mpr (allFiniteMembers_iff.mp hms'))
    rw [settled_of_allFinite _ hall]
    exact validateEnvelope_toValue h

/-- **When decoding is safe.** For every bytes, it is so exactly where the value that is parsed is
read safely, or none is. -/
theorem decodesSafely_iff (p : EnvelopePlatform) (bytes : ByteArray) :
    DecodesSafely p bytes ↔ ∀ value, parseBytes bytes = some value → ReadsSafely p value := by
  unfold DecodesSafely
  cases hparse : parseBytes bytes with
  | none =>
    have hdecode : decodeEnvelope p bytes =
        .error (envelopeError (units "JSON.parse failed: " ++ p.parseFailure bytes)) := by
      rw [decodeEnvelope, hparse]
      rfl
    rw [hdecode]
    exact iff_of_true trivial fun _ h => by cases h
  | some value =>
    have hdistinct := distinct_of_parseBytes hparse
    have hdecode : decodeEnvelope p bytes = validateEnvelope p (some value) := by
      rw [decodeEnvelope, hparse]
      rfl
    rw [hdecode]
    simp only [Option.some.injEq, forall_eq', ReadsSafely]
    cases hvalidate : validateEnvelope p (some value) with
    | error fault =>
      cases fault with
      | typeError =>
        exact iff_of_false id fun h => h.1 (validateEnvelope_eq_typeError.mp hvalidate)
      | multisigEnvelopeError message =>
        refine iff_of_true trivial ⟨fun hmisread => ?_, ?_⟩
        · rw [validateEnvelope_eq_typeError.mpr hmisread] at hvalidate
          cases hvalidate
        · rintro ⟨hread, -⟩
          rcases validateEnvelope_of_contributionRead hread with hmisread | ⟨e, he⟩
          · rw [validateEnvelope_eq_typeError.mpr hmisread] at hvalidate
            cases hvalidate
          · rw [hvalidate] at he
            cases he
    | ok e =>
      have hagain := validateEnvelope_toValue hvalidate
      have hencode : encodeEnvelope p (some e.toValue) = .ok (encodedText e.toValue) := by
        rw [encodeEnvelope, hagain]
        rfl
      have hmisread : ¬Misread p (some value) := by
        intro hmisread
        rw [validateEnvelope_eq_typeError.mpr hmisread] at hvalidate
        cases hvalidate
      rw [← decodeEnvelope_toValue_iff hdistinct hvalidate]
      constructor
      · rintro ⟨-, -, written, hwritten, hread⟩
        rw [hencode] at hwritten
        cases hwritten
        exact ⟨hmisread, hread⟩
      · rintro ⟨-, hread⟩
        exact ⟨normal_of_validateEnvelope hvalidate, hagain, _, hencode, hread⟩

/-! ### A reply that is misread -/

/-- The case mapping in ASCII, with a hash that stands for another. -/
def asciiPlatform : EnvelopePlatform where
  toLowerCase := List.map asciiLower
  toLowerCase_idem := by
    intro s
    rw [List.map_map]
    refine List.map_congr_left fun u _ => ?_
    simp only [Function.comp_apply, asciiLower, UInt16.le_iff_toNat_le]
    split
    · rw [if_neg]
      rw [UInt16.toNat_add]
      simp only [UInt16.reduceToNat] at *
      omega
    · rfl
  toLowerCase_ascii := fun _ _ => rfl
  ascii_of_hex := by
    intro s hhex u hu
    have hunit := List.all_eq_true.mp hhex _ (List.mem_map_of_mem hu)
    simp only [isHexUnit, asciiLower, UInt16.le_iff_toNat_le, UInt16.lt_iff_toNat_lt,
      decide_eq_true_eq] at hunit ⊢
    split at hunit <;> simp only [UInt16.reduceToNat] at * <;> omega
  sha256 := fun _ => List.replicate 32 0
  length_sha256 := fun _ => rfl
  parseFailure := fun _ => []

/-- A reply with a nonce, whose member `sig` is a number. -/
def nonceReplyWithSig : Value :=
  .obj [(units "v", .num envelopeVersion), (units "kind", .str (units "multisig-round-1-reply")),
    (units "fingerprint", .str (List.replicate 64 48)),
    (units "contribution", .obj [(units "pubkey", .str (List.replicate 66 48)),
      (units "publicNonce", .str (List.replicate 132 48)), (units "sig", .num envelopeVersion)])]

/-- A `TypeError` was thrown. -/
def threwTypeError {α : Type} : Except EnvelopeFault α → Bool
  | .error .typeError => true
  | _ => false

theorem eq_typeError_of_threwTypeError {α : Type} {result : Except EnvelopeFault α}
    (h : threwTypeError result) : result = .error .typeError := by
  unfold threwTypeError at h
  split at h
  · rfl
  · cases h

theorem not_decodesSafely_nonceReplyWithSig :
    ¬∀ (p : EnvelopePlatform) (bytes : ByteArray), DecodesSafely p bytes := by
  intro h
  have hdistinct : nonceReplyWithSig.Distinct := by
    simp [nonceReplyWithSig, Value.Distinct, DistinctMembers]
  have hfinite : nonceReplyWithSig.AllFinite := by
    simpa [nonceReplyWithSig, Value.AllFinite, AllFiniteMembers] using allFinite_envelopeVersion
  have hparse := parseBytes_encodedText hdistinct
  rw [settled_of_allFinite _ hfinite] at hparse
  have hsafe := (decodesSafely_iff asciiPlatform _).mp (h _ _) _ hparse
  have hthrew : threwTypeError (validateEnvelope asciiPlatform (some nonceReplyWithSig)) := by
    decide +kernel
  exact hsafe.1 (validateEnvelope_eq_typeError.mp (eq_typeError_of_threwTypeError hthrew))

end XchainWallet
