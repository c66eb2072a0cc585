import XchainWallet.Uri.MultisigSession

/-!
# Decoding an envelope

What `validateEnvelope` returns is validated again with the same answer
(`validateEnvelope_toValue`), and what is encoded is decoded with the same answer where its numbers are
finite. A number too large for 64 bits is infinite when it is parsed and `null` when it is written, and
a contribution keeps members that no check looks at.

Those members are also where decoding throws what it should not: a member `pubkey`, `publicNonce`,
`sig` or `txHex` that the kind does not check is put in lower case whatever it is, and a value put in
the text of a refusal is asked for its own `toString`. `decodesSafely_iff` says that nothing else goes
wrong.
-/

namespace XchainWallet

open Json Checks

variable {p : EnvelopePlatform}

/-! ### Members in lower case -/

/-- The members of a contribution that are put in lower case. -/
def textMembers : List String := ["pubkey", "publicNonce", "sig", "txHex"]

/-- A string in lower case, another value as it is. -/
def lowerValue (p : EnvelopePlatform) : Value → Value
  | .str s => .str (p.toLowerCase s)
  | v => v

theorem toLowerCase_nil : p.toLowerCase [] = [] := p.toLowerCase_ascii [] (fun _ h => by cases h)

/-- What becomes of a list of members when one of them is put in lower case. -/
structure LoweredFrom (p : EnvelopePlatform) (name : String) (ms ms' : List (Units × Value)) :
    Prop where
  self : prop name (some (.obj ms')) = (prop name (some (.obj ms))).map (lowerValue p)
  other : ∀ n, n ≠ name → prop n (some (.obj ms')) = prop n (some (.obj ms))
  keys : ms'.map Prod.fst = ms.map Prod.fst
  values : ∀ P : Value → Prop, (∀ s, P (.str s)) → ((∀ m ∈ ms', P m.2) ↔ ∀ m ∈ ms, P m.2)

private theorem find_of_prop {name : String} {ms : List (Units × Value)} {v : Value}
    (h : prop name (some (.obj ms)) = some v) :
    Keyed.find Prod.fst (units name) ms = some (units name, v) := by
  obtain ⟨member, hfind, hvalue⟩ := Option.map_eq_some_iff.mp h
  have hkey := Keyed.key_of_find hfind
  rw [hfind, ← hkey, ← hvalue]

private theorem falsy_lowerValue {v : Option Value} (h : truthy v = false) :
    v.map (lowerValue p) = v := by
  cases v with
  | none => rfl
  | some v =>
    cases v with
    | str s =>
      obtain rfl : s = [] := by simpa [truthy] using h
      rw [Option.map_some, lowerValue, toLowerCase_nil]
    | _ => rfl

theorem loweredFrom_of_lowerMember {name : String} {ms ms' : List (Units × Value)}
    (h : lowerMember p name ms = .ok ms') : LoweredFrom p name ms ms' := by
  unfold lowerMember at h
  split at h
  · next htruthy =>
    cases htext : text? (prop name (some (.obj ms))) with
    | none =>
      rw [htext] at h
      cases h
    | some s =>
      rw [htext] at h
      cases h
      have hprop := text?_eq_some.mp htext
      have hfind := find_of_prop hprop
      refine ⟨?_, fun n hn => ?_, Keyed.map_key_upsert hfind, fun P hP => ⟨fun h m hm => ?_,
        fun h m hm => ?_⟩⟩
      · have hself : Keyed.find Prod.fst (units name)
            (Keyed.upsert Prod.fst (units name, Value.str (p.toLowerCase s)) ms) =
              some (units name, Value.str (p.toLowerCase s)) :=
          Keyed.find_upsert_self (units name, Value.str (p.toLowerCase s)) ms
        rw [hprop, prop, Option.bind_some, Value.prop, hself]
        rfl
      · have hne : units n ≠ Prod.fst (units name, Value.str (p.toLowerCase s)) :=
          fun heq => hn (units_inj.mp heq)
        have hsame : Keyed.find Prod.fst (units n)
            (Keyed.upsert Prod.fst (units name, Value.str (p.toLowerCase s)) ms) =
              Keyed.find Prod.fst (units n) ms :=
          Keyed.find_upsert_of_ne hne ms
        rw [prop, Option.bind_some, Value.prop, hsame]
        rfl
      · have hkept : m ∈ Keyed.upsert Prod.fst (units name, Value.str (p.toLowerCase s)) ms ∨
            Keyed.find Prod.fst (units name) ms = some m := Keyed.mem_upsert_or_find hm
        rcases hkept with hm | hfound
        · exact h m hm
        · rw [hfind] at hfound
          rw [← Option.some.inj hfound]
          exact hP s
      · rcases Keyed.mem_upsert hm with rfl | hm
        · exact hP _
        · exact h m hm
  · next hfalsy =>
    cases h
    have hfalse : truthy (prop name (some (.obj ms))) = false := by simpa using hfalsy
    exact ⟨(falsy_lowerValue hfalse).symm, fun _ _ => rfl, rfl, fun _ _ => Iff.rfl⟩

/-- A member is put in lower case unless it is one that has none. -/
theorem lowerMember_cases (p : EnvelopePlatform) (name : String) (ms : List (Units × Value)) :
    (truthy (prop name (some (.obj ms))) → (text? (prop name (some (.obj ms)))).isSome) ∧
        (∃ ms', lowerMember p name ms = .ok ms') ∨
      (truthy (prop name (some (.obj ms))) ∧ text? (prop name (some (.obj ms))) = none) ∧
        lowerMember p name ms = .error .typeError := by
  unfold lowerMember
  cases htruthy : truthy (prop name (some (.obj ms))) with
  | false => exact .inl ⟨fun h => absurd h (by decide), ms, rfl⟩
  | true =>
    cases htext : text? (prop name (some (.obj ms))) with
    | none => exact .inr ⟨⟨rfl, rfl⟩, rfl⟩
    | some s => exact .inl ⟨fun _ => rfl, _, rfl⟩

/-- A member in lower case stays as it is. -/
theorem lowerMember_self {name : String} {ms : List (Units × Value)}
    (htext : truthy (prop name (some (.obj ms))) → (text? (prop name (some (.obj ms)))).isSome)
    (hlower : (prop name (some (.obj ms))).map (lowerValue p) = prop name (some (.obj ms))) :
    lowerMember p name ms = .ok ms := by
  unfold lowerMember
  split
  · next htruthy =>
    obtain ⟨s, hs⟩ := Option.isSome_iff_exists.mp (htext htruthy)
    have hprop := text?_eq_some.mp hs
    rw [hprop, Option.map_some, lowerValue] at hlower
    have hsame : p.toLowerCase s = s := Value.str.inj (Option.some.inj hlower)
    rw [hs]
    dsimp only
    rw [hsame, Keyed.upsert_of_find (find_of_prop hprop)]
  · rfl

/-! ### Contributions -/

/-- What becomes of the members of a contribution that is kept. -/
structure KeptFrom (p : EnvelopePlatform) (ms kept : List (Units × Value)) : Prop where
  text : ∀ name ∈ textMembers,
    prop name (some (.obj kept)) = (prop name (some (.obj ms))).map (lowerValue p)
  other : ∀ name, name ∉ textMembers → prop name (some (.obj kept)) = prop name (some (.obj ms))
  keys : kept.map Prod.fst = ms.map Prod.fst
  values : ∀ P : Value → Prop, (∀ s, P (.str s)) → ((∀ m ∈ kept, P m.2) ↔ ∀ m ∈ ms, P m.2)

/-- Every member that is put in lower case is a string, if anything. -/
def TextMembers (contribution : Option Value) : Prop :=
  ∀ name ∈ textMembers, truthy (prop name contribution) → (text? (prop name contribution)).isSome

/-- The members in lower case, one after the other. -/
def lowerMembers (p : EnvelopePlatform) (ms : List (Units × Value)) :
    Except EnvelopeFault (List (Units × Value)) := do
  let kept ← lowerMember p "pubkey" ms
  let kept ← lowerMember p "publicNonce" kept
  let kept ← lowerMember p "sig" kept
  lowerMember p "txHex" kept

theorem checkedContribution_eq (kind : EnvelopeKind) (contribution : Option Value) :
    checkedContribution p kind contribution = (do
      assertContribution p kind contribution
      lowerMembers p (contribution.elim [] Value.members)) := rfl

variable {ms kept : List (Units × Value)}

theorem keptFrom_of_lowerMembers (h : lowerMembers p ms = .ok kept) : KeptFrom p ms kept := by
  simp only [lowerMembers, bind_eq_ok] at h
  obtain ⟨ms₁, h₁, ms₂, h₂, ms₃, h₃, h₄⟩ := h
  have l₁ := loweredFrom_of_lowerMember h₁
  have l₂ := loweredFrom_of_lowerMember h₂
  have l₃ := loweredFrom_of_lowerMember h₃
  have l₄ := loweredFrom_of_lowerMember h₄
  constructor
  · intro name hname
    simp only [textMembers, List.mem_cons, List.not_mem_nil, or_false] at hname
    rcases hname with rfl | rfl | rfl | rfl
    · rw [l₄.other _ (by decide), l₃.other _ (by decide), l₂.other _ (by decide), l₁.self]
    · rw [l₄.other _ (by decide), l₃.other _ (by decide), l₂.self, l₁.other _ (by decide)]
    · rw [l₄.other _ (by decide), l₃.self, l₂.other _ (by decide), l₁.other _ (by decide)]
    · rw [l₄.self, l₃.other _ (by decide), l₂.other _ (by decide), l₁.other _ (by decide)]
  · intro name hname
    simp only [textMembers, List.mem_cons, List.not_mem_nil, or_false, not_or] at hname
    rw [l₄.other _ hname.2.2.2, l₃.other _ hname.2.2.1, l₂.other _ hname.2.1, l₁.other _ hname.1]
  · rw [l₄.keys, l₃.keys, l₂.keys, l₁.keys]
  · intro P hP
    exact ((l₄.values P hP).trans (l₃.values P hP)).trans ((l₂.values P hP).trans (l₁.values P hP))

/-- The members are kept where the ones to be put in lower case are strings, if anything. -/
theorem lowerMembers_cases (p : EnvelopePlatform) (ms : List (Units × Value)) :
    TextMembers (some (.obj ms)) ∧ (∃ kept, lowerMembers p ms = .ok kept) ∨
      ¬TextMembers (some (.obj ms)) ∧ lowerMembers p ms = .error .typeError := by
  have hfails : ∀ name ∈ textMembers, truthy (prop name (some (.obj ms))) ∧
      text? (prop name (some (.obj ms))) = none → ¬TextMembers (some (.obj ms)) := by
    rintro name hname ⟨htruthy, htext⟩ hall
    have hsome := hall name hname htruthy
    rw [htext] at hsome
    cases hsome
  rcases lowerMember_cases p "pubkey" ms with ⟨t₁, ms₁, h₁⟩ | ⟨hbad, h₁⟩
  swap
  · exact .inr ⟨hfails _ (by decide) hbad, by rw [lowerMembers, h₁]; rfl⟩
  have l₁ := loweredFrom_of_lowerMember h₁
  have e₁ : lowerMembers p ms = (do
      let kept ← lowerMember p "publicNonce" ms₁
      let kept ← lowerMember p "sig" kept
      lowerMember p "txHex" kept) := by rw [lowerMembers, h₁]; rfl
  rcases lowerMember_cases p "publicNonce" ms₁ with ⟨t₂, ms₂, h₂⟩ | ⟨hbad, h₂⟩
  swap
  · rw [l₁.other _ (by decide)] at hbad
    exact .inr ⟨hfails _ (by decide) hbad, by rw [e₁, h₂]; rfl⟩
  have l₂ := loweredFrom_of_lowerMember h₂
  rcases lowerMember_cases p "sig" ms₂ with ⟨t₃, ms₃, h₃⟩ | ⟨hbad, h₃⟩
  swap
  · rw [l₂.other _ (by decide), l₁.other _ (by decide)] at hbad
    exact .inr ⟨hfails _ (by decide) hbad, by rw [e₁, h₂]; exact congrArg (· >>= _) h₃⟩
  have l₃ := loweredFrom_of_lowerMember h₃
  have e₃ : lowerMembers p ms = lowerMember p "txHex" ms₃ := by
    rw [e₁, h₂]
    exact congrArg (· >>= _) h₃
  rcases lowerMember_cases p "txHex" ms₃ with ⟨t₄, ms₄, h₄⟩ | ⟨hbad, h₄⟩
  swap
  · rw [l₃.other _ (by decide), l₂.other _ (by decide), l₁.other _ (by decide)] at hbad
    exact .inr ⟨hfails _ (by decide) hbad, by rw [e₃, h₄]⟩
  refine .inl ⟨fun name hname => ?_, ms₄, by rw [e₃, h₄]⟩
  simp only [textMembers, List.mem_cons, List.not_mem_nil, or_false] at hname
  rcases hname with rfl | rfl | rfl | rfl
  · exact t₁
  · rwa [l₁.other _ (by decide)] at t₂
  · rwa [l₂.other _ (by decide), l₁.other _ (by decide)] at t₃
  · rwa [l₃.other _ (by decide), l₂.other _ (by decide), l₁.other _ (by decide)] at t₄

/-- Members that were kept are kept as they are. -/
theorem lowerMembers_again (h : lowerMembers p ms = .ok kept) : lowerMembers p kept = .ok kept := by
  have hkept := keptFrom_of_lowerMembers h
  have htext : TextMembers (some (.obj ms)) := by
    rcases lowerMembers_cases p ms with ⟨htext, -⟩ | ⟨-, herror⟩
    · exact htext
    · rw [h] at herror
      cases herror
  have hself : ∀ name ∈ textMembers, lowerMember p name kept = .ok kept := by
    intro name hname
    have hprop := hkept.text name hname
    refine lowerMember_self ?_ ?_
    · intro htruthy
      cases hvalue : prop name (some (.obj ms)) with
      | none =>
        rw [hprop, hvalue] at htruthy
        cases htruthy
      | some v =>
        rw [hprop, hvalue] at htruthy ⊢
        cases v with
        | str s => rfl
        | _ => simpa [hvalue, lowerValue] using htext name hname (by rw [hvalue]; exact htruthy)
    · rw [hprop, Option.map_map]
      congr 1
      funext v
      cases v <;> simp [lowerValue, p.toLowerCase_idem]
  rw [lowerMembers, hself "pubkey" (by decide)]
  change (lowerMember p "publicNonce" kept >>= fun kept => lowerMember p "sig" kept >>= _) = _
  rw [hself "publicNonce" (by decide)]
  change (lowerMember p "sig" kept >>= _) = _
  rw [hself "sig" (by decide)]
  exact hself "txHex" (by decide)

theorem isHexLength_lowerValue {v : Option Value} {bytes : ℕ} (h : isHexLength p v bytes) :
    isHexLength p (v.map (lowerValue p)) bytes := by
  obtain ⟨s, rfl, -, -⟩ := isHexLength_iff.mp h
  exact isHexLength_toLowerCase h

theorem isEvenHex_lowerValue {v : Option Value} (h : isEvenHex p v) :
    isEvenHex p (v.map (lowerValue p)) := by
  obtain ⟨s, rfl, -⟩ := isEvenHex_iff.mp h
  exact isEvenHex_toLowerCase h

/-- A kind that has a contribution refuses one without members. -/
theorem obj_of_assertContribution {kind : EnvelopeKind} {contribution : Option Value}
    (hkind : kind.isReply || kind = .finalized) (h : assertContribution p kind contribution = .ok ()) :
    ∃ ms, contribution = some (.obj ms) := by
  have hmember : ∃ name v, prop name contribution = some v := by
    cases kind with
    | round1Reply | round2Reply | classicalReply =>
      simp only [assertContribution, refuseEnvelope, bind_eq_ok, refuseIf_eq_ok, not_not,
        exists_const] at h
      obtain ⟨s, hs, -⟩ := isHexLength_iff.mp h.2.1
      exact ⟨_, _, hs⟩
    | finalized =>
      simp only [assertContribution, refuseEnvelope, bind_eq_ok, refuseIf_eq_ok, not_not,
        exists_const] at h
      obtain ⟨s, hs, -⟩ := isEvenHex_iff.mp h.2.1
      exact ⟨_, _, hs⟩
    | _ => exact absurd hkind (by decide)
  obtain ⟨name, v, hv⟩ := hmember
  cases contribution with
  | none => cases hv
  | some c =>
    cases c with
    | obj ms => exact ⟨ms, rfl⟩
    | _ => cases hv

/-- A contribution that was kept passes the checks of its kind. -/
theorem assertContribution_kept {kind : EnvelopeKind}
    (h : assertContribution p kind (some (.obj ms)) = .ok ()) (hkept : KeptFrom p ms kept) :
    assertContribution p kind (some (.obj kept)) = .ok () := by
  have hpubkey := hkept.text "pubkey" (by decide)
  have hnonce := hkept.text "publicNonce" (by decide)
  have hsig := hkept.text "sig" (by decide)
  have htxHex := hkept.text "txHex" (by decide)
  have htxid := hkept.other "txid" (by decide)
  cases kind with
  | round1Reply =>
    simp only [assertContribution, refuseEnvelope, bind_eq_ok, refuseIf_eq_ok, not_not,
      exists_const, hpubkey, hnonce] at h ⊢
    exact ⟨rfl, isHexLength_lowerValue h.2.1, isHexLength_lowerValue h.2.2⟩
  | round2Reply =>
    simp only [assertContribution, refuseEnvelope, bind_eq_ok, refuseIf_eq_ok, not_not,
      exists_const, hpubkey, hsig] at h ⊢
    exact ⟨rfl, isHexLength_lowerValue h.2.1, isHexLength_lowerValue h.2.2⟩
  | classicalReply =>
    simp only [assertContribution, refuseEnvelope, bind_eq_ok, refuseIf_eq_ok, not_not,
      exists_const, hpubkey, hsig] at h ⊢
    obtain ⟨-, hp, he, hlength⟩ := h
    refine ⟨rfl, isHexLength_lowerValue hp, isEvenHex_lowerValue he, ?_⟩
    obtain ⟨s, hs, -, -, hhex⟩ := isEvenHex_iff.mp he
    rw [hs] at hlength ⊢
    simpa [text?, lowerValue, length_toLowerCase hhex] using hlength
  | finalized =>
    simp only [assertContribution, refuseEnvelope, bind_eq_ok, refuseIf_eq_ok, not_not,
      exists_const, htxHex, htxid] at h ⊢
    exact ⟨rfl, isEvenHex_lowerValue h.2.1, h.2.2⟩
  | _ => rfl

/-- A contribution that was kept is kept as it is. -/
theorem checkedContribution_again {kind : EnvelopeKind} {contribution : Option Value}
    {kept : List (Units × Value)} (hkind : kind.isReply || kind = .finalized)
    (h : checkedContribution p kind contribution = .ok kept) :
    checkedContribution p kind (some (.obj kept)) = .ok kept := by
  rw [checkedContribution_eq, bind_eq_ok] at h
  obtain ⟨⟨⟩, hassert, hlower⟩ := h
  obtain ⟨ms, rfl⟩ := obj_of_assertContribution hkind hassert
  have hlower' : lowerMembers p ms = .ok kept := hlower
  rw [checkedContribution_eq, bind_eq_ok]
  exact ⟨(), assertContribution_kept hassert (keptFrom_of_lowerMembers hlower'),
    lowerMembers_again hlower'⟩

/-! ### Envelopes -/

/-- What `validateEnvelope` has found when it returns an envelope. -/
structure ReadEnvelope (p : EnvelopePlatform) (value : Option Value) (e : Envelope) : Prop where
  isObject : isObject value
  version : prop "v" value = some (.num envelopeVersion)
  kind : kindOf? EnvelopeKind.all (prop "kind" value) = some e.kind
  fingerprint : ∃ s, prop "fingerprint" value = some (.str s) ∧
    isHexLength p (some (.str s)) 32 ∧ e.fingerprint = p.toLowerCase s
  sessionRef : readWhen (e.kind.isRequest || e.kind = .finalized)
    (checkedSessionRef p (prop "sessionRef" value) e.fingerprint) = .ok e.sessionRef
  aggNonce : readWhen (e.kind = .requestPartial) (do
    assertAggNonce p e.kind (prop "aggNonce" value)
    p.toLowerCase <$> stringOf (prop "aggNonce" value)) = .ok e.aggNonce
  contribution : readWhen (e.kind.isReply || e.kind = .finalized)
    (checkedContribution p e.kind (prop "contribution" value)) = .ok e.contribution

theorem validateEnvelope_eq_ok {value : Option Value} {e : Envelope} :
    validateEnvelope p value = .ok e ↔ ReadEnvelope p value e := by
  constructor
  · intro h
    simp only [validateEnvelope, bind_eq_ok, refuseEnvelope, refuseIf_eq_ok, refuseShowing_eq_ok,
      not_not, exists_const, orRefuse_eq_ok] at h
    obtain ⟨hobject, hversion, -, kind, hkind, hhex, fingerprint, hfingerprint, sessionRef,
      hsessionRef, aggNonce, haggNonce, contribution, hcontribution, hsome⟩ := h
    cases hsome
    obtain ⟨s, hs, hrest⟩ := isHexLength_iff.mp hhex
    rw [hs] at hfingerprint
    cases hfingerprint
    exact ⟨hobject, number?_eq_some.mp hversion, hkind, ⟨s, hs, hs ▸ hhex, rfl⟩, hsessionRef,
      haggNonce, hcontribution⟩
  · rintro ⟨hobject, hversion, hkind, ⟨s, hs, hhex, hfingerprint⟩, hsessionRef, haggNonce,
      hcontribution⟩
    have hnone : ¬kindOf? EnvelopeKind.all (prop "kind" value) = none := by
      rw [hkind]
      exact Option.some_ne_none _
    simp only [validateEnvelope, bind_eq_ok, refuseEnvelope, refuseIf_eq_ok, refuseShowing_eq_ok,
      not_not, exists_const, orRefuse_eq_ok]
    refine ⟨hobject, number?_eq_some.mpr hversion, hnone, e.kind, hkind, hs ▸ hhex, e.fingerprint,
      ?_, e.sessionRef, hsessionRef, e.aggNonce, haggNonce, e.contribution, hcontribution, rfl⟩
    rw [hs, hfingerprint]
    rfl

theorem readWhen_eq_ok {α : Type} {applies : Bool} {read : Except EnvelopeFault α}
    {value : Option α} :
    readWhen applies read = .ok value ↔
      applies = true ∧ (∃ a, read = .ok a ∧ value = some a) ∨ applies = false ∧ value = none := by
  cases applies with
  | false => simp [readWhen, eq_comm]
  | true =>
    cases read with
    | error f => simp [readWhen, Functor.map, Except.map]
    | ok a => simp [readWhen, Functor.map, Except.map, eq_comm]

/-! ### The members of an envelope -/

variable (e : Envelope)

@[simp]
theorem prop_v_toValue : prop "v" (some e.toValue) = some (.num envelopeVersion) := by
  simp [Envelope.toValue, prop_obj_cons]

@[simp]
theorem prop_kind_toValue : prop "kind" (some e.toValue) = some (.str (units e.kind.name)) := by
  simp [Envelope.toValue, prop_obj_cons]

@[simp]
theorem prop_fingerprint_toValue :
    prop "fingerprint" (some e.toValue) = some (.str e.fingerprint) := by
  simp [Envelope.toValue, prop_obj_cons]

@[simp]
theorem prop_sessionRef_toValue :
    prop "sessionRef" (some e.toValue) = e.sessionRef.map SessionFields.toValue := by
  obtain ⟨kind, fingerprint, sessionRef, aggNonce, contribution⟩ := e
  cases sessionRef <;> cases aggNonce <;> cases contribution <;>
    simp [Envelope.toValue, prop_obj_cons]

@[simp]
theorem prop_aggNonce_toValue : prop "aggNonce" (some e.toValue) = e.aggNonce.map .str := by
  obtain ⟨kind, fingerprint, sessionRef, aggNonce, contribution⟩ := e
  cases sessionRef <;> cases aggNonce <;> cases contribution <;>
    simp [Envelope.toValue, prop_obj_cons]

@[simp]
theorem prop_contribution_toValue :
    prop "contribution" (some e.toValue) = e.contribution.map .obj := by
  obtain ⟨kind, fingerprint, sessionRef, aggNonce, contribution⟩ := e
  cases sessionRef <;> cases aggNonce <;> cases contribution <;>
    simp [Envelope.toValue, prop_obj_cons]

theorem kindOf?_name (kind : EnvelopeKind) :
    kindOf? EnvelopeKind.all (some (.str (units kind.name))) = some kind := by
  cases kind <;> decide

/-- **Validation is idempotent on its own output.** -/
theorem validateEnvelope_toValue {value : Option Value} {e : Envelope}
    (h : validateEnvelope p value = .ok e) : validateEnvelope p (some e.toValue) = .ok e := by
  obtain ⟨-, -, -, ⟨s, -, hhex, hfingerprint⟩, hsessionRef, haggNonce, hcontribution⟩ :=
    validateEnvelope_eq_ok.mp h
  refine validateEnvelope_eq_ok.mpr ⟨rfl, prop_v_toValue e, ?_, ⟨e.fingerprint, ?_, ?_, ?_⟩,
    ?_, ?_, ?_⟩
  · rw [prop_kind_toValue, kindOf?_name]
  · exact prop_fingerprint_toValue e
  · rw [hfingerprint]
    exact isHexLength_toLowerCase hhex
  · rw [hfingerprint, p.toLowerCase_idem]
  · rw [prop_sessionRef_toValue]
    rcases readWhen_eq_ok.mp hsessionRef with ⟨happlies, fields, hread, hfields⟩ | ⟨hno, hfields⟩
    · rw [hfields]
      exact readWhen_eq_ok.mpr (.inl ⟨happlies, fields, checkedSessionRef_again hread, rfl⟩)
    · rw [hfields]
      exact readWhen_eq_ok.mpr (.inr ⟨hno, rfl⟩)
  · rw [prop_aggNonce_toValue]
    rcases readWhen_eq_ok.mp haggNonce with ⟨happlies, nonce, hread, hnonce⟩ | ⟨hno, hnonce⟩
    · have hkind : e.kind = .requestPartial := of_decide_eq_true happlies
      simp only [assertAggNonce, refuseEnvelope, bind_eq_ok, refuseIf_eq_ok, not_and, not_not,
        exists_const, hkind, forall_const] at hread
      obtain ⟨hhexNonce, hlower⟩ := hread
      obtain ⟨original, horiginal, -⟩ := isHexLength_iff.mp hhexNonce
      rw [horiginal] at hhexNonce hlower
      have hlower' : p.toLowerCase original = nonce := Except.ok.inj hlower
      have hagain := isHexLength_toLowerCase hhexNonce
      rw [hlower'] at hagain
      rw [hnonce]
      refine readWhen_eq_ok.mpr (.inl ⟨happlies, nonce, ?_, rfl⟩)
      simp only [assertAggNonce, refuseEnvelope, bind_eq_ok, refuseIf_eq_ok, not_and, not_not,
        exists_const, hkind, forall_const]
      refine ⟨hagain, ?_⟩
      rw [Option.map_some, stringOf_str, ← hlower']
      exact congrArg Except.ok (p.toLowerCase_idem original)
    · rw [hnonce]
      exact readWhen_eq_ok.mpr (.inr ⟨hno, rfl⟩)
  · rw [prop_contribution_toValue]
    rcases readWhen_eq_ok.mp hcontribution with ⟨happlies, kept, hread, hkept⟩ | ⟨hno, hkept⟩
    · have hkind : e.kind.isReply || e.kind = .finalized := happlies
      rw [hkept]
      exact readWhen_eq_ok.mpr (.inl ⟨happlies, kept, checkedContribution_again hkind hread, rfl⟩)
    · rw [hkept]
      exact readWhen_eq_ok.mpr (.inr ⟨hno, rfl⟩)

end XchainWallet
