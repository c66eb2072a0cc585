import XchainWallet.Uri.MultisigEnvelope

/-!
# Session references in their canonical form

What `assertSessionRef` accepts is read off as a `SessionRead`: a scheme, a threshold, and texts that
are hex. Its canonical form has the same scheme and threshold and the texts in lower case, is accepted
again, and is its own canonical form. So a reference that an envelope carries is checked with the same
answer any number of times.
-/

namespace XchainWallet

open Json Checks

variable {p : EnvelopePlatform}

/-! ### Members that are read -/

@[simp]
theorem prop_obj_nil (name : String) : prop name (some (.obj [])) = none := rfl

theorem prop_obj_cons (name : String) (member : Units × Value) (members : List (Units × Value)) :
    prop name (some (.obj (member :: members))) =
      if member.1 = units name then some member.2 else prop name (some (.obj members)) := by
  rw [prop, Option.bind_some, Value.prop, Keyed.find_cons]
  split <;> rfl

variable {v : Option Value}

theorem text?_eq_some {s : Units} : text? v = some s ↔ v = some (.str s) := by
  unfold text?
  split <;> simp_all

theorem number?_eq_some {n : Number} : number? v = some n ↔ v = some (.num n) := by
  unfold number?
  split <;> simp_all

theorem elements?_eq_some {vs : List Value} : elements? v = some vs ↔ v = some (.arr vs) := by
  unfold elements?
  split <;> simp_all

theorem stringOf_str (s : Units) : stringOf (some (.str s)) = .ok s := rfl

/-! ### Hex texts -/

@[simp]
theorem isHexText_toLowerCase (s : Units) : isHexText p (p.toLowerCase s) = isHexText p s := by
  rw [isHexText, isHexText, p.toLowerCase_idem]

theorem length_toLowerCase {s : Units} (h : isHexText p s) :
    (p.toLowerCase s).length = s.length := by
  rw [isHexText, decide_eq_true_eq] at h
  rw [p.toLowerCase_ascii s (p.ascii_of_hex s h.2), List.length_map]

theorem isHexLength_iff {bytes : ℕ} :
    isHexLength p v bytes ↔ ∃ s, v = some (.str s) ∧ isHexText p s ∧ s.length = bytes * 2 := by
  simp [isHexLength, Option.any_eq_true, text?_eq_some]

theorem isEvenHex_iff :
    isEvenHex p v ↔ ∃ s, v = some (.str s) ∧ 0 < s.length ∧ s.length % 2 = 0 ∧ isHexText p s := by
  simp [isEvenHex, Option.any_eq_true, text?_eq_some]

/-- A text of hex digits passes in lower case. -/
theorem isHexLength_toLowerCase {s : Units} {bytes : ℕ} (h : isHexLength p (some (.str s)) bytes) :
    isHexLength p (some (.str (p.toLowerCase s))) bytes := by
  obtain ⟨s', hs, hhex, hlength⟩ := isHexLength_iff.mp h
  cases hs
  refine isHexLength_iff.mpr ⟨_, rfl, ?_, ?_⟩
  · rwa [isHexText_toLowerCase]
  · rw [length_toLowerCase hhex, hlength]

theorem isEvenHex_toLowerCase {s : Units} (h : isEvenHex p (some (.str s))) :
    isEvenHex p (some (.str (p.toLowerCase s))) := by
  obtain ⟨s', hs, hpos, heven, hhex⟩ := isEvenHex_iff.mp h
  cases hs
  refine isEvenHex_iff.mpr ⟨_, rfl, ?_, ?_, ?_⟩
  · rwa [length_toLowerCase hhex]
  · rwa [length_toLowerCase hhex]
  · rwa [isHexText_toLowerCase]

/-! ### What a reference says -/

/-- A reference that is well formed. -/
structure SessionRead where
  scheme : Units
  threshold : Number
  cosignerPubkeys : List Units
  msgHash : Units
  psbtHex : Units

namespace SessionRead

/-- What is checked of it. -/
structure Valid (p : EnvelopePlatform) (r : SessionRead) : Prop where
  scheme : r.scheme ∈ sessionSchemes
  integer : isInteger r.threshold
  positive : ¬isAtMostZero r.threshold
  two_le : 2 ≤ r.cosignerPubkeys.length
  pubkeys : ∀ pubkey ∈ r.cosignerPubkeys, isHexLength p (some (.str pubkey)) 33
  threshold : ¬exceeds r.cosignerPubkeys.length r.threshold
  msgHash : isHexLength p (some (.str r.msgHash)) 32
  psbtHex : isEvenHex p (some (.str r.psbtHex))

/-- The reference has these members. -/
structure ReadFrom (ref : Option Value) (r : SessionRead) : Prop where
  isObject : isObject ref
  scheme : prop "scheme" ref = some (.str r.scheme)
  threshold : prop "threshold" ref = some (.num r.threshold)
  cosignerPubkeys : prop "cosignerPubkeys" ref = some (.arr (r.cosignerPubkeys.map .str))
  msgHash : prop "msgHash" ref = some (.str r.msgHash)
  psbtHex : prop "psbtHex" ref = some (.str r.psbtHex)

/-- Its members as they stand. -/
def fields (r : SessionRead) : SessionFields :=
  ⟨some (.str r.scheme), some (.num r.threshold), r.cosignerPubkeys, r.msgHash, r.psbtHex⟩

/-- Its texts in lower case. -/
def lowered (p : EnvelopePlatform) (r : SessionRead) : SessionRead :=
  ⟨r.scheme, r.threshold, r.cosignerPubkeys.map p.toLowerCase, p.toLowerCase r.msgHash,
    p.toLowerCase r.psbtHex⟩

theorem lowered_lowered (r : SessionRead) : (r.lowered p).lowered p = r.lowered p := by
  have hpubkeys : (r.cosignerPubkeys.map p.toLowerCase).map p.toLowerCase =
      r.cosignerPubkeys.map p.toLowerCase := by
    rw [List.map_map]
    exact List.map_congr_left fun pubkey _ => p.toLowerCase_idem pubkey
  simp only [lowered, hpubkeys, p.toLowerCase_idem]

theorem Valid.lowered {r : SessionRead} (h : r.Valid p) : (r.lowered p).Valid p where
  scheme := h.scheme
  integer := h.integer
  positive := h.positive
  two_le := by
    rw [SessionRead.lowered, List.length_map]
    exact h.two_le
  pubkeys := by
    intro pubkey hpubkey
    obtain ⟨original, horiginal, rfl⟩ := List.mem_map.mp hpubkey
    exact isHexLength_toLowerCase (h.pubkeys original horiginal)
  threshold := by
    rw [SessionRead.lowered, List.length_map]
    exact h.threshold
  msgHash := isHexLength_toLowerCase h.msgHash
  psbtHex := isEvenHex_toLowerCase h.psbtHex

theorem readFrom_fields (r : SessionRead) : r.ReadFrom (some r.fields.toValue) where
  isObject := rfl
  scheme := by simp [fields, SessionFields.toValue, prop_obj_cons]
  threshold := by simp [fields, SessionFields.toValue, prop_obj_cons]
  cosignerPubkeys := by simp [fields, SessionFields.toValue, prop_obj_cons]
  msgHash := by simp [fields, SessionFields.toValue, prop_obj_cons]
  psbtHex := by simp [fields, SessionFields.toValue, prop_obj_cons]

end SessionRead

/-! ### Checking -/

/-- Texts of a list that are all strings. -/
theorem exists_map_str {vs : List Value} (h : ∀ v ∈ vs, isHexLength p (some v) 33) :
    ∃ texts : List Units, vs = texts.map .str := by
  induction vs with
  | nil => exact ⟨[], rfl⟩
  | cons v vs ih =>
    obtain ⟨s, hs, -, -⟩ := isHexLength_iff.mp (h v (.head _))
    obtain ⟨texts, rfl⟩ := ih fun w hw => h w (.tail v hw)
    exact ⟨s :: texts, by rw [List.map_cons, Option.some.inj hs]⟩

theorem refuseShowing_eq_ok {refused : Prop} [Decidable refused] {before behind : String} {u : Unit} :
    refuseShowing refused before v behind = .ok u ↔ ¬refused := by
  by_cases h : refused
  · rw [refuseShowing, if_pos h]
    split <;> simp [h]
  · simp [refuseShowing, h]

variable {ref : Option Value}

/-- **What is accepted as a session reference.** -/
theorem assertSessionRef_eq_ok :
    assertSessionRef p ref = .ok () ↔ ∃ r : SessionRead, r.Valid p ∧ r.ReadFrom ref := by
  constructor
  · intro h
    simp only [assertSessionRef, refuseEnvelope, bind_eq_ok, refuseIf_eq_ok, refuseShowing_eq_ok,
      not_not, exists_const, Option.any_eq_true, text?_eq_some, number?_eq_some, elements?_eq_some,
      List.contains_iff_mem, decide_eq_true_eq, List.all_eq_true] at h
    obtain ⟨hobject, ⟨scheme, hscheme, hmem⟩, ⟨n, hn, hinteger, hpositive⟩, ⟨vs, hvs, htwo⟩,
      ⟨vs', hvs', hpubkeys⟩, hthreshold, hmsgHash, hpsbtHex⟩ := h
    obtain rfl : vs' = vs := Value.arr.inj (Option.some.inj (hvs'.symm.trans hvs))
    obtain ⟨pubkeys, rfl⟩ := exists_map_str hpubkeys
    obtain ⟨msgHash, hmsg, -, -⟩ := isHexLength_iff.mp hmsgHash
    obtain ⟨psbtHex, hpsbt, -, -, -⟩ := isEvenHex_iff.mp hpsbtHex
    rw [hmsg] at hmsgHash
    rw [hpsbt] at hpsbtHex
    have hlength : (pubkeys.map Value.str).length = pubkeys.length := List.length_map _
    refine ⟨⟨scheme, n, pubkeys, msgHash, psbtHex⟩, ⟨hmem, hinteger, hpositive, ?_, ?_, ?_,
      hmsgHash, hpsbtHex⟩, ⟨hobject, hscheme, hn, hvs, hmsg, hpsbt⟩⟩
    · rwa [hlength] at htwo
    · exact fun pubkey hpubkey => hpubkeys _ (List.mem_map_of_mem hpubkey)
    · rw [← hlength]
      exact fun hexceeds => hthreshold ⟨n, hn, _, hvs, hexceeds⟩
  · rintro ⟨r, hvalid, hread⟩
    have hlength : (r.cosignerPubkeys.map Value.str).length = r.cosignerPubkeys.length :=
      List.length_map _
    have hpubkeys : ∀ v ∈ r.cosignerPubkeys.map Value.str, isHexLength p (some v) 33 := by
      intro v hv
      obtain ⟨pubkey, hpubkey, rfl⟩ := List.mem_map.mp hv
      exact hvalid.pubkeys pubkey hpubkey
    simp only [assertSessionRef, refuseEnvelope, bind_eq_ok, refuseIf_eq_ok, refuseShowing_eq_ok,
      not_not, exists_const, hread.isObject, hread.scheme, hread.threshold, hread.cosignerPubkeys,
      hread.msgHash, hread.psbtHex, text?, number?, elements?, Option.any_some,
      List.contains_iff_mem, decide_eq_true_eq, List.all_eq_true, hlength]
    exact ⟨trivial, hvalid.scheme, ⟨hvalid.integer, hvalid.positive⟩, hvalid.two_le, hpubkeys,
      hvalid.threshold, hvalid.msgHash, hvalid.psbtHex⟩

private theorem lowerString_str (s : Units) :
    lowerString p (some (.str s)) = .ok (p.toLowerCase s) := by
  by_cases h : s = []
  · subst h
    rfl
  · simp [lowerString, truthy, h, stringOf_str, bind, Except.bind]

private theorem mapM_lower_str (texts : List Units) :
    (texts.map Value.str).mapM (fun pubkey => p.toLowerCase <$> stringOf (some pubkey)) =
      .ok (texts.map p.toLowerCase) := by
  induction texts with
  | nil => rfl
  | cons s texts ih =>
    rw [List.map_cons, List.mapM_cons, ih]
    rfl

/-- The canonical form of a reference that is accepted. -/
theorem canonicalizeSessionRef_of_readFrom {r : SessionRead} (h : r.ReadFrom ref) :
    canonicalizeSessionRef p ref = .ok (r.lowered p).fields := by
  have hpubkeys : lowerPubkeys p (some (.arr (r.cosignerPubkeys.map .str))) =
      .ok (r.cosignerPubkeys.map p.toLowerCase) := mapM_lower_str r.cosignerPubkeys
  rw [canonicalizeSessionRef, h.cosignerPubkeys, h.msgHash, h.psbtHex, h.scheme, h.threshold,
    lowerString_str, lowerString_str, hpubkeys]
  rfl

/-- The fingerprint of a reference that is accepted. -/
theorem fingerprintSessionRef_of_readFrom {r : SessionRead} (h : r.ReadFrom ref) :
    fingerprintSessionRef p ref = .ok (fingerprintOf p (r.lowered p).fields) := by
  rw [fingerprintSessionRef, canonicalizeSessionRef_of_readFrom h]
  simp [refuseEnvelope, refuseIf, h.isObject, bind, Except.bind]

/-- **What a request or a finalized envelope keeps of its reference.** -/
theorem checkedSessionRef_eq_ok {fingerprint : Units} {fields : SessionFields} :
    checkedSessionRef p ref fingerprint = .ok fields ↔
      ∃ r : SessionRead, r.Valid p ∧ r.ReadFrom ref ∧ fields = (r.lowered p).fields ∧
        fingerprint = fingerprintOf p fields := by
  have hkept : ∀ r : SessionRead, r.ReadFrom ref → assertSessionRef p ref = .ok () →
      (checkedSessionRef p ref fingerprint = .ok fields ↔
        fields = (r.lowered p).fields ∧ fingerprint = fingerprintOf p fields) := by
    intro r hread hassert
    have hexpected := fingerprintSessionRef_of_readFrom (p := p) (r.lowered p).readFrom_fields
    rw [SessionRead.lowered_lowered] at hexpected
    simp only [checkedSessionRef, hassert, canonicalizeSessionRef_of_readFrom hread, bind_eq_ok,
      hexpected, Except.ok.injEq, exists_eq_left', refuseEnvelope, refuseIf_eq_ok, not_not,
      exists_const]
    constructor
    · rintro ⟨-, hfingerprint, rfl⟩
      exact ⟨rfl, hfingerprint.symm⟩
    · rintro ⟨rfl, hfingerprint⟩
      exact ⟨trivial, hfingerprint.symm, rfl⟩
  constructor
  · intro h
    have hassert : assertSessionRef p ref = .ok () := by
      rw [checkedSessionRef, bind_eq_ok] at h
      exact h.choose_spec.1
    obtain ⟨r, hvalid, hread⟩ := assertSessionRef_eq_ok.mp hassert
    exact ⟨r, hvalid, hread, (hkept r hread hassert).mp h⟩
  · rintro ⟨r, hvalid, hread, h⟩
    exact (hkept r hread (assertSessionRef_eq_ok.mpr ⟨r, hvalid, hread⟩)).mpr h

/-- A reference that was kept is kept as it is. -/
theorem checkedSessionRef_again {fingerprint : Units} {fields : SessionFields}
    (h : checkedSessionRef p ref fingerprint = .ok fields) :
    checkedSessionRef p (some fields.toValue) fingerprint = .ok fields := by
  obtain ⟨r, hvalid, -, rfl, hfingerprint⟩ := checkedSessionRef_eq_ok.mp h
  refine checkedSessionRef_eq_ok.mpr ⟨r.lowered p, hvalid.lowered, (r.lowered p).readFrom_fields,
    ?_, hfingerprint⟩
  rw [SessionRead.lowered_lowered]

/-! ### The text of a canonical reference -/

/-- A reference that is accepted holds no number but a finite one, and no name twice. -/
theorem SessionRead.Valid.distinct {r : SessionRead} (h : r.Valid p) :
    r.fields.toValue.Distinct ∧ r.fields.toValue.AllFinite := by
  have hthreshold : (Value.num r.threshold).AllFinite := by
    have hinteger := h.integer
    cases hn : r.threshold with
    | finite u hu => trivial
    | infinite negative | nan =>
      rw [hn] at hinteger
      cases hinteger
  have hdistinct : DistinctElements (r.cosignerPubkeys.map .str) := by
    rw [distinctElements_iff]
    intro v hv
    obtain ⟨s, -, rfl⟩ := List.mem_map.mp hv
    trivial
  have hfinite : AllFiniteElements (r.cosignerPubkeys.map .str) := by
    rw [allFiniteElements_iff]
    intro v hv
    obtain ⟨s, -, rfl⟩ := List.mem_map.mp hv
    trivial
  constructor
  · refine ⟨?_, trivial, trivial, hdistinct, trivial, trivial, trivial⟩
    simp [fields]
  · exact ⟨trivial, hthreshold, hfinite, trivial, trivial, trivial⟩

/-- The reference is known by its value. -/
theorem SessionRead.fields_eq_of_toValue {r s : SessionRead}
    (h : r.fields.toValue = s.fields.toValue) : r.fields = s.fields := by
  have hr := r.readFrom_fields
  have hs := s.readFrom_fields
  rw [h] at hr
  have hscheme : r.scheme = s.scheme :=
    Value.str.inj (Option.some.inj (hr.scheme.symm.trans hs.scheme))
  have hthreshold : r.threshold = s.threshold :=
    Value.num.inj (Option.some.inj (hr.threshold.symm.trans hs.threshold))
  have hpubkeys : r.cosignerPubkeys = s.cosignerPubkeys := by
    have hmap := Value.arr.inj (Option.some.inj (hr.cosignerPubkeys.symm.trans hs.cosignerPubkeys))
    exact List.map_injective_iff.mpr (fun _ _ => Value.str.inj) hmap
  have hmsgHash : r.msgHash = s.msgHash :=
    Value.str.inj (Option.some.inj (hr.msgHash.symm.trans hs.msgHash))
  have hpsbtHex : r.psbtHex = s.psbtHex :=
    Value.str.inj (Option.some.inj (hr.psbtHex.symm.trans hs.psbtHex))
  rw [fields, fields, hscheme, hthreshold, hpubkeys, hmsgHash, hpsbtHex]

end XchainWallet
