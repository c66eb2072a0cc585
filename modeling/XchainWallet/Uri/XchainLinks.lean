import XchainWallet.Uri.XchainUri

/-!
# Links with names the wallet does not know

A parameter whose name begins with `req-` must be understood or the link refused, and the wallet
understands none. The names are looked for in each of the shapes by another loop, so there is one
lemma for each loop (`refused_parseQuery`, `required_of_parseBip21Uri`), one for each shape, and the
result for all texts is about the link that a text stands for: itself, or what an envelope carries
(`linkText?`). What an envelope carries is no envelope, so two nested calls parse every text
(`parseXchainUriWithin_eq`).
-/

namespace XchainWallet

/-! ### What a text stands for -/

/-- The text without the white space around it, where it is not empty or too long. -/
def boundedText? (uri : List Char) : Option (List Char) :=
  let raw := jsTrim uri
  if raw = [] ∨ uriMaxLength < jsLength raw then none else some raw

theorem eq_of_boundedText? {uri raw : List Char} (h : boundedText? uri = some raw) :
    raw = jsTrim uri := by
  unfold boundedText? at h
  dsimp only at h
  split_ifs at h
  exact (Option.some.inj h).symm

/-- The text is an `https:` link. -/
def IsWebLink (raw : List Char) : Prop := "https://".toList.isPrefixOf (jsLowerText raw)

instance (raw : List Char) : Decidable (IsWebLink raw) := inferInstanceAs (Decidable (_ = true))

theorem jsTrim_cons {c : Char} (h : isJsSpace c = false) (text : List Char) :
    ∃ rest, jsTrim (c :: text) = c :: rest := by
  have hdrop : (c :: text).dropWhile isJsSpace = c :: text := by
    rw [List.dropWhile_cons_of_neg (by simp [h])]
  have hlast : [c].dropWhile isJsSpace = [c] := List.dropWhile_cons_of_neg (by simp [h])
  rw [jsTrim, hdrop, List.reverse_cons, List.dropWhile_append]
  split_ifs with hempty
  · rw [hlast]
    exact ⟨[], rfl⟩
  · rw [List.reverse_append]
    exact ⟨_, rfl⟩

theorem not_letter_of_isJsSpace {c : Char} (h : isJsSpace c) :
    ¬(65 ≤ c.toNat ∧ c.toNat ≤ 90) ∧ ¬(97 ≤ c.toNat ∧ c.toNat ≤ 122) := by
  simp only [isJsSpace, List.mem_cons, List.not_mem_nil, or_false, decide_eq_true_eq] at h
  omega

/-- What has a letter of ASCII for its lower case is no white space. -/
theorem not_isJsSpace_of_jsLower {c d : Char} {ds : List Char} (h : jsLower c = d :: ds)
    (hd : 97 ≤ d.toNat ∧ d.toNat ≤ 122) : isJsSpace c = false := by
  by_contra hspace
  rw [Bool.not_eq_false] at hspace
  obtain ⟨hupper, hlower⟩ := not_letter_of_isJsSpace hspace
  unfold jsLower at h
  split at h
  · exact absurd hspace (by decide)
  · exact absurd hspace (by decide)
  · have hsame : c.toLower = c := dif_neg hupper
    rw [hsame] at h
    obtain ⟨rfl, _⟩ := List.cons.inj h
    exact hlower hd

/-- The trimmed text of what a link carries begins with the same character. -/
theorem not_isWebLink_of_carried {carried : List Char}
    (h : bip21Prefix.isPrefixOf (jsLowerText carried)) : ¬IsWebLink (jsTrim carried) := by
  cases carried with
  | nil => exact absurd h (by decide)
  | cons c text =>
    obtain ⟨d, ds, hlower⟩ := List.exists_cons_of_ne_nil (jsLower_ne_nil c)
    rw [jsLowerText, List.flatMap_cons, hlower] at h
    obtain rfl : 'x' = d := by
      have hfirst : bip21Prefix = 'x' :: "chain:".toList := by decide
      rw [hfirst, List.cons_append, List.isPrefixOf_cons_cons, Bool.and_eq_true, beq_iff_eq] at h
      exact h.1
    obtain ⟨rest, htrim⟩ := jsTrim_cons (not_isJsSpace_of_jsLower hlower (by decide)) text
    have hsecond : "https://".toList = 'h' :: "ttps://".toList := by decide
    rw [IsWebLink, htrim, jsLowerText, List.flatMap_cons, hlower, hsecond, List.cons_append,
      List.isPrefixOf_cons_cons, Bool.and_eq_true, beq_iff_eq]
    rintro ⟨hne, _⟩
    exact absurd hne (by decide)

/-! ### Names the wallet does not know -/

/-- The query is one that every shape refuses. -/
def UriQuery.Refused (query : UriQuery) : Prop := query.errors ≠ [] ∨ query.required ≠ []

theorem refused_addQueryParam {query : UriQuery} (key value : List Char) (h : query.Refused) :
    (addQueryParam query key value).Refused := by
  unfold addQueryParam
  split
  · exact .inr (by simp)
  · split
    · exact .inl (by simp)
    · split
      · exact h
      · split
        · exact h
        · exact h
        · exact .inl (by simp)

theorem refused_queryPair {query : UriQuery} (pair : List Char) (h : query.Refused) :
    (queryPair query pair).Refused := by
  unfold queryPair
  split
  · exact h
  · split
    · exact .inl (by simp)
    · split
      · exact .inl (by simp)
      · exact refused_addQueryParam _ _ h

/-- A pair whose name begins with the marker is listed, or it is an error. -/
theorem refused_of_isRequiredKey (query : UriQuery) {pair : List Char} (hpair : pair ≠ [])
    (h : IsRequiredKey (pairKey pair)) : (queryPair query pair).Refused := by
  have hkey : reqMarker.isPrefixOf (canonicalKey (pairKey pair)) := by
    have hlower : reqMarker.isPrefixOf (jsLowerText (pairKey pair)) := h
    rw [canonicalKey, hlower, Bool.true_or, if_pos rfl]
    exact hlower
  unfold queryPair
  rw [if_neg hpair]
  split
  · exact .inl (by simp)
  · split
    · exact .inl (by simp)
    · rw [addQueryParam, if_pos hkey]
      exact .inr (by simp)

theorem refused_foldl {pairs : List (List Char)} {query : UriQuery} (h : query.Refused) :
    (pairs.foldl queryPair query).Refused := by
  induction pairs generalizing query with
  | nil => exact h
  | cons pair pairs ih => exact ih (refused_queryPair pair h)

theorem refused_foldl_of_mem {pairs : List (List Char)} (query : UriQuery) {pair : List Char}
    (hmem : pair ∈ pairs) (hpair : pair ≠ []) (h : IsRequiredKey (pairKey pair)) :
    (pairs.foldl queryPair query).Refused := by
  induction pairs generalizing query with
  | nil => cases hmem
  | cons first pairs ih =>
    rw [List.foldl_cons]
    rcases List.mem_cons.mp hmem with rfl | hmem
    · exact refused_foldl (refused_of_isRequiredKey query hpair h)
    · exact ih _ hmem

/-- **A query with a marked name is one that every shape refuses.** -/
theorem refused_parseQuery {queryPart key : List Char} (hkey : key ∈ queryKeys queryPart)
    (h : IsRequiredKey key) : (parseQuery queryPart).Refused := by
  obtain ⟨pair, hmem, rfl⟩ := List.mem_map.mp hkey
  obtain ⟨hmem, hpair⟩ := List.mem_filter.mp hmem
  rw [decide_eq_true_eq] at hpair
  rw [parseQuery, if_neg]
  · exact refused_foldl_of_mem _ hmem hpair h
  · rintro rfl
    -- The empty text has one pair, and that is empty.
    simp only [List.splitOn_nil, List.mem_singleton] at hmem
    exact hpair hmem

namespace UriPlatform

variable (platform : UriPlatform) (chainRegistry : Option ChainRegistry)

/-- The `xchain:` URI that a text stands for: itself, or what it carries as an envelope. -/
def linkText? (uri : List Char) : Option (List Char) :=
  (boundedText? uri).bind fun raw =>
    if IsWebLink raw then (platform.unwrapWebLink raw).bind boundedText? else some raw

variable {platform}

theorem isPrefixOf_of_unwrapWebLink {raw carried : List Char}
    (h : platform.unwrapWebLink raw = some carried) :
    bip21Prefix.isPrefixOf (jsLowerText carried) := by
  simp only [unwrapWebLink, Option.bind_eq_bind, Option.bind_eq_some_iff] at h
  obtain ⟨parsed, _, h⟩ := h
  split_ifs at h
  obtain ⟨param, _, h⟩ := Option.bind_eq_some_iff.mp h
  split_ifs at h with hscheme
  obtain ⟨⟩ := h
  exact hscheme

variable (platform)

/-- One call: a text that is refused at once, an envelope, or a link. -/
theorem parseXchainUriWithin_succ (calls : ℕ) (uri : List Char) :
    platform.parseXchainUriWithin chainRegistry (calls + 1) uri =
      match boundedText? uri with
      | none => some .unknown
      | some raw =>
        if IsWebLink raw then
          match platform.unwrapWebLink raw with
          | some carried => platform.parseXchainUriWithin chainRegistry calls carried
          | none => some .unknown
        else some (platform.parseSchemeUri chainRegistry raw) := by
  rw [parseXchainUriWithin, boundedText?]
  by_cases hempty : jsTrim uri = []
  · simp [hempty]
  · by_cases hlong : uriMaxLength < jsLength (jsTrim uri)
    · simp [hlong]
    · simp only [hempty, hlong, or_self, if_false]
      rfl

/-- A text that is no envelope takes one call. -/
theorem parseXchainUriWithin_of_not_isWebLink (calls : ℕ) {uri : List Char}
    (h : ¬IsWebLink (jsTrim uri)) :
    platform.parseXchainUriWithin chainRegistry (calls + 1) uri =
      some (((boundedText? uri).map (platform.parseSchemeUri chainRegistry)).getD .unknown) := by
  rw [parseXchainUriWithin_succ]
  cases hbounded : boundedText? uri with
  | none => rfl
  | some raw =>
    obtain rfl := eq_of_boundedText? hbounded
    dsimp only
    rw [if_neg h]
    rfl

/-- **Two calls parse every text**, as the link that it stands for. -/
theorem parseXchainUriWithin_eq (calls : ℕ) (uri : List Char) :
    platform.parseXchainUriWithin chainRegistry (calls + 2) uri =
      some (((platform.linkText? uri).map (platform.parseSchemeUri chainRegistry)).getD
        .unknown) := by
  rw [parseXchainUriWithin_succ, linkText?]
  cases boundedText? uri with
  | none => rfl
  | some raw =>
    dsimp only
    rw [Option.bind_some]
    split_ifs with hweb
    · cases hcarried : platform.unwrapWebLink raw with
      | none => rfl
      | some carried =>
        dsimp only
        rw [Option.bind_some, parseXchainUriWithin_of_not_isWebLink platform chainRegistry calls
          (not_isWebLink_of_carried (isPrefixOf_of_unwrapWebLink hcarried))]
    · rfl

theorem parseXchainUri_eq (uri : List Char) :
    platform.parseXchainUri chainRegistry uri =
      ((platform.linkText? uri).map (platform.parseSchemeUri chainRegistry)).getD .unknown := by
  rw [parseXchainUri, parseXchainUriWithin_eq platform chainRegistry 0, Option.getD_some]

/-! ### The shapes -/

/-- The query behind a scheme is the one of the whole text. -/
theorem afterFirst_drop {letters raw : List Char} (h : letters.isPrefixOf (jsLowerText raw))
    (hdot : '\u0307' ∉ letters) (hlast : letters.getLast? ≠ some 'i') (hmark : '?' ∉ letters) :
    afterFirst '?' (raw.drop letters.length) = afterFirst '?' raw := by
  obtain ⟨part, hraw, _, hlower⟩ := exists_of_isPrefixOf_lower letters h hdot hlast
  have hpart : '?' ∉ part := by
    intro hmem
    have hquestion : '?' ∈ jsLowerText part := mem_jsLowerText hmem rfl
    rw [hlower] at hquestion
    exact hmark hquestion
  conv_rhs => rw [hraw, afterFirst_append hpart]

theorem parsePathStyle_refused {raw : List Char}
    (h : (parseQuery (afterFirst '?' (raw.drop pathPrefix.length))).Refused) :
    parsePathStyle raw = .unknown := by
  unfold parsePathStyle
  dsimp only
  split
  · rfl
  · rcases h with h | h
    · exact if_pos h
    · rw [if_pos h, ite_self]

theorem parseActionLink_refused {action : DocumentedAction} {queryPart : List Char}
    {chain : Option LinkChain} (h : (parseQuery queryPart).Refused) :
    platform.parseActionLink action queryPart chain = .unknown := by
  rw [parseActionLink]
  rcases h with h | h
  · exact if_pos h
  · dsimp only
    rw [if_pos h, ite_self]

theorem parseCoinCodeStyle_refused {raw : List Char}
    (h : (parseQuery (afterFirst '?' (raw.drop bip21Prefix.length))).Refused) :
    platform.parseCoinCodeStyle raw chainRegistry = .unknown := by
  unfold parseCoinCodeStyle
  dsimp only
  split
  · split
    · rfl
    · exact platform.parseActionLink_refused h
  · rfl

theorem parseBip21Style_refused {raw key : List Char} (hkey : key ∈ queryKeys (afterFirst '?' raw))
    (h : IsRequiredKey key) : platform.parseBip21Style raw = .unknown := by
  unfold parseBip21Style
  cases hparts : parseBip21Uri raw with
  | error e => rfl
  | ok parts =>
    dsimp only
    rw [if_pos (required_of_parseBip21Uri hparts hkey h), ite_self]

/-- **A link with a marked name is refused in every shape.** -/
theorem parseSchemeUri_refused {raw key : List Char} (hkey : key ∈ queryKeys (afterFirst '?' raw))
    (h : IsRequiredKey key) : platform.parseSchemeUri chainRegistry raw = .unknown := by
  unfold parseSchemeUri
  dsimp only
  split
  · next hpath =>
    apply parsePathStyle_refused
    rw [afterFirst_drop hpath (by decide) (by decide) (by decide)]
    exact refused_parseQuery hkey h
  · split
    · next hscheme =>
      have hrefused : (parseQuery (afterFirst '?' (raw.drop bip21Prefix.length))).Refused := by
        rw [afterFirst_drop hscheme (by decide) (by decide) (by decide)]
        exact refused_parseQuery hkey h
      split
      · exact platform.parseCoinCodeStyle_refused chainRegistry hrefused
      · split
        · exact platform.parseActionLink_refused hrefused
        · exact platform.parseBip21Style_refused hkey h
    · rfl

/-! ### All texts -/

/-- **No link with a name that must be understood is honoured.** For every text, and the link that
it stands for, itself or what it carries as a web link: where a name in the query of that link
begins with `req-`, in either case and after percent-decoding, the intent is unknown. And whatever
the text, one call for it and one for what it carries are enough. -/
theorem required_names_refused (uri : List Char) :
    (∀ link, platform.linkText? uri = some link → ∀ key ∈ queryKeys (afterFirst '?' link),
        IsRequiredKey key → platform.parseXchainUri chainRegistry uri = .unknown) ∧
      ∀ calls, 2 ≤ calls → platform.parseXchainUriWithin chainRegistry calls uri =
        some (platform.parseXchainUri chainRegistry uri) := by
  constructor
  · intro link hlink key hkey hreq
    rw [parseXchainUri_eq, hlink, Option.map_some, Option.getD_some]
    exact platform.parseSchemeUri_refused chainRegistry hkey hreq
  · intro calls hcalls
    obtain ⟨more, rfl⟩ := Nat.exists_eq_add_of_le' hcalls
    rw [parseXchainUri_eq, parseXchainUriWithin_eq]

/-- Decoders that read nothing as an address. -/
def noAddresses : AddressCodecs where
  base58check _ := none
  bech32 := { decode := fun _ _ => none, fromWords := fun _ => none }
  bech32m := { decode := fun _ _ => none, fromWords := fun _ => none }

/-- A platform with one web link, and the parameters that its query has. -/
def ofWebLink (link : List Char) (searchParams : List (List Char × List Char)) : UriPlatform where
  parseUrl raw := if raw = link then some ⟨webLinkOrigin, webLinkPrefix, searchParams⟩ else none
  codecs := noAddresses

/-- The name `Req-x`, percent-encoded in a link that is carried by another. -/
theorem required_names_refused_carried :
    (ofWebLink "https://xchain.io/wallet/link/?uri=xchain%3ABTC%2Freceive%3FR%2565q-x%3D1".toList
      [("uri".toList, "xchain:BTC/receive?R%65q-x=1".toList)]).parseXchainUri none
      "https://xchain.io/wallet/link/?uri=xchain%3ABTC%2Freceive%3FR%2565q-x%3D1".toList =
        .unknown :=
  (required_names_refused _ none _).1 "xchain:BTC/receive?R%65q-x=1".toList (by decide)
    "Req-x".toList (by decide) (by decide)

/-- **The envelope's own names are not looked at.** A web link with a marked name beside what it
carries is honoured. -/
theorem envelope_name_ignored :
    ¬∀ (platform : UriPlatform) (chainRegistry : Option ChainRegistry) (uri : List Char),
      ∀ key ∈ queryKeys (afterFirst '?' (jsTrim uri)), IsRequiredKey key →
        platform.parseXchainUri chainRegistry uri = .unknown := by
  intro hall
  have hunknown := hall
    (ofWebLink "https://xchain.io/wallet/link/?req-x=1&uri=xchain%3ABTC%2Freceive".toList
      [("req-x".toList, "1".toList), ("uri".toList, "xchain:BTC/receive".toList)]) none
    "https://xchain.io/wallet/link/?req-x=1&uri=xchain%3ABTC%2Freceive".toList "req-x".toList
    (by decide) (by decide)
  exact absurd hunknown (by decide)

end UriPlatform

end XchainWallet
