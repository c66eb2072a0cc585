import XchainWallet.Uri.XchainLinks

/-!
# Destinations of links

What a link fills into the form for a payment should be an address of the chain that it names, or of
some supported chain where it names none. The parser checks so in the form with a coin code, for a
bare action and for an address in its place, but not in the older path style: there the parameter
`to` is taken over as it stands. `destinationChecked_iff` says of which texts the property holds.
-/

namespace XchainWallet

/-! ### The chain that a link names -/

theorem splitOn_eq_cons (c : Char) (text : List Char) :
    ∃ rest, text.splitOn c = beforeFirst c text :: rest := by
  induction text with
  | nil => exact ⟨[], rfl⟩
  | cons d text ih =>
    obtain ⟨rest, ih⟩ := ih
    rw [List.splitOn_eq_splitOnP, List.splitOnP_cons_eq_if_modifyHead]
    by_cases hd : d = c
    · subst hd
      exact ⟨_, by simp [beforeFirst]; rfl⟩
    · rw [← List.splitOn_eq_splitOnP, ih]
      exact ⟨rest, by simp [beforeFirst, hd]⟩

/-- The segment before the first slash is the first one, where it is not empty. -/
theorem pathSegments_eq_cons {path : List Char} (h : beforeFirst '/' path ≠ []) :
    ∃ rest, pathSegments path = beforeFirst '/' path :: rest := by
  obtain ⟨rest, hsplit⟩ := splitOn_eq_cons '/' path
  rw [pathSegments, hsplit, List.filter_cons_of_pos (by simpa using h)]
  exact ⟨_, rfl⟩

/-- The supported chain that a link names: with its first segment in the path style, with a coin
code, or with `chain=` behind an address. A bare action names none. -/
def namedChainOf (link : List Char) : Option CoinNetwork :=
  if pathPrefix.isPrefixOf (jsLowerText link) then
    (pathSegments (beforeFirst '?' (link.drop pathPrefix.length))).head?.bind namedChain?
  else
    let path := beforeFirst '?' (link.drop bip21Prefix.length)
    let code := beforeFirst '/' path
    if '/' ∈ path ∧ isKnownCoinCode code then coinNetworkForCoinCode code
    else
      match bareAction? path with
      | some _ => none
      | none =>
        match parseBip21Uri link with
        | .ok parts => (uriParam? parts.params "chain".toList).bind namedChain?
        | .error _ => none

namespace UriPlatform

variable (platform : UriPlatform) (chainRegistry : Option ChainRegistry)

/-! ### The shapes that check -/

variable {platform} in
theorem destinationOk_of_parseActionLink {action : DocumentedAction}
    {queryPart address : List Char} {chain : Option LinkChain}
    (h : (platform.parseActionLink action queryPart chain).address = some address) :
    platform.destinationOk (chain.bind LinkChain.network) address := by
  unfold parseActionLink at h
  dsimp only at h
  split at h
  · cases h
  · split at h
    · cases h
    · split at h
      · cases h
      · next hchecked =>
        have hgiven : givenParam? (parseQuery queryPart).params "to".toList = some address := by
          cases action with
          | execute =>
            dsimp only at h
            split at h <;> cases h
          | send | receive => exact h
        obtain ⟨hparam, _⟩ := Option.filter_eq_some_iff.mp hgiven
        rw [hparam, Option.any_some, Bool.not_eq_true', Bool.not_eq_false] at hchecked
        exact hchecked

variable {raw address : List Char}

variable {platform} in
theorem destinationOk_of_parseBip21Style (h : (platform.parseBip21Style raw).address = some address) :
    ∃ parts, parseBip21Uri raw = .ok parts ∧
      platform.destinationOk ((uriParam? parts.params "chain".toList).bind namedChain?) address := by
  unfold parseBip21Style at h
  cases hparts : parseBip21Uri raw with
  | error e =>
    rw [hparts] at h
    cases h
  | ok parts =>
    rw [hparts] at h
    dsimp only at h
    refine ⟨parts, rfl, ?_⟩
    split at h
    · cases h
    · next hok =>
      rw [not_not] at hok
      split at h
      · cases h
      · obtain ⟨⟩ := h
        exact hok

variable {platform chainRegistry} in
/-- The coin code of the link is its first segment. -/
theorem destinationOk_of_parseCoinCodeStyle
    (hcode : isKnownCoinCode (beforeFirst '/' (beforeFirst '?' (raw.drop bip21Prefix.length))))
    (h : (platform.parseCoinCodeStyle raw chainRegistry).address = some address) :
    platform.destinationOk (coinNetworkForCoinCode
      (beforeFirst '/' (beforeFirst '?' (raw.drop bip21Prefix.length)))) address := by
  have hne : beforeFirst '/' (beforeFirst '?' (raw.drop bip21Prefix.length)) ≠ [] := by
    intro hempty
    rw [hempty] at hcode
    exact absurd hcode (by decide)
  obtain ⟨rest, hsegments⟩ := pathSegments_eq_cons hne
  unfold parseCoinCodeStyle at h
  dsimp only at h
  rw [hsegments] at h
  split at h
  · next code segment hpair =>
    obtain ⟨rfl, _⟩ := List.cons.inj hpair
    split at h
    · cases h
    · exact destinationOk_of_parseActionLink h
  · cases h

variable {platform chainRegistry} in
/-- **A link in another shape carries a checked address.** -/
theorem destinationOk_of_parseSchemeUri (hpath : ¬pathPrefix.isPrefixOf (jsLowerText raw))
    (h : (platform.parseSchemeUri chainRegistry raw).address = some address) :
    platform.destinationOk (namedChainOf raw) address := by
  unfold parseSchemeUri at h
  unfold namedChainOf
  rw [if_neg hpath] at h ⊢
  dsimp only at h ⊢
  split at h
  · split at h
    · next hcode =>
      rw [if_pos hcode]
      exact destinationOk_of_parseCoinCodeStyle hcode.2 h
    · next hcode =>
      rw [if_neg hcode]
      cases haction : bareAction? (beforeFirst '?' (raw.drop bip21Prefix.length)) with
      | some action =>
        rw [haction] at h
        exact destinationOk_of_parseActionLink h
      | none =>
        rw [haction] at h
        obtain ⟨parts, hparts, hok⟩ := destinationOk_of_parseBip21Style h
        rw [hparts]
        exact hok
  · cases h

/-! ### The path style -/

/-- The destination of a link in the path style that is not refused. -/
def pathDestination? (raw : List Char) : Option (List Char) :=
  let after := raw.drop pathPrefix.length
  let query := parseQuery (afterFirst '?' after)
  if pathSegments (beforeFirst '?' after) = [] ∨ query.errors ≠ [] ∨ query.required ≠ [] then none
  else givenParam? query.params "to".toList

/-- A link in the path style carries its destination, and is not unknown where it carries one. -/
theorem parsePathStyle_destination (raw : List Char) :
    (parsePathStyle raw).address = pathDestination? raw ∧
      ((parsePathStyle raw).address ≠ none → (parsePathStyle raw).kind ≠ .unknown) := by
  unfold parsePathStyle pathDestination?
  dsimp only
  generalize parseQuery (afterFirst '?' (raw.drop pathPrefix.length)) = query
  cases pathSegments (beforeFirst '?' (raw.drop pathPrefix.length)) with
  | nil => exact ⟨rfl, fun hne => absurd rfl hne⟩
  | cons chain rest =>
    dsimp only
    by_cases herrors : query.errors = []
    · rw [if_neg (not_not.mpr herrors)]
      by_cases hrequired : query.required = []
      · have hread : ¬(chain :: rest = [] ∨ query.errors ≠ [] ∨ query.required ≠ []) := by
          simp [herrors, hrequired]
        rw [if_neg (not_not.mpr hrequired), if_neg hread]
        refine ⟨rfl, fun _ => ?_⟩
        dsimp only
        split <;> decide
      · rw [if_pos hrequired, if_pos (.inr (.inr hrequired))]
        exact ⟨rfl, fun hne => absurd rfl hne⟩
    · rw [if_pos herrors, if_pos (.inr (.inl herrors))]
      exact ⟨rfl, fun hne => absurd rfl hne⟩

/-! ### All texts -/

/-- The property: where the intent is not unknown and carries an address, this is valid on the chain
that the link names, or on some supported chain where it names none. -/
def DestinationChecked (uri : List Char) : Prop :=
  (platform.parseXchainUri chainRegistry uri).kind ≠ .unknown →
    ∀ address, (platform.parseXchainUri chainRegistry uri).address = some address →
      platform.destinationOk ((platform.linkText? uri).bind namedChainOf) address

/-- The text stands for a link in the path style whose destination is not valid. -/
def HasUncheckedDestination (uri : List Char) : Prop :=
  ∃ link, platform.linkText? uri = some link ∧ pathPrefix.isPrefixOf (jsLowerText link) ∧
    ∃ address, pathDestination? link = some address ∧
      ¬platform.destinationOk (namedChainOf link) address

/-- **Which texts give checked destinations.** All but those that stand for a link in the path style
that is not refused and whose `to` is not valid for its chain. -/
theorem destinationChecked_iff (uri : List Char) :
    platform.DestinationChecked chainRegistry uri ↔ ¬platform.HasUncheckedDestination uri := by
  rw [DestinationChecked, parseXchainUri_eq]
  cases hlink : platform.linkText? uri with
  | none =>
    refine iff_of_true (fun hkind => absurd rfl hkind) ?_
    rintro ⟨link, hsome, _⟩
    rw [hlink] at hsome
    cases hsome
  | some link =>
    rw [Option.map_some, Option.getD_some, Option.bind_some]
    by_cases hpath : pathPrefix.isPrefixOf (jsLowerText link)
    · have hparse : platform.parseSchemeUri chainRegistry link = parsePathStyle link := if_pos hpath
      rw [hparse]
      obtain ⟨hdestination, hkind⟩ := parsePathStyle_destination link
      constructor
      · rintro hchecked ⟨other, hother, _, address, haddress, hinvalid⟩
        obtain rfl := Option.some.inj (hlink.symm.trans hother)
        rw [← hdestination] at haddress
        exact hinvalid (hchecked (hkind (by simp [haddress])) address haddress)
      · intro hnone _ address haddress
        by_contra hinvalid
        rw [hdestination] at haddress
        exact hnone ⟨link, hlink, hpath, address, haddress, hinvalid⟩
    · constructor
      · rintro _ ⟨other, hother, hother', _⟩
        obtain rfl := Option.some.inj (hlink.symm.trans hother)
        exact hpath hother'
      · intro _ _ address haddress
        exact destinationOk_of_parseSchemeUri hpath haddress

/-- **A link in the path style is taken over unchecked**: what stands for an address need not be
one. -/
theorem path_destination_unchecked :
    ¬(ofWebLink [] []).DestinationChecked none
      "xchain://bitcoin-mainnet/BTC?to=not-an-address".toList := by
  intro hchecked
  have hok := hchecked (by decide) "not-an-address".toList (by decide)
  exact absurd hok (by decide)

end UriPlatform

end XchainWallet
