import XchainWallet.Uri.Bip21RoundTrip
import XchainWallet.Uri.XchainLinks

/-!
# xchain: URIs that the wallet writes

`buildXchainUri` writes an intent in the form with a coin code. The code stands for the coin and the
network of the intent's chain, and the reader takes it for the first registered chain that has them.
So an intent whose texts fit their limits is read back, with every field that it carries, and its
chain is read back exactly where it is that first one (`buildXchainUri_round_trip`).
-/

namespace XchainWallet

open Checks
open List (length_append length_cons map_cons mem_append mem_cons sum_cons)

/-! ### Chains and their codes -/

/-- What the registry holds of a chain. -/
structure ChainEntry where
  id : List Char
  coin : List Char
  networkKind : NetworkKind
  id_ne_nil : id ≠ []

/-- `descriptorFor(chainId)`. -/
def descriptorFor (chains : List ChainEntry) (chainId : List Char) : Option ChainEntry :=
  Keyed.find ChainEntry.id chainId chains

/-- `chainIdFor(coin, networkKind)`: the first chain that has them. -/
def chainIdFor (chains : List ChainEntry) : ChainRegistry := fun chain =>
  (chains.find? fun entry => entry.coin = chain.coin.name ∧ entry.networkKind = chain.networkKind).map
    ChainEntry.id

/-- `TICKER_BY_COIN`. -/
def tickerByCoin : Coin → List Char
  | .bitcoin => "BTC".toList
  | .litecoin => "LTC".toList
  | .dogecoin => "DOGE".toList

/-- `NETWORK_PREFIX`. -/
def networkPrefix : NetworkKind → List Char
  | .mainnet => []
  | .testnet => ['T']
  | .regtest => ['R']

/-- The coin of the table that has a name. -/
def coinNamed? (name : List Char) : Option Coin :=
  [Coin.bitcoin, .litecoin, .dogecoin].find? fun coin => coin.name = name

/-- The coin and network of a registered chain whose coin has a ticker. -/
def chainOf? (chains : List ChainEntry) (chainId : List Char) : Option CoinNetwork :=
  (descriptorFor chains chainId).bind fun entry =>
    (coinNamed? entry.coin).map (⟨·, entry.networkKind⟩)

/-- The code of a coin and network. -/
def coinCode (chain : CoinNetwork) : List Char :=
  networkPrefix chain.networkKind ++ tickerByCoin chain.coin

/-- `coinCodeForChainId(chainId, chainRegistry)`. -/
def coinCodeForChainId (chains : List ChainEntry) (chainId : List Char) : Option (List Char) :=
  (chainOf? chains chainId).map coinCode

/-! ### The writer -/

/-- The text of an action. -/
def DocumentedAction.text : DocumentedAction → List Char
  | send => "send".toList
  | receive => "receive".toList
  | execute => "execute".toList

/-- The text of a fee priority. -/
def FeePriority.text : FeePriority → List Char
  | low => "low".toList
  | normal => "normal".toList
  | fast => "fast".toList

/-- `intent.action || (intent.kind === 'receive' ? 'receive' : 'send')`. -/
def XchainUriIntent.linkAction (intent : XchainUriIntent) : DocumentedAction :=
  intent.action.getD (if intent.kind = .receive then .receive else .send)

/-- A text that is not empty. -/
def given (text : Option (List Char)) : Option (List Char) := text.filter (· ≠ [])

/-- The fields that a link carries, by the names of their parameters. -/
def XchainUriIntent.linkFields (intent : XchainUriIntent) : List (List Char × Option (List Char)) :=
  [("to".toList, given intent.address), ("amount".toList, given intent.amount),
    ("tick".toList, given intent.tick), ("memo".toList, given intent.memo),
    ("feePriority".toList, intent.feePriority.map FeePriority.text),
    ("label".toList, given intent.label), ("message".toList, given intent.message)]

/-- The parameters of a link. -/
def XchainUriIntent.linkEntries (intent : XchainUriIntent) : UriParams :=
  givenEntries intent.linkFields

/-- A parameter of a link as it is written. -/
def linkEntry (entry : List Char × List Char) : List Char :=
  entry.1 ++ '=' :: encodeURIComponent entry.2

/-- `buildXchainUri(intent, deps)`. -/
def buildXchainUri (intent : XchainUriIntent) (chains : List ChainEntry) :
    Except String (List Char) := do
  let chainId ← orRefuse (given intent.chainId) "buildXchainUri: intent.chainId is required"
  let code ← orRefuse (coinCodeForChainId chains chainId)
    ("buildXchainUri: no coin code for chainId \"" ++ String.ofList chainId ++ "\"")
  let entries := intent.linkEntries
  pure (bip21Prefix ++ (code ++ '/' :: intent.linkAction.text ++
    if entries = [] then [] else '?' :: ['&'].intercalate (entries.map linkEntry)))

/-! ### The query of a link -/

/-- The names of the parameters of a link. -/
def linkKeys : List (List Char) :=
  ["to".toList, "amount".toList, "tick".toList, "memo".toList, "feePriority".toList,
    "label".toList, "message".toList]

theorem map_fst_linkFields (intent : XchainUriIntent) : intent.linkFields.map Prod.fst = linkKeys :=
  rfl

theorem linkFields_distinct (intent : XchainUriIntent) :
    Keyed.Distinct Prod.fst intent.linkFields := by
  rw [Keyed.Distinct, map_fst_linkFields]
  decide

/-- The limits that the texts of an intent fit. -/
structure WithinLimits (intent : XchainUriIntent) : Prop where
  address : ∀ text, intent.address = some text → jsLength text ≤ 512
  amount : ∀ text, intent.amount = some text → jsLength text ≤ 128
  tick : ∀ text, intent.tick = some text → jsLength text ≤ 250
  memo : ∀ text, intent.memo = some text → jsLength text ≤ 250
  label : ∀ text, intent.label = some text → jsLength text ≤ 250
  message : ∀ text, intent.message = some text → jsLength text ≤ 250

theorem eq_some_of_given {text : Option (List Char)} {value : List Char}
    (h : given text = some value) : text = some value ∧ value ≠ [] := by
  obtain ⟨hsome, hne⟩ := Option.filter_eq_some_iff.mp h
  exact ⟨hsome, of_decide_eq_true hne⟩

variable {intent : XchainUriIntent}

/-- A parameter of a link has one of the names, fits its limit, and is a known priority where it is
one. -/
theorem linkEntries_spec (h : WithinLimits intent) {entry : List Char × List Char}
    (hentry : entry ∈ intent.linkEntries) :
    entry.1 ∈ linkKeys ∧ jsLength entry.2 ≤ parameterLimit entry.1 ∧ entry.2 ≠ [] ∧
      (entry.1 = "feePriority".toList → ∃ fee : FeePriority, entry.2 = fee.text) := by
  obtain ⟨name, value⟩ := entry
  have hfield := mem_givenEntries.mp hentry
  simp only [XchainUriIntent.linkFields, mem_cons, List.not_mem_nil, or_false,
    Prod.mk.injEq] at hfield
  dsimp only
  have htext : ∀ (name : List Char) (text : Option (List Char)), name ∈ linkKeys →
      name ≠ "feePriority".toList → (∀ t, text = some t → jsLength t ≤ parameterLimit name) →
      some value = given text → name ∈ linkKeys ∧ jsLength value ≤ parameterLimit name ∧
        value ≠ [] ∧ (name = "feePriority".toList → ∃ fee : FeePriority, value = fee.text) := by
    intro name text hkey hfee hlimit hvalue
    obtain ⟨hsome, hne⟩ := eq_some_of_given hvalue.symm
    exact ⟨hkey, hlimit value hsome, hne, fun hname => absurd hname hfee⟩
  rcases hfield with ⟨rfl, hv⟩ | ⟨rfl, hv⟩ | ⟨rfl, hv⟩ | ⟨rfl, hv⟩ | ⟨rfl, hv⟩ | ⟨rfl, hv⟩ | ⟨rfl, hv⟩
  · exact htext _ _ (by decide) (by decide) h.address hv
  · exact htext _ _ (by decide) (by decide) h.amount hv
  · exact htext _ _ (by decide) (by decide) h.tick hv
  · exact htext _ _ (by decide) (by decide) h.memo hv
  · obtain ⟨fee, -, rfl⟩ := Option.map_eq_some_iff.mp hv.symm
    have hname : "feePriority".toList ∈ linkKeys := by decide
    refine ⟨hname, ?_, ?_, fun _ => ⟨fee, rfl⟩⟩
    · cases fee <;> decide
    · cases fee <;> decide
  · exact htext _ _ (by decide) (by decide) h.label hv
  · exact htext _ _ (by decide) (by decide) h.message hv

theorem normalizeFeePriority_text (fee : FeePriority) : normalizeFeePriority fee.text = some fee := by
  cases fee <;> decide

theorem isSafeUriParameter_link {name value : List Char} (hkey : name ∈ linkKeys)
    (hlimit : jsLength value ≤ parameterLimit name)
    (hfee : name = "feePriority".toList → ∃ fee : FeePriority, value = fee.text) :
    isSafeUriParameter name value false = .ok true := by
  have hnames : ∀ name ∈ linkKeys,
      uriParameterLimits.lookup name = some (parameterLimit name) ∧ name ≠ "chain".toList ∧
        name ≠ "kind".toList ∧ name ≠ "method".toList ∧ name ≠ "params".toList := by decide
  obtain ⟨hlookup, hchain, hkind, hmethod, hparams⟩ := hnames name hkey
  have hpriority : ¬(name = "feePriority".toList ∧ normalizeFeePriority value = none) := by
    rintro ⟨hname, hnone⟩
    obtain ⟨fee, rfl⟩ := hfee hname
    rw [normalizeFeePriority_text] at hnone
    cases hnone
  simp only [isSafeUriParameter, hlookup, bind_eq_ok, refuseIf_eq_ok, pure_eq_ok, hchain, hkind,
    hmethod, hparams, hpriority, false_and, not_false_eq_true, exists_const, not_lt, and_true]
  exact hlimit

/-- **A parameter that was written is read.** -/
theorem queryPair_linkEntry {query : UriQuery} {entry : List Char × List Char}
    (hkey : entry.1 ∈ linkKeys) (hlimit : jsLength entry.2 ≤ parameterLimit entry.1)
    (hfee : entry.1 = "feePriority".toList → ∃ fee : FeePriority, entry.2 = fee.text)
    (hnew : ∀ e ∈ query.params, e.1 ≠ entry.1) :
    queryPair query (linkEntry entry) = { query with params := query.params ++ [entry] } := by
  obtain ⟨name, value⟩ := entry
  have hnames : ∀ name ∈ linkKeys, '=' ∉ name ∧ decodeURIComponent name = some name ∧
      canonicalKey name = name ∧ reqMarker.isPrefixOf name = false := by decide
  obtain ⟨hequals, hdecode, hcanonical, hmarker⟩ := hnames name hkey
  have hne : linkEntry (name, value) ≠ [] := List.append_ne_nil_of_right_ne_nil _
    (List.cons_ne_nil _ _)
  have hmem : '=' ∈ linkEntry (name, value) := by simp [linkEntry]
  have hpairKey : pairKey (linkEntry (name, value)) = name := by
    rw [pairKey, linkEntry, beforeFirst_append_cons hequals, hdecode, Option.getD_some]
  have hvalue : decodeURIComponent (afterFirst '=' (linkEntry (name, value))) = some value := by
    rw [linkEntry, afterFirst_append_cons hequals, decodeURIComponent_encodeURIComponent]
  have hset : setUriParam query.params name value = query.params ++ [(name, value)] :=
    Keyed.upsert_eq_append hnew
  have hnone : uriParam? query.params name = none := uriParam?_eq_none hnew
  rw [queryPair, if_neg hne, if_neg (not_not_intro hmem), hvalue]
  dsimp only
  rw [hpairKey, hcanonical, addQueryParam, hmarker, if_neg Bool.false_ne_true, hnone,
    Option.isSome_none, if_neg Bool.false_ne_true, hset, isSafeUriParameter_link hkey hlimit hfee]
  split_ifs <;> rfl

theorem foldl_queryPair {entries : UriParams} {query : UriQuery}
    (hspec : ∀ entry ∈ entries, entry.1 ∈ linkKeys ∧ jsLength entry.2 ≤ parameterLimit entry.1 ∧
      entry.2 ≠ [] ∧ (entry.1 = "feePriority".toList → ∃ fee : FeePriority, entry.2 = fee.text))
    (hdistinct : Keyed.Distinct Prod.fst (query.params ++ entries)) :
    (entries.map linkEntry).foldl queryPair query =
      { query with params := query.params ++ entries } := by
  induction entries generalizing query with
  | nil => rw [List.map_nil, List.foldl_nil, List.append_nil]
  | cons entry entries ih =>
    have hnew : ∀ e ∈ query.params, e.1 ≠ entry.1 := by
      intro e he hsame
      rw [Keyed.Distinct, List.map_append] at hdistinct
      exact (List.nodup_append.mp hdistinct).2.2 e.1 (List.mem_map_of_mem he) entry.1
        (List.mem_map_of_mem (.head _)) hsame
    obtain ⟨hkey, hlimit, -, hfee⟩ := hspec entry (.head _)
    rw [map_cons, List.foldl_cons, queryPair_linkEntry hkey hlimit hfee hnew,
      ih (fun e he => hspec e (.tail _ he)) (by rwa [List.append_assoc])]
    simp

/-- The parameters of a link are cut apart again. -/
theorem splitOn_linkEntries {entries : UriParams} (hne : entries ≠ [])
    (hkeys : ∀ entry ∈ entries, entry.1 ∈ linkKeys) :
    (['&'].intercalate (entries.map linkEntry)).splitOn '&' = entries.map linkEntry := by
  have hplain : ∀ name ∈ linkKeys, '&' ∉ name := by decide
  refine List.splitOn_intercalate '&' (fun pair hpair => ?_) (by simpa using hne)
  obtain ⟨entry, hentry, rfl⟩ := List.mem_map.mp hpair
  rw [linkEntry, mem_append, mem_cons]
  rintro (hmem | hmem | hmem)
  · exact hplain entry.1 (hkeys entry hentry) hmem
  · exact absurd hmem (by decide)
  · exact not_mem_encodeURIComponent (by decide) _ hmem

/-- **The query of a link is read back.** -/
theorem parseQuery_linkEntries (h : WithinLimits intent) (hne : intent.linkEntries ≠ []) :
    parseQuery (['&'].intercalate (intent.linkEntries.map linkEntry)) =
      ⟨intent.linkEntries, [], []⟩ := by
  have hdistinct : Keyed.Distinct Prod.fst (([] : UriParams) ++ intent.linkEntries) := by
    rw [List.nil_append]
    exact distinct_givenEntries (linkFields_distinct intent)
  have hsplit := splitOn_linkEntries hne fun entry hentry => (linkEntries_spec h hentry).1
  have hquery : ['&'].intercalate (intent.linkEntries.map linkEntry) ≠ [] := by
    intro hnil
    rw [hnil, List.splitOn_nil] at hsplit
    obtain ⟨entry, rest, hentries⟩ := List.exists_cons_of_ne_nil hne
    rw [hentries, map_cons] at hsplit
    have hempty : linkEntry entry = [] := (List.cons.inj hsplit).1.symm
    simp [linkEntry] at hempty
  rw [parseQuery, if_neg hquery, hsplit,
    foldl_queryPair (fun entry hentry => linkEntries_spec h hentry) hdistinct, List.nil_append]

/-! ### The characters of a link -/

/-- The characters of which links are made. -/
def isLinkChar (c : Char) : Bool := isUriEncoded c || c ∈ ":/?&=".toList

theorem isLinkChar_ascii {c : Char} (h : isLinkChar c = true) : c.toNat < 128 := by
  rw [isLinkChar, isUriEncoded, isUriUnreserved] at h
  delta Char.isAlphanum Char.isAlpha Char.isUpper Char.isLower at h
  simp only [Char.isDigit, Bool.or_eq_true, Bool.and_eq_true, decide_eq_true_eq, ge_iff_le] at h
  have hmarks : ∀ d ∈ "-_.!~*'()".toList, d.toNat < 128 := by simp
  have hseparators : ∀ d ∈ ":/?&=".toList, d.toNat < 128 := by simp
  rcases h with ((((⟨-, h⟩ | ⟨-, h⟩) | ⟨-, h⟩) | h) | rfl) | h
  · exact Nat.lt_of_le_of_lt h (by decide)
  · exact Nat.lt_of_le_of_lt h (by decide)
  · exact Nat.lt_of_le_of_lt h (by decide)
  · exact hmarks c h
  · decide
  · exact hseparators c h

theorem not_isJsSpace_of_isLinkChar {c : Char} (h : isLinkChar c = true) : isJsSpace c = false := by
  have hall : ∀ n : Fin 128, isLinkChar (Char.ofNat n) = true → isJsSpace (Char.ofNat n) = false := by
    decide +kernel
  exact forall_ascii (P := fun c => isLinkChar c = true → isJsSpace c = false) hall
    (isLinkChar_ascii h) h

theorem jsLength_of_isLinkChar {text : List Char} (h : ∀ c ∈ text, isLinkChar c = true) :
    jsLength text = text.length := by
  induction text with
  | nil => rfl
  | cons c text ih =>
    have hascii := isLinkChar_ascii (h c (.head _))
    have hrest := ih fun d hd => h d (.tail _ hd)
    rw [jsLength] at hrest ⊢
    rw [map_cons, sum_cons, hrest, if_neg (by omega), length_cons, Nat.add_comm]

theorem length_percentOctets (bs : List ℕ) : (bs.flatMap percentOctet).length = 3 * bs.length := by
  induction bs with
  | nil => rfl
  | cons b bs ih =>
    rw [List.flatMap_cons, length_append, ih, length_cons]
    have hoctet : (percentOctet b).length = 3 := rfl
    omega

/-- A text takes at most nine characters for each of its units. -/
theorem length_encodeURIComponent_le (text : List Char) :
    (encodeURIComponent text).length ≤ 9 * jsLength text := by
  induction text with
  | nil => exact Nat.zero_le _
  | cons c text ih =>
    have hchar : (percentEncodeChar isUriUnreserved c).length ≤
        9 * (if 0xFFFF < c.toNat then 2 else 1) := by
      unfold percentEncodeChar
      split_ifs with hkeep hwide hwide
      · simp
      · simp
      · rw [length_percentOctets]
        have hoctets : (utf8Octets c).length ≤ 4 := by
          simp only [utf8Octets]
          split_ifs <;> simp
        omega
      · rw [length_percentOctets]
        have hoctets : (utf8Octets c).length ≤ 3 := by
          simp only [utf8Octets]
          split_ifs <;> simp only [length_cons, List.length_nil] <;> omega
        omega
    rw [encodeURIComponent, List.flatMap_cons, length_append, ← encodeURIComponent]
    have hlength : jsLength (c :: text) = (if 0xFFFF < c.toNat then 2 else 1) + jsLength text := by
      rw [jsLength, map_cons, sum_cons, ← jsLength]
    omega

theorem mem_intercalate {sep : List Char} {parts : List (List Char)} {c : Char}
    (h : c ∈ sep.intercalate parts) : c ∈ sep ∨ ∃ part ∈ parts, c ∈ part := by
  induction parts with
  | nil =>
    rw [List.intercalate_nil] at h
    exact absurd h List.not_mem_nil
  | cons part parts ih =>
    by_cases hnil : parts = []
    · rw [hnil, List.intercalate_singleton] at h
      exact .inr ⟨part, (.head _), h⟩
    · rw [List.intercalate_cons_of_ne_nil hnil, mem_append, mem_append] at h
      rcases h with (h | h) | h
      · exact .inr ⟨part, (.head _), h⟩
      · exact .inl h
      · rcases ih h with hsep | ⟨other, hother, hc⟩
        · exact .inl hsep
        · exact .inr ⟨other, List.mem_cons_of_mem _ hother, hc⟩

theorem length_intercalate_le (x : Char) (parts : List (List Char)) :
    ([x].intercalate parts).length ≤ (parts.map fun part => part.length + 1).sum := by
  induction parts with
  | nil => exact Nat.zero_le _
  | cons part parts ih =>
    rw [map_cons, sum_cons]
    by_cases hnil : parts = []
    · rw [hnil, List.intercalate_singleton]
      omega
    · rw [List.intercalate_cons_of_ne_nil hnil, length_append, length_append,
        List.length_singleton]
      omega

theorem sum_givenEntries_le {fields : List (List Char × Option (List Char))}
    (cost : List Char × List Char → ℕ) (limit : List Char → ℕ)
    (h : ∀ entry ∈ givenEntries fields, cost entry ≤ limit entry.1) :
    ((givenEntries fields).map cost).sum ≤ ((fields.map Prod.fst).map limit).sum := by
  induction fields with
  | nil => exact Nat.le_refl _
  | cons field fields ih =>
    obtain ⟨name, value⟩ := field
    rw [map_cons, map_cons, sum_cons]
    cases value with
    | none =>
      have hrest := ih h
      exact hrest.trans (Nat.le_add_left _ _)
    | some value =>
      have hfirst : cost (name, value) ≤ limit name := h (name, value) (.head _)
      have hrest := ih fun entry hentry => h entry (.tail _ hentry)
      exact Nat.add_le_add hfirst hrest

/-- What a link is made of behind its scheme, code and action. -/
def linkTail (entries : UriParams) : List Char :=
  if entries = [] then [] else '?' :: ['&'].intercalate (entries.map linkEntry)

theorem isLinkChar_of_isUriEncoded {c : Char} (h : isUriEncoded c = true) : isLinkChar c = true := by
  rw [isLinkChar, h, Bool.true_or]

theorem isLinkChar_of_mem_tail {entries : UriParams} (hkeys : ∀ e ∈ entries, e.1 ∈ linkKeys)
    {c : Char} (hc : c ∈ linkTail entries) : isLinkChar c = true := by
  have hnames : ∀ name ∈ linkKeys, ∀ c ∈ name, isLinkChar c = true := by
    simp only [← List.all_eq_true]
    decide
  unfold linkTail at hc
  split_ifs at hc with hnil
  · cases hc
  rcases mem_cons.mp hc with rfl | hc
  · decide
  rcases mem_intercalate hc with hc | ⟨part, hpart, hc⟩
  · obtain rfl := List.mem_singleton.mp hc
    decide
  · obtain ⟨entry, hentry, rfl⟩ := List.mem_map.mp hpart
    rcases mem_append.mp hc with hc | hc
    · exact hnames entry.1 (hkeys entry hentry) c hc
    · rcases mem_cons.mp hc with rfl | hc
      · decide
      · exact isLinkChar_of_isUriEncoded (isUriEncoded_of_mem hc)

/-- The parameters of a link leave room for its head. -/
theorem length_linkTail_le (h : WithinLimits intent) :
    (linkTail intent.linkEntries).length ≤ 16000 := by
  unfold linkTail
  split_ifs
  · exact Nat.zero_le _
  have hentries := length_intercalate_le '&' (intent.linkEntries.map linkEntry)
  have hcost : ∀ entry ∈ intent.linkEntries,
      (linkEntry entry).length + 1 ≤ entry.1.length + 9 * parameterLimit entry.1 + 2 := by
    intro entry hentry
    obtain ⟨-, hlimit, -, -⟩ := linkEntries_spec h hentry
    have hvalue := length_encodeURIComponent_le entry.2
    rw [linkEntry, length_append, length_cons]
    omega
  have hsum := sum_givenEntries_le (fun entry => (linkEntry entry).length + 1)
    (fun name => name.length + 9 * parameterLimit name + 2) hcost
  have htotal : (linkKeys.map fun name => name.length + 9 * parameterLimit name + 2).sum < 16000 := by
    decide
  rw [List.map_map] at hentries
  rw [map_fst_linkFields] at hsum
  rw [length_cons]
  exact (Nat.succ_le_succ (hentries.trans hsum)).trans htotal

/-! ### Reading a link -/

/-- The code and the action of a link, the path behind its scheme. -/
def linkPath (chain : CoinNetwork) (action : DocumentedAction) : List Char :=
  coinCode chain ++ '/' :: action.text

/-- The path of a link is read as the code and the action that it was written for. -/
theorem linkPath_read (chain : CoinNetwork) (action : DocumentedAction) :
    (∀ c ∈ linkPath chain action, isLinkChar c = true) ∧
      '?' ∉ linkPath chain action ∧ '/' ∈ linkPath chain action ∧
      (linkPath chain action).length ≤ 13 ∧
      beforeFirst '/' (linkPath chain action) = coinCode chain ∧
      pathSegments (linkPath chain action) = [coinCode chain, action.text] ∧
      documentedAction? (jsLowerText action.text) = some action ∧
      isKnownCoinCode (coinCode chain) = true ∧
      coinNetworkForCoinCode (coinCode chain) = some chain := by
  obtain ⟨coin, networkKind⟩ := chain
  rw [← List.all_eq_true]
  cases coin <;> cases networkKind <;> cases action <;> decide

/-- Which prefixes the link has in lower case. -/
theorem linkPath_prefixes (chain : CoinNetwork) (action : DocumentedAction) :
    9 ≤ (jsLowerText (bip21Prefix ++ linkPath chain action)).length ∧
      "https://".toList.isPrefixOf (jsLowerText (bip21Prefix ++ linkPath chain action)) = false ∧
      pathPrefix.isPrefixOf (jsLowerText (bip21Prefix ++ linkPath chain action)) = false ∧
      bip21Prefix.isPrefixOf (jsLowerText (bip21Prefix ++ linkPath chain action)) = true := by
  obtain ⟨coin, networkKind⟩ := chain
  cases coin <;> cases networkKind <;> cases action <;> decide

theorem isPrefixOf_append {letters part : List Char} (h : letters.length ≤ part.length)
    (rest : List Char) : letters.isPrefixOf (part ++ rest) = letters.isPrefixOf part := by
  induction letters generalizing part with
  | nil => simp
  | cons letter letters ih =>
    cases part with
    | nil => exact absurd h (Nat.not_succ_le_zero _)
    | cons c part =>
      rw [List.cons_append, List.isPrefixOf_cons_cons, List.isPrefixOf_cons_cons,
        ih (Nat.le_of_succ_le_succ h)]

theorem isPrefixOf_lower_append {letters part : List Char}
    (h : letters.length ≤ (jsLowerText part).length) (rest : List Char) :
    letters.isPrefixOf (jsLowerText (part ++ rest)) = letters.isPrefixOf (jsLowerText part) := by
  have happend : jsLowerText (part ++ rest) = jsLowerText part ++ jsLowerText rest :=
    List.flatMap_append
  rw [happend, isPrefixOf_append h]

/-- The tail of a link is its query. -/
theorem afterFirst_linkTail {part : List Char} (h : '?' ∉ part) (entries : UriParams) :
    beforeFirst '?' (part ++ linkTail entries) = part ∧
      (entries = [] → afterFirst '?' (part ++ linkTail entries) = []) ∧
      (entries ≠ [] → afterFirst '?' (part ++ linkTail entries) =
        ['&'].intercalate (entries.map linkEntry)) := by
  unfold linkTail
  by_cases hnil : entries = []
  · rw [if_pos hnil, List.append_nil]
    exact ⟨beforeFirst_of_not_mem h, fun _ => afterFirst_of_not_mem h, fun hne => absurd hnil hne⟩
  · rw [if_neg hnil]
    exact ⟨beforeFirst_append_cons h _, fun hempty => absurd hempty hnil,
      fun _ => afterFirst_append_cons h _⟩

/-- The query of a link, empty or not, is read back. -/
theorem parseQuery_linkTail (h : WithinLimits intent) {part : List Char} (hpart : '?' ∉ part) :
    parseQuery (afterFirst '?' (part ++ linkTail intent.linkEntries)) =
      ⟨intent.linkEntries, [], []⟩ := by
  obtain ⟨-, hnil, hne⟩ := afterFirst_linkTail hpart intent.linkEntries
  by_cases hempty : intent.linkEntries = []
  · rw [hnil hempty, hempty]
    rfl
  · rw [hne hempty, parseQuery_linkEntries h hempty]

/-- Where the parameters of a link are found. -/
theorem uriParam?_linkEntries (intent : XchainUriIntent) :
    uriParam? intent.linkEntries "to".toList = given intent.address ∧
      uriParam? intent.linkEntries "amount".toList = given intent.amount ∧
      uriParam? intent.linkEntries "tick".toList = given intent.tick ∧
      uriParam? intent.linkEntries "memo".toList = given intent.memo ∧
      uriParam? intent.linkEntries "feePriority".toList = intent.feePriority.map FeePriority.text ∧
      uriParam? intent.linkEntries "label".toList = given intent.label ∧
      uriParam? intent.linkEntries "message".toList = given intent.message := by
  have hdistinct := linkFields_distinct intent
  refine ⟨?_, ?_, ?_, ?_, ?_, ?_, ?_⟩ <;>
    exact uriParam?_givenEntries hdistinct (by simp [XchainUriIntent.linkFields])

theorem given_given (text : Option (List Char)) : given (given text) = given text := by
  cases text with
  | none => rfl
  | some text =>
    by_cases hempty : text = []
    · subst hempty
      rfl
    · have hkept : given (some text) = some text := by
        rw [given, Option.filter_some, if_pos (decide_eq_true hempty)]
      rw [hkept, hkept]

/-! ### The round trip -/

/-- A send or receive intent for a chain: its address is one of the chain, and its texts fit their
limits. -/
structure Linkable (codecs : AddressCodecs) (chain : CoinNetwork) (intent : XchainUriIntent) :
    Prop where
  kind : intent.kind = .send ∨ intent.kind = .receive
  action : ∀ action, intent.action = some action → action.kind = intent.kind
  address : ∀ text, intent.address = some text → codecs.isValidAddressForChain text chain = true
  limits : WithinLimits intent

/-- The intent that is read asks for the same. An empty text is as none. -/
structure SameRequest (intent back : XchainUriIntent) : Prop where
  kind : back.kind = intent.kind
  address : back.address = intent.address
  amount : back.amount = given intent.amount
  tick : back.tick = given intent.tick
  memo : back.memo = given intent.memo
  label : back.label = given intent.label
  message : back.message = given intent.message
  feePriority : back.feePriority = intent.feePriority

theorem Linkable.linkAction {codecs : AddressCodecs} {chain : CoinNetwork}
    (h : Linkable codecs chain intent) :
    intent.linkAction.kind = intent.kind ∧ intent.linkAction ≠ .execute := by
  have hkind : intent.linkAction.kind = intent.kind := by
    rw [XchainUriIntent.linkAction]
    cases haction : intent.action with
    | some action => exact h.action action haction
    | none =>
      rw [Option.getD_none]
      rcases h.kind with hkind | hkind <;> rw [hkind] <;> rfl
  refine ⟨hkind, fun hexecute => ?_⟩
  rw [hexecute] at hkind
  rcases h.kind with hsend | hreceive
  · exact absurd (hkind.trans hsend) (by decide)
  · exact absurd (hkind.trans hreceive) (by decide)

theorem Linkable.given_address {codecs : AddressCodecs} {chain : CoinNetwork}
    (h : Linkable codecs chain intent) :
    given intent.address = intent.address := by
  cases haddress : intent.address with
  | none => rfl
  | some text =>
    have hvalid := h.address text haddress
    have hne : text ≠ [] := by
      rintro rfl
      exact absurd hvalid (by simp [AddressCodecs.isValidAddressForChain, jsTrim])
    rw [given, Option.filter_some, if_pos (decide_eq_true hne)]

theorem chainIdFor_ne_nil {chains : List ChainEntry} {chain : CoinNetwork} {id : List Char}
    (h : chainIdFor chains chain = some id) : id ≠ [] := by
  obtain ⟨entry, -, rfl⟩ := Option.map_eq_some_iff.mp h
  exact entry.id_ne_nil

namespace UriPlatform

variable (platform : UriPlatform)

/-- **The action of a link is read back with its fields.** -/
theorem parseActionLink_linkTail {chain : CoinNetwork} {intent : XchainUriIntent}
    (h : Linkable platform.codecs chain intent) {part : List Char} (hpart : '?' ∉ part)
    (chainId : Option (List Char)) :
    SameRequest intent (platform.parseActionLink intent.linkAction
        (afterFirst '?' (part ++ linkTail intent.linkEntries)) (some ⟨chainId, some chain⟩)) ∧
      (platform.parseActionLink intent.linkAction
        (afterFirst '?' (part ++ linkTail intent.linkEntries)) (some ⟨chainId, some chain⟩)).chainId =
        given chainId := by
  obtain ⟨haddress, hamount, htick, hmemo, hfee, hlabel, hmessage⟩ := uriParam?_linkEntries intent
  obtain ⟨hkind, hexecute⟩ := h.linkAction
  have hdestination : (given intent.address).any (fun destination =>
      !platform.destinationOk (some chain) destination) = false := by
    rw [h.given_address]
    cases hsome : intent.address with
    | none => rfl
    | some text =>
      rw [Option.any_some, Bool.not_eq_false', destinationOk]
      exact h.address text hsome
  have hpriority : (intent.feePriority.map FeePriority.text).bind normalizeFeePriority =
      intent.feePriority := by
    cases intent.feePriority with
    | none => rfl
    | some fee => exact normalizeFeePriority_text fee
  have hgiven : ∀ name, givenParam? intent.linkEntries name =
      given (uriParam? intent.linkEntries name) := fun _ => rfl
  rw [parseActionLink, parseQuery_linkTail h.limits hpart]
  dsimp only
  rw [if_neg (not_not_intro rfl), if_neg (not_not_intro rfl), haddress, Option.bind_some,
    hdestination, if_neg Bool.false_ne_true, hfee, hpriority]
  simp only [hgiven, haddress, hamount, htick, hmemo, hlabel, hmessage, given_given]
  cases haction : intent.linkAction with
  | execute => exact absurd haction hexecute
  | send | receive =>
    rw [haction] at hkind
    exact ⟨⟨hkind, h.given_address, rfl, rfl, rfl, rfl, rfl, rfl⟩, rfl⟩

/-- A link is read by its code and its action. -/
theorem parseXchainUri_link {chain : CoinNetwork} {intent : XchainUriIntent}
    (h : WithinLimits intent) (registry : ChainRegistry) :
    platform.parseXchainUri (some registry)
        (bip21Prefix ++ (linkPath chain intent.linkAction ++ linkTail intent.linkEntries)) =
      platform.parseActionLink intent.linkAction
        (afterFirst '?' (linkPath chain intent.linkAction ++ linkTail intent.linkEntries))
        (some ⟨registry chain, some chain⟩) := by
  obtain ⟨hchars, hquestion, hslash, hlength, hfirst, hsegments, haction, hknown, hnetwork⟩ :=
    linkPath_read chain intent.linkAction
  obtain ⟨hlong, hweb, hpath, hbip21⟩ := linkPath_prefixes chain intent.linkAction
  set tail := linkTail intent.linkEntries with htail
  set path := linkPath chain intent.linkAction with hpathdef
  have huri : bip21Prefix ++ (path ++ tail) = (bip21Prefix ++ path) ++ tail :=
    (List.append_assoc _ _ _).symm
  have hall : ∀ c ∈ bip21Prefix ++ (path ++ tail), isLinkChar c = true := by
    have hscheme : ∀ c ∈ bip21Prefix, isLinkChar c = true := List.all_eq_true.mp (by decide)
    intro c hc
    rcases mem_append.mp hc with hc | hc
    · exact hscheme c hc
    rcases mem_append.mp hc with hc | hc
    · exact hchars c hc
    · exact isLinkChar_of_mem_tail (fun e he => (linkEntries_spec h he).1) hc
  have htrim : jsTrim (bip21Prefix ++ (path ++ tail)) = bip21Prefix ++ (path ++ tail) :=
    jsTrim_eq_self _ fun c hc => not_isJsSpace_of_isLinkChar (hall c hc)
  have hbound : jsLength (bip21Prefix ++ (path ++ tail)) ≤ uriMaxLength := by
    have hscheme : bip21Prefix.length = 7 := by decide
    have htailLength : tail.length ≤ 16000 := length_linkTail_le h
    rw [jsLength_of_isLinkChar hall, length_append, length_append, uriMaxLength]
    omega
  have hbounded : boundedText? (bip21Prefix ++ (path ++ tail)) =
      some (bip21Prefix ++ (path ++ tail)) := by
    rw [boundedText?, htrim]
    refine if_neg ?_
    rintro (hnil | hlt)
    · exact absurd hnil (List.append_ne_nil_of_left_ne_nil (by decide) _)
    · exact absurd hlt (Nat.not_lt.mpr hbound)
  have hnotweb : ¬IsWebLink (bip21Prefix ++ (path ++ tail)) := by
    rw [IsWebLink, huri, isPrefixOf_lower_append ((by decide : _ ≤ 9).trans hlong), hweb]
    exact Bool.false_ne_true
  have hdrop : (bip21Prefix ++ (path ++ tail)).drop bip21Prefix.length = path ++ tail :=
    List.drop_left
  have hpathPart : beforeFirst '?' (path ++ tail) = path :=
    (afterFirst_linkTail hquestion intent.linkEntries).1
  rw [parseXchainUri_eq, linkText?, hbounded, Option.bind_some, if_neg hnotweb, Option.map_some,
    Option.getD_some, parseSchemeUri]
  dsimp only
  rw [huri, isPrefixOf_lower_append ((by decide : _ ≤ 9).trans hlong),
    isPrefixOf_lower_append ((by decide : _ ≤ 9).trans hlong), hpath, hbip21, ← huri,
    if_neg Bool.false_ne_true, if_pos rfl, hdrop, hpathPart, hfirst, if_pos ⟨hslash, hknown⟩,
    parseCoinCodeStyle]
  rw [hdrop, hpathPart, hsegments]
  dsimp only
  rw [haction, hnetwork, Option.bind_some, chainIdForCoinCode, hnetwork, Option.bind_some]

/-- **An intent that the wallet writes as a link is read back**, with every field that it carries:
for a send or a receive on a chain whose coin has a code, with an address of that chain and texts
within their limits. Its chain is read back exactly where it is the first registered one with its
coin and network. -/
theorem buildXchainUri_round_trip (chains : List ChainEntry) {intent : XchainUriIntent}
    {chainId : List Char} {chain : CoinNetwork} (hchainId : intent.chainId = some chainId)
    (hchain : chainOf? chains chainId = some chain)
    (h : Linkable platform.codecs chain intent) :
    ∃ uri, buildXchainUri intent chains = .ok uri ∧
      SameRequest intent (platform.parseXchainUri (some (chainIdFor chains)) uri) ∧
      ((platform.parseXchainUri (some (chainIdFor chains)) uri).chainId = intent.chainId ↔
        chainIdFor chains chain = some chainId) := by
  have hne : chainId ≠ [] := by
    obtain ⟨entry, hentry, -⟩ := Option.bind_eq_some_iff.mp hchain
    rw [← Keyed.key_of_find hentry]
    exact entry.id_ne_nil
  have hgiven : given intent.chainId = some chainId := by
    rw [hchainId, given, Option.filter_some, if_pos (decide_eq_true hne)]
  have hbuild : buildXchainUri intent chains =
      .ok (bip21Prefix ++ (linkPath chain intent.linkAction ++ linkTail intent.linkEntries)) := by
    have hcode : coinCodeForChainId chains chainId = some (coinCode chain) := by
      rw [coinCodeForChainId, hchain, Option.map_some]
    rw [buildXchainUri, bind_eq_ok]
    refine ⟨chainId, orRefuse_eq_ok.mpr hgiven, ?_⟩
    rw [bind_eq_ok]
    refine ⟨coinCode chain, orRefuse_eq_ok.mpr hcode, ?_⟩
    rfl
  have hquestion := (linkPath_read chain intent.linkAction).2.1
  obtain ⟨hsame, hback⟩ := platform.parseActionLink_linkTail h hquestion (chainIdFor chains chain)
  refine ⟨_, hbuild, ?_, ?_⟩
  · rw [parseXchainUri_link platform h.limits]
    exact hsame
  · rw [parseXchainUri_link platform h.limits, hback, hchainId]
    cases hfirst : chainIdFor chains chain with
    | none => exact Iff.rfl
    | some first =>
      rw [given, Option.filter_some, if_pos (decide_eq_true (chainIdFor_ne_nil hfirst))]

/-- A registry with two regtest chains of bitcoin, as a developer may have it. -/
private def twoRegtests : List ChainEntry :=
  [⟨"bitcoin-regtest".toList, "bitcoin".toList, .regtest, by decide⟩,
    ⟨"my-regtest".toList, "bitcoin".toList, .regtest, by decide⟩]

/-- A platform that reads no web link and no encoded address. -/
private def bare : UriPlatform where
  parseUrl _ := none
  codecs := noAddresses

/-- A request on a chain, with the placeholder address of a development build. -/
private def devRequest (chainId : String) : XchainUriIntent where
  kind := .receive
  chainId := some chainId.toList
  address := some "bcrt1qdevmock00ff".toList
  amount := some "1.50".toList
  memo := some "50% & più".toList

private theorem linkable_devRequest (chainId : String) :
    Linkable bare.codecs ⟨.bitcoin, .regtest⟩ (devRequest chainId) := by
  have htext : ∀ {bound : ℕ} {field : Option (List Char)} {value : List Char}, field = some value →
      jsLength value ≤ bound → ∀ text, field = some text → jsLength text ≤ bound := by
    rintro bound field value rfl hle text htext
    obtain ⟨⟩ := htext
    exact hle
  refine ⟨.inr rfl, ?_, ?_, htext rfl (by decide), htext rfl (by decide), ?_,
    htext rfl (by decide), ?_, ?_⟩
  · intro action haction
    cases haction
  · intro text haddress
    obtain ⟨⟩ := haddress
    decide
  all_goals
    intro text htext
    cases htext

/-- A request is read back with its chain. -/
theorem buildXchainUri_round_trip_devRequest :
    ∃ uri, buildXchainUri (devRequest "bitcoin-regtest") twoRegtests = .ok uri ∧
      SameRequest (devRequest "bitcoin-regtest")
        (bare.parseXchainUri (some (chainIdFor twoRegtests)) uri) ∧
      ((bare.parseXchainUri (some (chainIdFor twoRegtests)) uri).chainId =
          some "bitcoin-regtest".toList ↔
        chainIdFor twoRegtests ⟨.bitcoin, .regtest⟩ = some "bitcoin-regtest".toList) :=
  bare.buildXchainUri_round_trip twoRegtests rfl (by decide) (linkable_devRequest "bitcoin-regtest")

/-- **A link does not name a second chain of its coin and network.** -/
theorem not_buildXchainUri_round_trip :
    ¬∀ (platform : UriPlatform) (chains : List ChainEntry) (intent : XchainUriIntent)
      (chainId : List Char) (chain : CoinNetwork), intent.chainId = some chainId →
      chainOf? chains chainId = some chain → Linkable platform.codecs chain intent →
      ∃ uri, buildXchainUri intent chains = .ok uri ∧
        SameRequest intent (platform.parseXchainUri (some (chainIdFor chains)) uri) ∧
        (platform.parseXchainUri (some (chainIdFor chains)) uri).chainId = intent.chainId := by
  intro hall
  obtain ⟨uri, hbuild, -, hback⟩ := hall bare twoRegtests (devRequest "my-regtest") _
    ⟨.bitcoin, .regtest⟩ rfl (by decide) (linkable_devRequest "my-regtest")
  have hother : (bare.parseXchainUri (some (chainIdFor twoRegtests))
      (bip21Prefix ++ (linkPath ⟨.bitcoin, .regtest⟩ (devRequest "my-regtest").linkAction ++
        linkTail (devRequest "my-regtest").linkEntries))).chainId =
      some "bitcoin-regtest".toList := by
    rw [parseXchainUri_link bare (linkable_devRequest "my-regtest").limits]
    decide
  have huri : buildXchainUri (devRequest "my-regtest") twoRegtests =
      .ok (bip21Prefix ++ (linkPath ⟨.bitcoin, .regtest⟩ (devRequest "my-regtest").linkAction ++
        linkTail (devRequest "my-regtest").linkEntries)) := by
    decide
  obtain rfl := Except.ok.inj (huri.symm.trans hbuild)
  rw [hother] at hback
  exact absurd hback (by decide)

end UriPlatform

end XchainWallet
