import XchainWallet.Uri.AddressValidation
import XchainWallet.Uri.Bip21

/-!
# xchain: URIs

What a scanned or pasted text asks the wallet to do. Its shape is `xchain:<CODE>/<action>`, a bare
action, the older `xchain://<chainId>/<tick>`, or `xchain:<address>`, the last of them read as
BIP21; a web link is an envelope around one of these. A text that is none of them, or that its
shape refuses, is an unknown intent. The parser of URLs and the decoders of addresses are what the
code takes from its platform.
-/

namespace XchainWallet

/-! ### Coin codes -/

/-- `COIN_BY_TICKER`. -/
def coinByTicker : List (List Char × Coin) :=
  [("BTC".toList, .bitcoin), ("LTC".toList, .litecoin), ("DOGE".toList, .dogecoin)]

/-- `isKnownCoinCode(code)`. -/
def isKnownCoinCode (code : List Char) : Bool :=
  let up := jsUpperText code
  (coinByTicker.lookup up).isSome ||
    decide (1 < jsLength up) && (up.head? == some 'T' || up.head? == some 'R') &&
      (coinByTicker.lookup (up.drop 1)).isSome

/-- `coinNetworkForCoinCode(code)`. -/
def coinNetworkForCoinCode (code : List Char) : Option CoinNetwork :=
  let up := jsUpperText code
  match coinByTicker.lookup up with
  | some coin => some ⟨coin, .mainnet⟩
  | none =>
    if 1 < jsLength up then
      match coinByTicker.lookup (up.drop 1) with
      | some coin =>
        if up.head? = some 'T' then some ⟨coin, .testnet⟩
        else if up.head? = some 'R' then some ⟨coin, .regtest⟩
        else none
      | none => none
    else none

/-- `chainIdFor` of a chain registry. -/
abbrev ChainRegistry := CoinNetwork → Option (List Char)

/-- `chainIdForCoinCode(code, chainRegistry)`. -/
def chainIdForCoinCode (code : List Char) (chainIdFor : ChainRegistry) : Option (List Char) :=
  (coinNetworkForCoinCode code).bind chainIdFor

/-- The supported chain that an id of the registry names, as the pattern for `chain=` has it. -/
def namedChain? (chainId : List Char) : Option CoinNetwork :=
  coinNetworks.find? fun chain => chain.coin.name ++ '-' :: chain.networkKind.name = chainId

/-- `safeChainIdParam(value)`. -/
def safeChainIdParam (value : List Char) : Option (List Char) :=
  if isChainId value then some value else none

/-! ### Intents -/

/-- The kind of an intent. -/
inductive IntentKind where
  | send
  | receive
  | execute
  | unknown
deriving DecidableEq

/-- `DOCUMENTED_ACTIONS`. -/
inductive DocumentedAction where
  | send
  | receive
  | execute
deriving DecidableEq

/-- The action of a segment in lower case. -/
def documentedAction? (text : List Char) : Option DocumentedAction :=
  if text = "send".toList then some .send
  else if text = "receive".toList then some .receive
  else if text = "execute".toList then some .execute
  else none

def DocumentedAction.kind : DocumentedAction → IntentKind
  | send => .send
  | receive => .receive
  | execute => .execute

/-- `XchainUriIntent`. -/
structure XchainUriIntent where
  kind : IntentKind
  action : Option DocumentedAction := none
  contractActionIndex : Option (List Char) := none
  method : Option (List Char) := none
  executeParams : Option (List Char) := none
  chainId : Option (List Char) := none
  tick : Option (List Char) := none
  address : Option (List Char) := none
  amount : Option (List Char) := none
  memo : Option (List Char) := none
  feePriority : Option FeePriority := none
  label : Option (List Char) := none
  message : Option (List Char) := none
  params : UriParams := []
deriving DecidableEq

/-- `{ kind: 'unknown' }`. -/
def XchainUriIntent.unknown : XchainUriIntent where
  kind := .unknown

/-! ### Queries -/

/-- What `parseQuery` returns. -/
structure UriQuery where
  params : UriParams
  required : List (List Char)
  errors : List String
deriving DecidableEq

/-- A parameter where it is there and is not empty. -/
def givenParam? (params : UriParams) (name : List Char) : Option (List Char) :=
  (uriParam? params name).filter (· ≠ [])

/-- `URI_PARAMETER_LIMITS.amount`. -/
def amountLimit : ℕ := (uriParameterLimits.lookup "amount".toList).getD 0

/-- A name in lower case where it begins with the marker or is one of the three standard ones. -/
def canonicalKey (key : List Char) : List Char :=
  let lower := jsLowerText key
  if reqMarker.isPrefixOf lower || isStandardKey lower then lower else key

/-- What `parseQuery` does with a decoded pair. -/
def addQueryParam (query : UriQuery) (key value : List Char) : UriQuery :=
  if reqMarker.isPrefixOf key then
    { query with
      required := query.required ++ [key.drop 4]
      params := setUriParam query.params key value }
  else if (uriParam? query.params key).isSome then
    { query with errors := query.errors ++ [String.ofList key ++ " appears more than once"] }
  else if key = "amount".toList ∧ jsLength value ≤ amountLimit then
    { query with params := setUriParam query.params key value }
  else
    match isSafeUriParameter key value false with
    | .ok true => { query with params := setUriParam query.params key value }
    | .ok false => query
    | .error message => { query with errors := query.errors ++ [message] }

/-- One turn of the loop of `parseQuery`. A name that cannot be decoded is kept as it is. -/
def queryPair (query : UriQuery) (pair : List Char) : UriQuery :=
  if pair = [] then query
  else if '=' ∉ pair then
    { query with errors := query.errors ++ ["malformed param \"" ++ String.ofList pair ++ "\""] }
  else
    match decodeURIComponent (afterFirst '=' pair) with
    | none =>
      { query with errors := query.errors ++ ["unable to decode \"" ++ String.ofList pair ++ "\""] }
    | some value => addQueryParam query (canonicalKey (pairKey pair)) value

/-- `parseQuery(queryPart)`. -/
def parseQuery (queryPart : List Char) : UriQuery :=
  if queryPart = [] then ⟨[], [], []⟩ else (queryPart.splitOn '&').foldl queryPair ⟨[], [], []⟩

/-! ### Shapes -/

/-- `PATH_PREFIX`. -/
def pathPrefix : List Char := "xchain://".toList

/-- `BIP21_PREFIX`. -/
def bip21Prefix : List Char := "xchain:".toList

/-- `WEB_LINK_ORIGIN`. -/
def webLinkOrigin : List Char := "https://xchain.io".toList

/-- `WEB_LINK_PREFIX`. -/
def webLinkPrefix : List Char := "/wallet/link/".toList

/-- `parsePathStyle(raw)`. -/
def parsePathStyle (raw : List Char) : XchainUriIntent :=
  let after := raw.drop pathPrefix.length
  match pathSegments (beforeFirst '?' after) with
  | [] => .unknown
  | chain :: rest =>
    let query := parseQuery (afterFirst '?' after)
    let params := query.params
    if query.errors ≠ [] then .unknown
    else if query.required ≠ [] then .unknown
    else
      { kind := if uriParam? params "kind".toList = some "receive".toList then .receive else .send
        chainId := safeChainIdParam chain
        tick := rest.head?
        amount := givenParam? params "amount".toList
        memo := givenParam? params "memo".toList
        label := givenParam? params "label".toList
        message := givenParam? params "message".toList
        address := givenParam? params "to".toList
        feePriority := (uriParam? params "feePriority".toList).bind normalizeFeePriority
        params }

/-- A parsed URL. -/
structure WebUrl where
  origin : List Char
  pathname : List Char
  searchParams : List (List Char × List Char)

/-- What the parser uses of its platform: `new URL`, `none` where it throws, and the decoders of
addresses. -/
structure UriPlatform where
  parseUrl : List Char → Option WebUrl
  codecs : AddressCodecs

/-- The action of a path that is a bare verb. -/
def bareAction? (pathPart : List Char) : Option DocumentedAction :=
  if '/' ∈ pathPart then none else documentedAction? (jsLowerText pathPart)

/-- The chain that a link with an action names. -/
structure LinkChain where
  chainId : Option (List Char)
  network : Option CoinNetwork

namespace UriPlatform

variable (platform : UriPlatform)

/-- `unwrapWebLink(raw)`. -/
def unwrapWebLink (raw : List Char) : Option (List Char) := do
  let parsed ← platform.parseUrl raw
  if parsed.origin ≠ webLinkOrigin then none
  else if ¬webLinkPrefix.isPrefixOf parsed.pathname then none
  else
    let carried ← parsed.searchParams.lookup "uri".toList
    if bip21Prefix.isPrefixOf (jsLowerText carried) then some carried else none

/-- The check of a destination: for the chain that the link names, or for some chain where it names
none. -/
def destinationOk (network : Option CoinNetwork) (address : List Char) : Bool :=
  match network with
  | some chain => platform.codecs.isValidAddressForChain address chain
  | none => platform.codecs.isValidAddressAnyNetwork address

/-- `parseActionLink(action, queryPart, chain)`. -/
def parseActionLink (action : DocumentedAction) (queryPart : List Char) (chain : Option LinkChain) :
    XchainUriIntent :=
  let query := parseQuery queryPart
  let params := query.params
  if query.errors ≠ [] then .unknown
  else if query.required ≠ [] then .unknown
  else if (uriParam? params "to".toList).any fun destination =>
      !platform.destinationOk (chain.bind LinkChain.network) destination then .unknown
  else
    let shared : XchainUriIntent :=
      { kind := action.kind
        action := some action
        chainId := (chain.bind LinkChain.chainId).filter (· ≠ [])
        label := givenParam? params "label".toList
        message := givenParam? params "message".toList
        feePriority := (uriParam? params "feePriority".toList).bind normalizeFeePriority
        params }
    match action with
    | .execute =>
      match (givenParam? params "contract".toList).filter (·.all Char.isDigit) with
      | none => .unknown
      | some contract =>
        -- The names are asked for twice.
        if query.required ≠ [] then .unknown
        else
          { shared with
            contractActionIndex := some contract
            method := givenParam? params "method".toList
            executeParams := givenParam? params "params".toList }
    | _ =>
      if query.required ≠ [] then .unknown
      else
        { shared with
          tick := givenParam? params "tick".toList
          address := givenParam? params "to".toList
          amount := givenParam? params "amount".toList
          memo := givenParam? params "memo".toList }

/-- `parseCoinCodeStyle(raw, chainRegistry)`. -/
def parseCoinCodeStyle (raw : List Char) (chainRegistry : Option ChainRegistry) : XchainUriIntent :=
  let after := raw.drop bip21Prefix.length
  match pathSegments (beforeFirst '?' after) with
  | [code, segment] =>
    match documentedAction? (jsLowerText segment) with
    | none => .unknown
    | some action =>
      platform.parseActionLink action (afterFirst '?' after)
        (some
          { chainId := chainRegistry.bind (chainIdForCoinCode code)
            network := coinNetworkForCoinCode code })
  | _ => .unknown

/-- `parseBip21Style(raw)`. -/
def parseBip21Style (raw : List Char) : XchainUriIntent :=
  match parseBip21Uri raw with
  | .error _ => .unknown
  | .ok parts =>
    let chain := uriParam? parts.params "chain".toList
    if ¬platform.destinationOk (chain.bind namedChain?) parts.address then .unknown
    else if parts.required ≠ [] then .unknown
    else
      { kind := .send
        address := some parts.address
        params := parts.params
        amount := parts.amount.filter (· ≠ [])
        label := parts.label.filter (· ≠ [])
        message := parts.message.filter (· ≠ [])
        memo := givenParam? parts.params "memo".toList
        tick := givenParam? parts.params "tick".toList
        chainId := chain.bind safeChainIdParam
        feePriority := (uriParam? parts.params "feePriority".toList).bind normalizeFeePriority }

variable (chainRegistry : Option ChainRegistry)

/-- The branches of `parseXchainUri` behind the one for web links. -/
def parseSchemeUri (raw : List Char) : XchainUriIntent :=
  let lower := jsLowerText raw
  if pathPrefix.isPrefixOf lower then parsePathStyle raw
  else if bip21Prefix.isPrefixOf lower then
    let afterScheme := raw.drop bip21Prefix.length
    let pathPart := beforeFirst '?' afterScheme
    let firstSeg := beforeFirst '/' pathPart
    if '/' ∈ pathPart ∧ isKnownCoinCode firstSeg then platform.parseCoinCodeStyle raw chainRegistry
    else
      match bareAction? pathPart with
      | some action => platform.parseActionLink action (afterFirst '?' afterScheme) none
      | none => platform.parseBip21Style raw
  else .unknown

/-- `parseXchainUri(uri, deps)` in so many nested calls, `none` where they do not suffice. -/
def parseXchainUriWithin : ℕ → List Char → Option XchainUriIntent
  | 0, _ => none
  | calls + 1, uri =>
    let raw := jsTrim uri
    if raw = [] then some .unknown
    else if uriMaxLength < jsLength raw then some .unknown
    else if "https://".toList.isPrefixOf (jsLowerText raw) then
      match platform.unwrapWebLink raw with
      | some carried => parseXchainUriWithin calls carried
      | none => some .unknown
    else some (platform.parseSchemeUri chainRegistry raw)

/-- `parseXchainUri(uri, deps)`: two calls suffice for every text. -/
def parseXchainUri (uri : List Char) : XchainUriIntent :=
  (platform.parseXchainUriWithin chainRegistry 2 uri).getD .unknown

end UriPlatform

end XchainWallet
