import XchainWallet.Checks.Refuse
import XchainWallet.Keyed.List
import XchainWallet.Uri.UriText

/-!
# BIP21 URIs

`parseBip21Uri` reads `scheme:address?name=value&…`. A recognized parameter is checked and kept, an
unknown one is left out, and the names that begin with `req-`, in either case, are listed in
`required`, for the caller to refuse what it does not know. Reading is a fold over the pairs of the
query that can fail; `required_of_bip21Pairs` is what it keeps of the names.
-/

namespace XchainWallet

open Checks

/-- `URI_MAX_LENGTH`. -/
def uriMaxLength : ℕ := 16384

/-- `URI_PARAMETER_LIMITS`. -/
def uriParameterLimits : List (List Char × ℕ) :=
  [("amount".toList, 128), ("label".toList, 250), ("message".toList, 250), ("memo".toList, 250),
    ("tick".toList, 250), ("to".toList, 512), ("chain".toList, 64), ("feePriority".toList, 16),
    ("kind".toList, 16), ("contract".toList, 20), ("method".toList, 64), ("params".toList, 4096)]

/-- `STANDARD_PARAM_KEYS`. -/
def standardParamKeys : List (List Char) := ["amount".toList, "label".toList, "message".toList]

/-- `STANDARD_PARAM_KEYS.has(key)`. -/
def isStandardKey (key : List Char) : Bool := key ∈ standardParamKeys

/-- The marker of a parameter that must be understood. -/
def reqMarker : List Char := "req-".toList

/-- `FEE_PRIORITIES`. -/
inductive FeePriority where
  | low
  | normal
  | fast
deriving DecidableEq

/-- `normalizeFeePriority(raw)` of a text. -/
def normalizeFeePriority (raw : List Char) : Option FeePriority :=
  let lower := jsLowerText raw
  if lower = "low".toList then some .low
  else if lower = "normal".toList then some .normal
  else if lower = "fast".toList then some .fast
  else none

/-- `CHAIN_ID_RE`. -/
def isChainId (text : List Char) : Bool :=
  match text with
  | [] => false
  | c :: rest => c.isAlphanum && rest.all (fun d => d.isAlphanum || d == '-') && rest.length ≤ 63

/-! ### Parameters -/

/-- The parameters of a URI by their names, in the order in which they were first set. -/
abbrev UriParams := List (List Char × List Char)

/-- `params[name]`. -/
def uriParam? (params : UriParams) (name : List Char) : Option (List Char) :=
  (Keyed.find Prod.fst name params).map Prod.snd

/-- `params[name] = value`. -/
def setUriParam (params : UriParams) (name value : List Char) : UriParams :=
  Keyed.upsert Prod.fst (name, value) params

/-- The positional arguments of a contract call as they stand in a link. -/
def contractArgsOk (value : List Char) : Bool :=
  let args := if value = [] then [] else value.splitOn '|'
  args.length ≤ 64 ∧ args.all fun arg => arg ≠ [] ∧ jsLength arg ≤ 1024 ∧ ';' ∉ arg

/-- `isSafeUriParameter(name, value, opts)`. -/
def isSafeUriParameter (name value : List Char) (deferChainShape : Bool) : Except String Bool :=
  match uriParameterLimits.lookup name with
  | none => .ok false
  | some limit => do
    refuseIf (limit < jsLength value) (String.ofList name ++ " exceeds its URI parameter limit")
    refuseIf (name = "chain".toList ∧ ¬deferChainShape ∧ ¬isChainId value)
      "chain must be a registry id"
    refuseIf (name = "feePriority".toList ∧ normalizeFeePriority value = none)
      "feePriority must be low, normal, or fast"
    refuseIf (name = "kind".toList ∧ value ≠ "send".toList ∧ value ≠ "receive".toList)
      "kind must be send or receive"
    refuseIf (name = "method".toList ∧ ('|' ∈ value ∨ ';' ∈ value))
      "method contains a forbidden delimiter"
    refuseIf (name = "params".toList ∧ ¬contractArgsOk value)
      "params contains invalid contract arguments"
    pure true

/-! ### Amounts -/

/-- `amountDecimalsFor(params)`. -/
def amountDecimalsFor (params : UriParams) : ℕ :=
  if (uriParam? params "tick".toList).any (· ≠ []) then 18 else 8

/-- `normalizeBip21Amount(amount, maxDecimals)` of a text. -/
def normalizeBip21Amount (amount : List Char) (maxDecimals : ℕ) :
    Except String (Option (List Char)) :=
  if amount = [] then .ok none
  else do
    let rawWhole := beforeFirst '.' amount
    let rawFraction := afterFirst '.' amount
    refuseIf (rawWhole = [] ∨ ¬rawWhole.all Char.isDigit ∨ ¬rawFraction.all Char.isDigit)
      "amount must be a plain decimal string"
    refuseIf (maxDecimals < rawFraction.length)
      ("amount must have at most " ++ toString maxDecimals ++ " decimal places")
    let whole := rawWhole.dropWhile (· = '0')
    let whole := if whole = [] then ['0'] else whole
    let fraction := (rawFraction.reverse.dropWhile (· = '0')).reverse
    pure (some (if fraction = [] then whole else whole ++ ['.'] ++ fraction))

/-! ### The parser -/

/-- `InvalidBip21Error`. -/
structure InvalidBip21Error where
  reason : String
  uri : List Char
deriving DecidableEq

def InvalidBip21Error.message (e : InvalidBip21Error) : String := "BIP21: " ++ e.reason

/-- What the loop over the query has read. -/
structure Bip21Query where
  params : UriParams
  required : List (List Char)

/-- One turn of the loop over the query. -/
def bip21Pair (query : Bip21Query) (pair : List Char) : Except String Bip21Query :=
  if pair = [] then .ok query
  else
    match decodeURIComponent (beforeFirst '=' pair), decodeURIComponent (afterFirst '=' pair) with
    | some decodedKey, some decodedVal =>
      let lowerKey := jsLowerText decodedKey
      if reqMarker.isPrefixOf lowerKey then
        let bare := lowerKey.drop 4
        .ok ⟨setUriParam query.params (reqMarker ++ bare) decodedVal, query.required ++ [bare]⟩
      else do
        let key := if isStandardKey lowerKey then lowerKey else decodedKey
        if ← isSafeUriParameter key decodedVal true then
          refuseIf (uriParam? query.params key).isSome
            (String.ofList key ++ " appears more than once")
          pure { query with params := setUriParam query.params key decodedVal }
        else pure query
    | _, _ => .error ("invalid percent-encoding in \"" ++ String.ofList pair ++ "\"")

/-- The parameters with the amount in its canonical form, or without it where it is empty. -/
def bip21Amount (params : UriParams) : Except String UriParams :=
  match uriParam? params "amount".toList with
  | none => .ok params
  | some amount => do
    match ← normalizeBip21Amount amount (amountDecimalsFor params) with
    | none => pure (Keyed.erase Prod.fst "amount".toList params)
    | some amount => pure (setUriParam params "amount".toList amount)

/-- `^[a-z][a-z0-9+.-]*$`. -/
def isUriScheme (scheme : List Char) : Bool :=
  match scheme with
  | [] => false
  | c :: rest => c.isLower && rest.all fun d => d.isLower || d.isDigit || d ∈ ['+', '.', '-']

theorem question_not_mem_uriScheme {scheme : List Char} (h : isUriScheme scheme) :
    '?' ∉ scheme := by
  cases scheme with
  | nil => simp
  | cons c rest =>
    rw [isUriScheme, Bool.and_eq_true, List.all_eq_true] at h
    rw [List.mem_cons]
    rintro (rfl | hmem)
    · exact absurd h.1 (by decide)
    · exact absurd (h.2 _ hmem) (by decide)

/-- A BIP21 URI as it is read. -/
structure Bip21Parts where
  scheme : List Char
  address : List Char
  amount : Option (List Char)
  label : Option (List Char)
  message : Option (List Char)
  params : UriParams
  required : List (List Char)

/-- `parseBip21Uri(uri)`. -/
def parseBip21Uri (uri : List Char) : Except InvalidBip21Error Bip21Parts := do
  refuseIf (uri = []) ⟨"uri must be a non-empty string", uri⟩
  refuseIf (uriMaxLength < jsLength uri)
    ⟨"uri exceeds " ++ toString uriMaxLength ++ " characters", uri⟩
  refuseIf (':' ∉ uri ∨ beforeFirst ':' uri = []) ⟨"missing scheme (no \":\")", uri⟩
  let scheme := jsLowerText (beforeFirst ':' uri)
  refuseIf (¬isUriScheme scheme) ⟨"invalid scheme \"" ++ String.ofList scheme ++ "\"", uri⟩
  let body := afterFirst ':' uri
  refuseIf (body = []) ⟨"missing address", uri⟩
  let address := beforeFirst '?' body
  refuseIf (address = []) ⟨"missing address", uri⟩
  let query ← (((afterFirst '?' body).splitOn '&').foldlM bip21Pair ⟨[], []⟩).mapError (⟨·, uri⟩)
  let params ← (bip21Amount query.params).mapError (⟨·, uri⟩)
  pure
    { scheme
      address
      amount := uriParam? params "amount".toList
      label := uriParam? params "label".toList
      message := uriParam? params "message".toList
      params
      required := query.required }

/-! ### Names that begin with the marker -/

/-- The name of a parameter as its pair in a query has it, undecoded where it cannot be decoded. -/
def pairKey (pair : List Char) : List Char :=
  let key := beforeFirst '=' pair
  (decodeURIComponent key).getD key

/-- A name that begins with `req-`, in either case. -/
def IsRequiredKey (key : List Char) : Prop := reqMarker.isPrefixOf (jsLowerText key)

instance (key : List Char) : Decidable (IsRequiredKey key) :=
  inferInstanceAs (Decidable (_ = true))

/-- The names of the parameters of a query. -/
def queryKeys (query : List Char) : List (List Char) :=
  ((query.splitOn '&').filter (· ≠ [])).map pairKey

/-- A pair adds its name to the list where it begins with the marker, and takes none off. -/
theorem required_of_bip21Pair {query after : Bip21Query} {pair : List Char}
    (h : bip21Pair query pair = .ok after) :
    (query.required ≠ [] → after.required ≠ []) ∧
      (pair ≠ [] → IsRequiredKey (pairKey pair) → after.required ≠ []) := by
  unfold bip21Pair at h
  split_ifs at h with hpair
  · obtain rfl := Except.ok.inj h
    exact ⟨id, fun hne => absurd hpair hne⟩
  · split at h
    · next decodedKey decodedVal hkey hval =>
      have hpairKey : pairKey pair = decodedKey := by rw [pairKey, hkey, Option.getD_some]
      dsimp only at h
      by_cases hreq : reqMarker.isPrefixOf (jsLowerText decodedKey)
      · rw [if_pos hreq] at h
        obtain rfl := Except.ok.inj h
        simp
      · rw [if_neg hreq] at h
        have hsame : after.required = query.required := by
          obtain ⟨safe, _, hafter⟩ := bind_eq_ok.mp h
          cases safe with
          | true =>
            obtain ⟨_, _, hset⟩ := bind_eq_ok.mp hafter
            rw [← pure_eq_ok.mp hset]
          | false => rw [pure_eq_ok.mp hafter]
        rw [hsame, hpairKey]
        exact ⟨id, fun _ hkeyreq => absurd hkeyreq hreq⟩
    · cases h

/-- **A query that is read at all lists its marked names.** -/
theorem required_of_bip21Pairs {pairs : List (List Char)} {query after : Bip21Query}
    (h : pairs.foldlM bip21Pair query = .ok after) :
    (query.required ≠ [] → after.required ≠ []) ∧
      ∀ pair ∈ pairs, pair ≠ [] → IsRequiredKey (pairKey pair) → after.required ≠ [] := by
  induction pairs generalizing query with
  | nil =>
    rw [List.foldlM_nil, pure_eq_ok] at h
    obtain rfl := h
    exact ⟨id, by simp⟩
  | cons first pairs ih =>
    rw [List.foldlM_cons, bind_eq_ok] at h
    obtain ⟨next, hfirst, hrest⟩ := h
    obtain ⟨hkept, hadded⟩ := required_of_bip21Pair hfirst
    obtain ⟨hkepts, haddeds⟩ := ih hrest
    refine ⟨hkepts ∘ hkept, fun pair hpair hne hreq => ?_⟩
    rcases List.mem_cons.mp hpair with rfl | hpair
    · exact hkepts (hadded hne hreq)
    · exact haddeds pair hpair hne hreq

/-- **A URI with a marked name is refused, or the name is listed.** -/
theorem required_of_parseBip21Uri {uri : List Char} {parts : Bip21Parts}
    (h : parseBip21Uri uri = .ok parts) {key : List Char}
    (hkey : key ∈ queryKeys (afterFirst '?' uri)) (hreq : IsRequiredKey key) :
    parts.required ≠ [] := by
  simp only [parseBip21Uri, bind_eq_ok, refuseIf_eq_ok, mapError_eq_ok, pure_eq_ok, not_or,
    not_not] at h
  obtain ⟨_, _, _, _, _, ⟨hcolon, _⟩, _, hscheme, _, _, _, _, query, hquery, params, _, rfl⟩ := h
  -- The scheme has no question mark, so the query is behind the first one of the whole text.
  have hscheme : '?' ∉ beforeFirst ':' uri := fun hmem =>
    question_not_mem_uriScheme hscheme (mem_jsLowerText hmem rfl)
  have hquestion : afterFirst '?' uri = afterFirst '?' (afterFirst ':' uri) := by
    have hmark : '?' ∉ [':'] := by decide
    conv_lhs => rw [eq_beforeFirst_append hcolon, afterFirst_append hscheme]
    exact afterFirst_append hmark _
  rw [hquestion] at hkey
  obtain ⟨pair, hpair, rfl⟩ := List.mem_map.mp hkey
  obtain ⟨hmem, hne⟩ := List.mem_filter.mp hpair
  exact (required_of_bip21Pairs hquery).2 pair hmem (of_decide_eq_true hne) hreq

end XchainWallet
