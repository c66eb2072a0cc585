import Mathlib.Data.List.DropRight
import XchainWallet.Decimal.Scaled
import XchainWallet.Uri.Bip21
import XchainWallet.Uri.PercentEncoding

/-!
# BIP21 URIs that the wallet writes

`encodeBip21Uri` writes the address as it is and the parameters percent-encoded, the amount in its
canonical form. The canonical form of an amount is its own canonical form and denotes the same
number (`normalizeBip21Amount_idem`, `amountValue_normalizeBip21Amount`).

The writer takes any address and texts of any length. What it writes is read back as it was given
exactly where the address has no question mark, each text fits the limit that the reader sets for
it, and the URI its limit for a whole URI (`bip21_round_trip`).
-/

namespace XchainWallet

open Checks Decimal

/-! ### The writer -/

/-- `EncodeBip21Opts`. -/
structure EncodeBip21Opts where
  scheme : List Char
  address : List Char
  amount : Option (List Char) := none
  label : Option (List Char) := none
  message : Option (List Char) := none
  params : UriParams := []

/-- `if (value !== undefined) params[name] = value`. -/
def setGivenParam (name : List Char) (value : Option (List Char)) (params : UriParams) :
    UriParams :=
  match value with
  | none => params
  | some value => setUriParam params name value

/-- The parameters, the three standard ones over those of `params`. -/
def EncodeBip21Opts.merged (opts : EncodeBip21Opts) : UriParams :=
  setGivenParam "message".toList opts.message
    (setGivenParam "label".toList opts.label
      (setGivenParam "amount".toList opts.amount opts.params))

/-- A parameter as it stands in a query. -/
def queryEntry (entry : List Char × List Char) : List Char :=
  encodeRfc3986Component entry.1 ++ '=' :: encodeRfc3986Component entry.2

/-- The URI of an address and its parameters. -/
def bip21Text (scheme address : List Char) (entries : UriParams) : List Char :=
  scheme ++ ':' :: (address ++
    if entries = [] then [] else '?' :: ['&'].intercalate (entries.map queryEntry))

/-- `encodeBip21Uri(opts)`. -/
def encodeBip21Uri (opts : EncodeBip21Opts) : Except String (List Char) := do
  refuseIf (¬isUriScheme opts.scheme)
    ("encodeBip21Uri: invalid scheme \"" ++ String.ofList opts.scheme ++ "\"")
  refuseIf (opts.address = []) "encodeBip21Uri: address is required"
  let entries ← bip21Amount opts.merged
  pure (bip21Text opts.scheme opts.address entries)

/-! ### Cutting what was joined -/

variable {c : Char}

variable {text : List Char}

theorem beforeFirst_of_not_mem (h : c ∉ text) : beforeFirst c text = text := by
  rw [beforeFirst, List.takeWhile_eq_self_iff]
  intro d hd
  rw [decide_eq_true_eq]
  rintro rfl
  exact h hd

theorem beforeFirst_append_cons {part : List Char} (h : c ∉ part) (rest : List Char) :
    beforeFirst c (part ++ c :: rest) = part := by
  rw [beforeFirst, List.takeWhile_append_of_pos]
  · simp
  · intro d hd
    rw [decide_eq_true_eq]
    rintro rfl
    exact h hd

theorem afterFirst_cons_self (c : Char) (rest : List Char) : afterFirst c (c :: rest) = rest := by
  simp [afterFirst]

theorem afterFirst_append_cons {part : List Char} (h : c ∉ part) (rest : List Char) :
    afterFirst c (part ++ c :: rest) = rest := by
  rw [afterFirst_append h, afterFirst_cons_self]

theorem afterFirst_of_not_mem (h : c ∉ text) : afterFirst c text = [] := by
  have hnil := afterFirst_append h []
  rw [List.append_nil] at hnil
  exact hnil.trans rfl

/-! ### Amounts -/

/-- The number that an amount denotes. -/
def amountValue (amount : List Char) : Option ℚ := (toScaled amount).map Scaled.toRat

/-- The canonical form of a whole part and a fraction. -/
def canonicalAmount (whole fraction : List Char) : List Char :=
  let whole := whole.dropWhile (· = '0')
  let whole := if whole = [] then ['0'] else whole
  if dropZeros fraction = [] then whole else whole ++ ['.'] ++ dropZeros fraction

/-- What `normalizeBip21Amount` accepts, and what it makes of it. -/
theorem normalizeBip21Amount_eq_some {amount n : List Char} {maxDecimals : ℕ} :
    normalizeBip21Amount amount maxDecimals = .ok (some n) ↔
      (beforeFirst '.' amount ≠ [] ∧ (beforeFirst '.' amount).all Char.isDigit ∧
        (afterFirst '.' amount).all Char.isDigit) ∧
      (afterFirst '.' amount).length ≤ maxDecimals ∧
      n = canonicalAmount (beforeFirst '.' amount) (afterFirst '.' amount) := by
  unfold normalizeBip21Amount
  by_cases hempty : amount = []
  · subst hempty
    rw [if_pos rfl]
    refine iff_of_false (fun h => ?_) fun h => h.1.1 rfl
    cases Except.ok.inj h
  · rw [if_neg hempty]
    simp only [bind_eq_ok, refuseIf_eq_ok, pure_eq_ok, not_or, not_not, not_lt, exists_const,
      Option.some.injEq]
    refine and_congr Iff.rfl (and_congr Iff.rfl ?_)
    rw [eq_comm]
    rfl

theorem not_mem_of_all_isDigit (h : text.all Char.isDigit) (hc : c.isDigit = false) : c ∉ text := by
  intro hmem
  rw [List.all_eq_true.mp h c hmem] at hc
  exact absurd hc (by decide)

/-- An amount is its whole part and, where there is a point, its fraction. -/
theorem amount_parts (amount : List Char) :
    ('.' ∉ amount ∧ amount = beforeFirst '.' amount ∧ afterFirst '.' amount = []) ∨
      amount = beforeFirst '.' amount ++ '.' :: afterFirst '.' amount := by
  by_cases hpoint : '.' ∈ amount
  · exact .inr (eq_beforeFirst_append hpoint)
  · exact .inl ⟨hpoint, (beforeFirst_of_not_mem hpoint).symm, afterFirst_of_not_mem hpoint⟩

theorem amountValue_of_digits {amount : List Char} (hne : beforeFirst '.' amount ≠ [])
    (hwhole : (beforeFirst '.' amount).all Char.isDigit)
    (hfraction : (afterFirst '.' amount).all Char.isDigit) :
    amountValue amount = some ((digitsValue (beforeFirst '.' amount ++ afterFirst '.' amount) : ℚ) /
      10 ^ (afterFirst '.' amount).length) := by
  have hsigns : ∀ text : List Char, splitSign (beforeFirst '.' amount ++ text) =
      (false, beforeFirst '.' amount ++ text) := by
    intro text
    obtain ⟨c, rest, hcons⟩ := List.exists_cons_of_ne_nil hne
    have hdigit := List.all_eq_true.mp hwhole c (by rw [hcons]; exact (.head _))
    refine splitSign_digits fun d hd => ?_
    rw [hcons, List.cons_append, List.head?_cons, Option.mem_some_iff] at hd
    subst hd
    constructor <;> rintro rfl <;> exact absurd hdigit (by decide)
  have hsplit : splitSign amount = (false, amount) ∧
      splitDigits amount = some (beforeFirst '.' amount, afterFirst '.' amount) := by
    rcases amount_parts amount with ⟨-, hamount, hnone⟩ | hamount
    · have hsign := hsigns []
      rw [List.append_nil, ← hamount] at hsign
      have hdigits := splitDigits_whole hne hwhole
      rw [← hamount] at hdigits
      rw [hnone, ← hamount]
      exact ⟨hsign, hdigits⟩
    · have hsign := hsigns ('.' :: afterFirst '.' amount)
      rw [← hamount] at hsign
      have hdigits := splitDigits_point hne hwhole hfraction
      rw [← hamount] at hdigits
      exact ⟨hsign, hdigits⟩
  simp only [amountValue, toScaled, hsplit.1, hsplit.2, Option.map_some, Scaled.toRat,
    Bool.false_eq_true, if_false, one_mul, Int.cast_natCast]

/-- The whole part of a canonical form. -/
theorem canonicalWhole_digits {whole : List Char} (hwhole : whole.all Char.isDigit) :
    ∃ zeros rest, whole = List.replicate zeros '0' ++ rest ∧ whole.dropWhile (· = '0') = rest ∧
      rest.all Char.isDigit ∧ rest.dropWhile (· = '0') = rest := by
  refine ⟨(whole.takeWhile (· = '0')).length, whole.dropWhile (· = '0'), ?_, rfl, ?_,
    List.dropWhile_idempotent _ _⟩
  · have hzeros : whole.takeWhile (· = '0') =
        List.replicate (whole.takeWhile (· = '0')).length '0' := by
      refine List.eq_replicate_iff.mpr ⟨rfl, fun c hc => ?_⟩
      have hzero := List.mem_takeWhile_imp hc
      simpa using hzero
    rw [← hzeros, List.takeWhile_append_dropWhile]
  · rw [List.all_eq_true] at hwhole ⊢
    exact fun c hc => hwhole c (List.dropWhile_sublist _ |>.mem hc)

theorem dropZeros_idem (text : List Char) : dropZeros (dropZeros text) = dropZeros text := by
  rw [dropZeros, dropZeros, List.reverse_reverse, List.dropWhile_idempotent]

theorem dropZeros_sublist (text : List Char) : (dropZeros text).Sublist text := by
  have h := (List.dropWhile_sublist (· = '0') (l := text.reverse)).reverse
  rwa [List.reverse_reverse] at h

/-- What the parts of a canonical form are. -/
theorem canonicalAmount_parts {whole : List Char} (fraction : List Char)
    (hwhole : whole.all Char.isDigit) :
    ∃ lead, beforeFirst '.' (canonicalAmount whole fraction) = lead ∧
      afterFirst '.' (canonicalAmount whole fraction) = dropZeros fraction ∧
      lead ≠ [] ∧ lead.all Char.isDigit ∧ canonicalAmount lead (dropZeros fraction) =
        canonicalAmount whole fraction ∧ digitsValue lead = digitsValue whole := by
  obtain ⟨zeros, rest, hsplit, hrest, hdigits, hidem⟩ := canonicalWhole_digits hwhole
  set lead := if rest = [] then ['0'] else rest with hlead
  have hcanonical : canonicalAmount whole fraction =
      if dropZeros fraction = [] then lead else lead ++ ['.'] ++ dropZeros fraction := by
    rw [canonicalAmount, hrest]
  have hleadne : lead ≠ [] := by
    rw [hlead]
    split_ifs with hnil
    · exact List.cons_ne_nil _ _
    · exact hnil
  have hleadall : lead.all Char.isDigit := by
    rw [hlead]
    split_ifs
    · decide
    · exact hdigits
  have hpoint : '.' ∉ lead := not_mem_of_all_isDigit hleadall (by decide)
  have hvalue : digitsValue lead = digitsValue whole := by
    rw [hsplit, digitsValue_zeros_append, hlead]
    split_ifs with hnil
    · rw [hnil]
      rfl
    · rfl
  have hagain : canonicalAmount lead (dropZeros fraction) =
      if dropZeros fraction = [] then lead else lead ++ ['.'] ++ dropZeros fraction := by
    have hdrop : (if lead.dropWhile (· = '0') = [] then ['0'] else lead.dropWhile (· = '0')) =
        lead := by
      rw [hlead]
      by_cases hnil : rest = []
      · rw [if_pos hnil]
        rfl
      · rw [if_neg hnil, hidem, if_neg hnil]
    rw [canonicalAmount, dropZeros_idem, hdrop]
  refine ⟨lead, ?_, ?_, hleadne, hleadall, hagain.trans hcanonical.symm, hvalue⟩
  · rw [hcanonical]
    split_ifs
    · exact beforeFirst_of_not_mem hpoint
    · rw [List.append_assoc]
      exact beforeFirst_append_cons hpoint _
  · rw [hcanonical]
    split_ifs with hnil
    · rw [hnil]
      exact afterFirst_of_not_mem hpoint
    · rw [List.append_assoc]
      exact afterFirst_append_cons hpoint _

/-- **The canonical form of an amount is its own.** -/
theorem normalizeBip21Amount_idem {amount n : List Char} {maxDecimals : ℕ}
    (h : normalizeBip21Amount amount maxDecimals = .ok (some n)) :
    normalizeBip21Amount n maxDecimals = .ok (some n) := by
  obtain ⟨⟨hne, hwhole, hfraction⟩, hmax, rfl⟩ := normalizeBip21Amount_eq_some.mp h
  obtain ⟨lead, hbefore, hafter, hleadne, hleadall, hagain, -⟩ :=
    canonicalAmount_parts (afterFirst '.' amount) hwhole
  have hsub := dropZeros_sublist (afterFirst '.' amount)
  refine normalizeBip21Amount_eq_some.mpr ⟨⟨?_, ?_, ?_⟩, ?_, ?_⟩
  · rwa [hbefore]
  · rwa [hbefore]
  · rw [hafter]
    rw [List.all_eq_true] at hfraction ⊢
    exact fun c hc => hfraction c (hsub.mem hc)
  · rw [hafter]
    exact hsub.length_le.trans hmax
  · rw [hbefore, hafter, hagain]

/-- **The canonical form of an amount denotes the same number.** -/
theorem amountValue_normalizeBip21Amount {amount n : List Char} {maxDecimals : ℕ}
    (h : normalizeBip21Amount amount maxDecimals = .ok (some n)) :
    ∃ v, amountValue amount = some v ∧ amountValue n = some v := by
  obtain ⟨⟨hne, hwhole, hfraction⟩, -, rfl⟩ := normalizeBip21Amount_eq_some.mp h
  obtain ⟨lead, hbefore, hafter, hleadne, hleadall, -, hlead⟩ :=
    canonicalAmount_parts (afterFirst '.' amount) hwhole
  have hsub := dropZeros_sublist (afterFirst '.' amount)
  have hfraction' : (dropZeros (afterFirst '.' amount)).all Char.isDigit := by
    rw [List.all_eq_true] at hfraction ⊢
    exact fun c hc => hfraction c (hsub.mem hc)
  refine ⟨_, amountValue_of_digits hne hwhole hfraction, ?_⟩
  rw [amountValue_of_digits (by rwa [hbefore]) (by rwa [hbefore]) (by rwa [hafter]), hbefore, hafter,
    digitsValue_append lead, hlead, ← digitsValue_append]
  exact congrArg some (fraction_dropZeros _ _)

/-! ### The query -/

/-- The limit of a parameter. -/
def parameterLimit (name : List Char) : ℕ := (uriParameterLimits.lookup name).getD 0

theorem isSafeUriParameter_standard {name : List Char} (h : name ∈ standardParamKeys)
    (value : List Char) {safe : Bool} :
    isSafeUriParameter name value true = .ok safe ↔
      jsLength value ≤ parameterLimit name ∧ safe = true := by
  have hnames : ∀ name ∈ standardParamKeys,
      uriParameterLimits.lookup name = some (parameterLimit name) ∧ name ≠ "feePriority".toList ∧
        name ≠ "kind".toList ∧ name ≠ "method".toList ∧ name ≠ "params".toList := by decide
  obtain ⟨hlimit, hfee, hkind, hmethod, hparams⟩ := hnames name h
  simp only [isSafeUriParameter, hlimit, bind_eq_ok, refuseIf_eq_ok, pure_eq_ok, hfee, hkind,
    hmethod, hparams, false_and, and_false, not_true_eq_false, not_false_eq_true, true_and,
    exists_const, not_lt, and_congr_right_iff]
  exact fun _ => eq_comm

theorem uriParam?_eq_none {params : UriParams} {name : List Char}
    (h : ∀ entry ∈ params, entry.1 ≠ name) : uriParam? params name = none := by
  rw [uriParam?, Keyed.find_eq_none.mpr h]
  rfl

variable {entry : List Char × List Char}

/-- **A pair that was written is read**, where it fits its limit. -/
theorem bip21Pair_queryEntry {query after : Bip21Query} (hkey : entry.1 ∈ standardParamKeys)
    (hnew : ∀ e ∈ query.params, e.1 ≠ entry.1) :
    bip21Pair query (queryEntry entry) = .ok after ↔ jsLength entry.2 ≤ parameterLimit entry.1 ∧
        after = { query with params := query.params ++ [entry] } := by
  obtain ⟨name, value⟩ := entry
  have hnames : ∀ name ∈ standardParamKeys, jsLowerText name = name ∧
      reqMarker.isPrefixOf name = false ∧ isStandardKey name = true := by decide
  obtain ⟨hlower, hmarker, hstandard⟩ := hnames name hkey
  have hequals : '=' ∉ encodeRfc3986Component name := not_mem_encodeRfc3986Component (by decide) name
  have hne : queryEntry (name, value) ≠ [] := List.append_ne_nil_of_right_ne_nil _
    (List.cons_ne_nil _ _)
  have hset : setUriParam query.params name value = query.params ++ [(name, value)] :=
    Keyed.upsert_eq_append hnew
  rw [bip21Pair, if_neg hne, queryEntry, beforeFirst_append_cons hequals,
    afterFirst_append_cons hequals, decodeURIComponent_encodeRfc3986Component,
    decodeURIComponent_encodeRfc3986Component]
  dsimp only
  rw [hlower, hmarker, hstandard, if_neg Bool.false_ne_true, if_pos rfl, bind_eq_ok]
  simp only [isSafeUriParameter_standard hkey]
  constructor
  · rintro ⟨safe, ⟨hlimit, rfl⟩, hafter⟩
    rw [if_pos rfl, bind_eq_ok] at hafter
    obtain ⟨-, -, hafter⟩ := hafter
    exact ⟨hlimit, by rw [← pure_eq_ok.mp hafter, hset]⟩
  · rintro ⟨hlimit, rfl⟩
    refine ⟨true, ⟨hlimit, rfl⟩, ?_⟩
    rw [if_pos rfl, bind_eq_ok]
    refine ⟨(), refuseIf_eq_ok.mpr ?_, by rw [hset]; rfl⟩
    rw [uriParam?_eq_none hnew]
    exact Bool.false_ne_true

/-- **A query that was written is read**, where each of its texts fits its limit. -/
theorem foldlM_bip21Pair {entries : UriParams} {query after : Bip21Query}
    (hkeys : ∀ entry ∈ entries, entry.1 ∈ standardParamKeys)
    (hdistinct : Keyed.Distinct Prod.fst (query.params ++ entries)) :
    (entries.map queryEntry).foldlM bip21Pair query = .ok after ↔
      (∀ entry ∈ entries, jsLength entry.2 ≤ parameterLimit entry.1) ∧
        after = { query with params := query.params ++ entries } := by
  induction entries generalizing query with
  | nil =>
    rw [List.map_nil, List.foldlM_nil, pure_eq_ok, List.append_nil, eq_comm]
    exact (and_iff_right fun _ hnil => absurd hnil List.not_mem_nil).symm
  | cons entry entries ih =>
    have hnew : ∀ e ∈ query.params, e.1 ≠ entry.1 := by
      intro e he hsame
      rw [Keyed.Distinct, List.map_append] at hdistinct
      exact (List.nodup_append.mp hdistinct).2.2 e.1 (List.mem_map_of_mem he) entry.1
        (List.mem_map_of_mem (.head _)) hsame
    have hkey := hkeys entry (.head _)
    have hkeys' : ∀ e ∈ entries, e.1 ∈ standardParamKeys := fun e he =>
      hkeys e (.tail _ he)
    have hnext := @ih { query with params := query.params ++ [entry] } hkeys'
      (by rwa [List.append_assoc])
    rw [List.map_cons, List.foldlM_cons, bind_eq_ok, List.forall_mem_cons]
    simp only [bip21Pair_queryEntry hkey hnew]
    constructor
    · rintro ⟨_, ⟨hlimit, rfl⟩, hrest⟩
      obtain ⟨hlimits, rfl⟩ := hnext.mp hrest
      exact ⟨⟨hlimit, hlimits⟩, by rw [List.append_assoc]; rfl⟩
    · rintro ⟨⟨hlimit, hlimits⟩, rfl⟩
      refine ⟨_, ⟨hlimit, rfl⟩, hnext.mpr ⟨hlimits, ?_⟩⟩
      rw [List.append_assoc]
      rfl

/-! ### The round trip -/

/-- The parameters that are given, in the order of their names. -/
def givenEntries (fields : List (List Char × Option (List Char))) : UriParams :=
  fields.filterMap fun field => field.2.map (field.1, ·)

variable {fields : List (List Char × Option (List Char))}

theorem mem_givenEntries : entry ∈ givenEntries fields ↔ (entry.1, some entry.2) ∈ fields := by
  obtain ⟨name, value⟩ := entry
  simp only [givenEntries, List.mem_filterMap, Option.map_eq_some_iff, Prod.mk.injEq]
  constructor
  · rintro ⟨⟨n, o⟩, hmem, v, hv, rfl, rfl⟩
    rwa [← hv]
  · intro hmem
    exact ⟨_, hmem, value, rfl, rfl, rfl⟩

theorem distinct_givenEntries (h : Keyed.Distinct Prod.fst fields) :
    Keyed.Distinct Prod.fst (givenEntries fields) := by
  induction fields with
  | nil => exact List.nodup_nil
  | cons field fields ih =>
    obtain ⟨hnew, hrest⟩ := h.cons
    obtain ⟨name, value⟩ := field
    cases value with
    | none => exact ih hrest
    | some value =>
      refine List.nodup_cons.mpr ⟨?_, ih hrest⟩
      rintro hmem
      obtain ⟨entry, hentry, hsame⟩ := List.mem_map.mp hmem
      exact hnew _ (mem_givenEntries.mp hentry) hsame

/-- A parameter is found where it is given. -/
theorem uriParam?_givenEntries (h : Keyed.Distinct Prod.fst fields) {name : List Char}
    {value : Option (List Char)} (hmem : (name, value) ∈ fields) :
    uriParam? (givenEntries fields) name = value := by
  cases value with
  | none =>
    refine uriParam?_eq_none fun entry hentry hsame => ?_
    have hfield := mem_givenEntries.mp hentry
    have hfound := (Keyed.find_eq_some h).mpr ⟨hfield, hsame⟩
    rw [(Keyed.find_eq_some h).mpr ⟨hmem, rfl⟩] at hfound
    cases (Prod.mk.inj (Option.some.inj hfound)).2
  | some value =>
    have hentry : (name, value) ∈ givenEntries fields := mem_givenEntries.mpr hmem
    rw [uriParam?, (Keyed.find_eq_some (distinct_givenEntries h)).mpr ⟨hentry, rfl⟩]
    rfl

/-- The three standard parameters, where they are given. -/
def standardEntries (amount label message : Option (List Char)) : UriParams :=
  givenEntries [("amount".toList, amount), ("label".toList, label), ("message".toList, message)]

variable {amount label message : Option (List Char)}

theorem mem_standardEntries : entry ∈ standardEntries amount label message ↔
      (entry.1 = "amount".toList ∧ amount = some entry.2) ∨
        (entry.1 = "label".toList ∧ label = some entry.2) ∨
        (entry.1 = "message".toList ∧ message = some entry.2) := by
  rw [standardEntries, mem_givenEntries]
  simp only [List.mem_cons, List.not_mem_nil, or_false, Prod.mk.injEq, eq_comm (a := some entry.2)]

theorem standardEntries_keys :
    ∀ entry ∈ standardEntries amount label message, entry.1 ∈ standardParamKeys := by
  intro entry hentry
  rcases mem_standardEntries.mp hentry with ⟨hname, -⟩ | ⟨hname, -⟩ | ⟨hname, -⟩ <;>
    rw [hname] <;> decide

theorem standardFields_distinct (amount label message : Option (List Char)) :
    Keyed.Distinct Prod.fst
      [("amount".toList, amount), ("label".toList, label), ("message".toList, message)] := by
  unfold Keyed.Distinct
  simp only [List.map_cons, List.map_nil]
  decide

theorem standardEntries_distinct (amount label message : Option (List Char)) :
    Keyed.Distinct Prod.fst (standardEntries amount label message) :=
  distinct_givenEntries (standardFields_distinct amount label message)

theorem uriParam?_standardEntries (amount label message : Option (List Char)) :
    uriParam? (standardEntries amount label message) "amount".toList = amount ∧
      uriParam? (standardEntries amount label message) "label".toList = label ∧
      uriParam? (standardEntries amount label message) "message".toList = message ∧
      uriParam? (standardEntries amount label message) "tick".toList = none := by
  have hdistinct := standardFields_distinct amount label message
  refine ⟨uriParam?_givenEntries hdistinct (by simp), uriParam?_givenEntries hdistinct (by simp),
    uriParam?_givenEntries hdistinct (by simp), uriParam?_eq_none fun entry hentry htick => ?_⟩
  have hkey := standardEntries_keys entry hentry
  rw [htick] at hkey
  exact absurd hkey (by decide)

/-- The canonical form of an amount, where one is given. -/
def givenAmount (amount : Option (List Char)) : Except String (Option (List Char)) :=
  match amount with
  | none => .ok none
  | some amount => normalizeBip21Amount amount 8

theorem amountDecimalsFor_standardEntries (amount label message : Option (List Char)) :
    amountDecimalsFor (standardEntries amount label message) = 8 := by
  rw [amountDecimalsFor, (uriParam?_standardEntries amount label message).2.2.2]
  rfl

/-- The amount among the parameters is put in its canonical form. -/
theorem bip21Amount_standardEntries (amount label message : Option (List Char)) :
    bip21Amount (standardEntries amount label message) =
      (givenAmount amount).map (standardEntries · label message) := by
  rw [bip21Amount, (uriParam?_standardEntries amount label message).1,
    amountDecimalsFor_standardEntries]
  cases amount with
  | none => rfl
  | some amount =>
    rw [givenAmount]
    dsimp only
    cases normalizeBip21Amount amount 8 with
    | error e => rfl
    | ok n => cases n <;> cases label <;> cases message <;> rfl

/-- What is written for the address, amount, label and message alone. -/
theorem encodeBip21Uri_eq_ok {opts : EncodeBip21Opts} (hparams : opts.params = [])
    {uri : List Char} :
    encodeBip21Uri opts = .ok uri ↔ isUriScheme opts.scheme ∧ opts.address ≠ [] ∧
      ∃ n, givenAmount opts.amount = .ok n ∧
        uri = bip21Text opts.scheme opts.address (standardEntries n opts.label opts.message) := by
  have hmerged : opts.merged = standardEntries opts.amount opts.label opts.message := by
    rw [EncodeBip21Opts.merged, hparams]
    cases opts.amount <;> cases opts.label <;> cases opts.message <;> rfl
  rw [encodeBip21Uri, hmerged, bip21Amount_standardEntries]
  simp only [bind_eq_ok, refuseIf_eq_ok, pure_eq_ok, exists_const, not_not]
  refine and_congr Iff.rfl (and_congr Iff.rfl ?_)
  cases givenAmount opts.amount with
  | error e => simp [Except.map]
  | ok n => simp [Except.map, eq_comm]

/-- A fact about the characters of ASCII is checked on each of them. -/
theorem forall_ascii {P : Char → Prop} (h : ∀ n : Fin 128, P (Char.ofNat n)) (hc : c.toNat < 128) :
    P c := by
  have hchar := h ⟨c.toNat, hc⟩
  rwa [Char.ofNat_toNat] at hchar

/-- A character of a scheme. -/
def isSchemeChar (c : Char) : Bool := c.isLower || c.isDigit || c ∈ ['+', '.', '-']

theorem jsLower_of_isSchemeChar (h : isSchemeChar c = true) : jsLower c = [c] ∧ c ≠ ':' := by
  have hascii : c.toNat < 128 := by
    rw [isSchemeChar] at h
    delta Char.isLower at h
    simp only [Char.isDigit, Bool.or_eq_true, Bool.and_eq_true, decide_eq_true_eq, List.mem_cons,
      List.not_mem_nil, or_false, ge_iff_le] at h
    rcases h with (⟨-, h⟩ | ⟨-, h⟩) | rfl | rfl | rfl
    · exact Nat.lt_of_le_of_lt h (by decide)
    · exact Nat.lt_of_le_of_lt h (by decide)
    all_goals decide
  have hall : ∀ n : Fin 128, isSchemeChar (Char.ofNat n) = true →
      jsLower (Char.ofNat n) = [Char.ofNat n] ∧ Char.ofNat n ≠ ':' := by decide
  exact forall_ascii (P := fun c => isSchemeChar c = true → jsLower c = [c] ∧ c ≠ ':') hall hascii h

theorem isSchemeChar_of_mem {scheme : List Char} (h : isUriScheme scheme) (hc : c ∈ scheme) :
    isSchemeChar c = true := by
  cases scheme with
  | nil => cases hc
  | cons first rest =>
    rw [isUriScheme, Bool.and_eq_true, List.all_eq_true] at h
    rcases List.mem_cons.mp hc with rfl | hc
    · rw [isSchemeChar, h.1, Bool.true_or, Bool.true_or]
    · exact h.2 c hc

theorem jsLowerText_eq_self (h : ∀ c ∈ text, jsLower c = [c]) : jsLowerText text = text := by
  induction text with
  | nil => rfl
  | cons c text ih =>
    rw [jsLowerText, List.flatMap_cons, h c (.head _), ← jsLowerText,
      ih fun d hd => h d (.tail _ hd)]
    rfl

/-- The query of the parameters is cut into them again. -/
theorem splitOn_entries {entries : UriParams} (hne : entries ≠ []) :
    (['&'].intercalate (entries.map queryEntry)).splitOn '&' = entries.map queryEntry := by
  refine List.splitOn_intercalate '&' (fun pair hpair => ?_) (by simpa using hne)
  obtain ⟨entry, -, rfl⟩ := List.mem_map.mp hpair
  rw [queryEntry, List.mem_append, List.mem_cons]
  rintro (hmem | hmem | hmem)
  · exact not_mem_encodeRfc3986Component (by decide) _ hmem
  · exact absurd hmem (by decide)
  · exact not_mem_encodeRfc3986Component (by decide) _ hmem

/-- The pairs of a URI whose address has no question mark. -/
theorem foldlM_bip21Text {address : List Char} {entries : UriParams} {query : Bip21Query}
    (haddress : '?' ∉ address) (hkeys : ∀ entry ∈ entries, entry.1 ∈ standardParamKeys)
    (hdistinct : Keyed.Distinct Prod.fst entries) :
    ((afterFirst '?' (address ++ if entries = [] then [] else
        '?' :: ['&'].intercalate (entries.map queryEntry))).splitOn '&').foldlM bip21Pair ⟨[], []⟩ =
        .ok query ↔
      (∀ entry ∈ entries, jsLength entry.2 ≤ parameterLimit entry.1) ∧ query = ⟨entries, []⟩ := by
  by_cases hnil : entries = []
  · rw [if_pos hnil, List.append_nil, afterFirst_of_not_mem haddress, hnil]
    have hempty : (([] : List Char).splitOn '&').foldlM bip21Pair ⟨[], []⟩ = .ok ⟨[], []⟩ := rfl
    rw [hempty]
    simp [eq_comm]
  · rw [if_neg hnil, afterFirst_append_cons haddress, splitOn_entries hnil,
      foldlM_bip21Pair hkeys (by simpa using hdistinct)]
    rfl

/-- A URI is read back as it was given: the texts as they are, the amount as a number. -/
structure ReadBack (opts : EncodeBip21Opts) (parts : Bip21Parts) : Prop where
  address : parts.address = opts.address
  label : parts.label = opts.label
  message : parts.message = opts.message
  amount : parts.amount.map amountValue = (opts.amount.filter (· ≠ [])).map amountValue

/-- What the reader asks of the texts that a URI carries. -/
structure Carried (opts : EncodeBip21Opts) (uri : List Char) : Prop where
  address : '?' ∉ opts.address
  label : ∀ label, opts.label = some label → jsLength label ≤ 250
  message : ∀ message, opts.message = some message → jsLength message ≤ 250
  amount : ∀ n, givenAmount opts.amount = .ok (some n) → jsLength n ≤ 128
  whole : jsLength uri ≤ uriMaxLength

theorem givenAmount_idem {amount n : Option (List Char)} (h : givenAmount amount = .ok n) :
    givenAmount n = .ok n := by
  cases n with
  | none => rfl
  | some n =>
    cases amount with
    | none => cases Except.ok.inj h
    | some amount => exact normalizeBip21Amount_idem h

theorem amountValue_givenAmount {amount n : Option (List Char)} (h : givenAmount amount = .ok n) :
    n.map amountValue = (amount.filter (· ≠ [])).map amountValue := by
  cases amount with
  | none =>
    obtain rfl := Except.ok.inj h
    rfl
  | some amount =>
    rw [givenAmount] at h
    by_cases hempty : amount = []
    · subst hempty
      obtain rfl := Except.ok.inj h
      rfl
    · rw [Option.filter_some, if_pos (decide_eq_true hempty)]
      cases n with
      | none =>
        rw [normalizeBip21Amount, if_neg hempty] at h
        simp only [bind_eq_ok, pure_eq_ok, reduceCtorEq, and_false, exists_false] at h
      | some n =>
        obtain ⟨v, hamount, hn⟩ := amountValue_normalizeBip21Amount h
        rw [Option.map_some, Option.map_some, hamount, hn]

/-- **What is read of a URI that was written.** -/
theorem parseBip21Uri_bip21Text {scheme address : List Char} {parts : Bip21Parts}
    (hscheme : isUriScheme scheme) (hne : address ≠ []) (haddress : '?' ∉ address)
    (hamount : givenAmount amount = .ok amount) :
    parseBip21Uri (bip21Text scheme address (standardEntries amount label message)) = .ok parts ↔
      jsLength (bip21Text scheme address (standardEntries amount label message)) ≤ uriMaxLength ∧
      (∀ entry ∈ standardEntries amount label message, jsLength entry.2 ≤ parameterLimit entry.1) ∧
      parts = ⟨scheme, address, amount, label, message, standardEntries amount label message, []⟩ := by
  set entries := standardEntries amount label message with hentries
  set body := address ++ if entries = [] then [] else
    '?' :: ['&'].intercalate (entries.map queryEntry) with hbody
  have huri : bip21Text scheme address entries = scheme ++ ':' :: body := rfl
  have hcolon : ':' ∉ scheme := fun hmem =>
    (jsLower_of_isSchemeChar (isSchemeChar_of_mem hscheme hmem)).2 rfl
  have hlower : jsLowerText scheme = scheme := jsLowerText_eq_self fun c hc =>
    (jsLower_of_isSchemeChar (isSchemeChar_of_mem hscheme hc)).1
  have hbefore : beforeFirst ':' (scheme ++ ':' :: body) = scheme := beforeFirst_append_cons hcolon _
  have hafter : afterFirst ':' (scheme ++ ':' :: body) = body := afterFirst_append_cons hcolon _
  have hpart : beforeFirst '?' body = address := by
    rw [hbody]
    split_ifs
    · rw [List.append_nil]
      exact beforeFirst_of_not_mem haddress
    · exact beforeFirst_append_cons haddress _
  have hbodyne : body ≠ [] := List.append_ne_nil_of_left_ne_nil hne _
  have hschemene : scheme ≠ [] := by
    rintro rfl
    exact absurd hscheme (by decide)
  have hmem : ':' ∈ scheme ++ ':' :: body := by simp
  have hpairs : ∀ query, ((afterFirst '?' body).splitOn '&').foldlM bip21Pair ⟨[], []⟩ =
      .ok query ↔ (∀ entry ∈ entries, jsLength entry.2 ≤ parameterLimit entry.1) ∧
        query = ⟨entries, []⟩ := fun query =>
    foldlM_bip21Text haddress standardEntries_keys (standardEntries_distinct amount label message)
  have hamounts : bip21Amount entries = .ok entries := by
    rw [hentries, bip21Amount_standardEntries, hamount]
    rfl
  obtain ⟨hgetAmount, hgetLabel, hgetMessage, -⟩ := uriParam?_standardEntries amount label message
  rw [huri]
  simp only [parseBip21Uri, hbefore, hafter, hpart, hlower, bind_eq_ok, refuseIf_eq_ok,
    mapError_eq_ok, pure_eq_ok, exists_const, not_or, not_not, not_lt, hpairs]
  constructor
  · rintro ⟨-, hlength, -, -, -, -, query, ⟨hlimits, rfl⟩, params, hparams, rfl⟩
    obtain rfl := Except.ok.inj (hamounts.symm.trans hparams)
    exact ⟨hlength, hlimits, by rw [hgetAmount, hgetLabel, hgetMessage]⟩
  · rintro ⟨hlength, hlimits, rfl⟩
    refine ⟨List.append_ne_nil_of_left_ne_nil hschemene _, hlength, ⟨hmem, hschemene⟩, hscheme,
      hbodyne, hne, ⟨entries, []⟩, ⟨hlimits, rfl⟩, entries, hamounts, ?_⟩
    rw [hgetAmount, hgetLabel, hgetMessage]

theorem question_not_mem_address {uri : List Char} {parts : Bip21Parts}
    (h : parseBip21Uri uri = .ok parts) : '?' ∉ parts.address := by
  simp only [parseBip21Uri, bind_eq_ok, refuseIf_eq_ok, mapError_eq_ok, pure_eq_ok] at h
  obtain ⟨_, _, _, _, _, _, _, _, _, _, _, _, _, _, _, _, rfl⟩ := h
  intro hmem
  have hne := List.mem_takeWhile_imp hmem
  exact absurd hne (by decide)

/-- The limits of the parameters of a URI. -/
theorem limits_standardEntries {n label message : Option (List Char)} :
    (∀ entry ∈ standardEntries n label message, jsLength entry.2 ≤ parameterLimit entry.1) ↔
      (∀ amount, n = some amount → jsLength amount ≤ 128) ∧
      (∀ text, label = some text → jsLength text ≤ 250) ∧
      ∀ text, message = some text → jsLength text ≤ 250 := by
  have hamount : parameterLimit "amount".toList = 128 := by decide
  have hlabel : parameterLimit "label".toList = 250 := by decide
  have hmessage : parameterLimit "message".toList = 250 := by decide
  constructor
  · intro h
    refine ⟨fun amount hn => ?_, fun text htext => ?_, fun text htext => ?_⟩
    · rw [← hamount]
      exact h ("amount".toList, amount) (mem_standardEntries.mpr (.inl ⟨rfl, hn⟩))
    · rw [← hlabel]
      exact h ("label".toList, text) (mem_standardEntries.mpr (.inr (.inl ⟨rfl, htext⟩)))
    · rw [← hmessage]
      exact h ("message".toList, text) (mem_standardEntries.mpr (.inr (.inr ⟨rfl, htext⟩)))
  · rintro ⟨h, h', h''⟩ entry hentry
    rcases mem_standardEntries.mp hentry with ⟨hname, hn⟩ | ⟨hname, hn⟩ | ⟨hname, hn⟩
    · rw [hname, hamount]
      exact h _ hn
    · rw [hname, hlabel]
      exact h' _ hn
    · rw [hname, hmessage]
      exact h'' _ hn

/-- A URI is read back exactly where the reader takes what it carries. -/
theorem readBack_iff {opts : EncodeBip21Opts} {uri : List Char} (hparams : opts.params = [])
    (h : encodeBip21Uri opts = .ok uri) :
    (∃ parts, parseBip21Uri uri = .ok parts ∧ ReadBack opts parts) ↔ Carried opts uri := by
  obtain ⟨hscheme, hne, n, hgiven, rfl⟩ := (encodeBip21Uri_eq_ok hparams).mp h
  constructor
  · rintro ⟨parts, hparts, hback⟩
    have haddress : '?' ∉ opts.address := by
      rw [← hback.address]
      exact question_not_mem_address hparts
    obtain ⟨hlength, hlimits, -⟩ :=
      (parseBip21Uri_bip21Text hscheme hne haddress (givenAmount_idem hgiven)).mp hparts
    obtain ⟨hamount, hlabel, hmessage⟩ := limits_standardEntries.mp hlimits
    refine ⟨haddress, hlabel, hmessage, fun amount hamount' => ?_, hlength⟩
    exact hamount amount (Except.ok.inj (hgiven.symm.trans hamount'))
  · rintro ⟨haddress, hlabel, hmessage, hamount, hlength⟩
    have hlimits := limits_standardEntries.mpr
      ⟨fun amount hn => hamount amount (hgiven.trans (congrArg Except.ok hn)), hlabel, hmessage⟩
    refine ⟨_, (parseBip21Uri_bip21Text hscheme hne haddress (givenAmount_idem hgiven)).mpr
      ⟨hlength, hlimits, rfl⟩, ?_⟩
    exact ⟨rfl, rfl, rfl, amountValue_givenAmount hgiven⟩

/-- **A URI that the wallet writes is read back**, exactly where its address has no question mark
and its texts and the URI itself fit the limits of the reader; and the canonical form of an amount
is its own canonical form and denotes the same number. -/
theorem bip21_round_trip :
    (∀ (opts : EncodeBip21Opts) (uri : List Char), opts.params = [] →
      encodeBip21Uri opts = .ok uri →
        ((∃ parts, parseBip21Uri uri = .ok parts ∧ ReadBack opts parts) ↔ Carried opts uri)) ∧
      ∀ (amount n : List Char) (maxDecimals : ℕ),
        normalizeBip21Amount amount maxDecimals = .ok (some n) →
          normalizeBip21Amount n maxDecimals = .ok (some n) ∧
            ∃ v, amountValue amount = some v ∧ amountValue n = some v :=
  ⟨fun _ _ hparams h => readBack_iff hparams h,
    fun _ _ _ h => ⟨normalizeBip21Amount_idem h, amountValue_normalizeBip21Amount h⟩⟩

/-- A payment request with a label that has to be encoded. -/
private def invoice : EncodeBip21Opts where
  scheme := "bitcoin".toList
  address := "1BoatSLRHtKNngkdXEeobR76b53LETtpyT".toList
  amount := some "020.30".toList
  label := some "Alice & Bob's".toList

/-- A request is read back, and its amount is `20.3`. -/
theorem bip21_round_trip_invoice :
    (∃ parts, parseBip21Uri
        "bitcoin:1BoatSLRHtKNngkdXEeobR76b53LETtpyT?amount=20.3&label=Alice%20%26%20Bob%27s".toList =
          .ok parts ∧ ReadBack invoice parts) ∧
      normalizeBip21Amount "20.3".toList 8 = .ok (some "20.3".toList) := by
  refine ⟨(bip21_round_trip.1 invoice _ rfl (by decide)).mpr ⟨by decide, ?_, ?_, ?_, by decide⟩,
    (bip21_round_trip.2 "020.30".toList _ 8 (by decide)).1⟩
  · intro label hlabel
    obtain ⟨⟩ := hlabel
    decide
  · intro message hmessage
    cases hmessage
  · intro n hn
    have hvalue : givenAmount invoice.amount = .ok (some "20.3".toList) := by decide
    obtain rfl := Option.some.inj (Except.ok.inj (hvalue.symm.trans hn))
    decide

/-- An address with a question mark, which the writer takes as any other. -/
private def questionAddress : EncodeBip21Opts where
  scheme := "bitcoin".toList
  address := "1Boat?x".toList

/-- **Not every URI that is written is read back**: an address is cut at its question mark. -/
theorem not_bip21_round_trip :
    ¬((∀ (opts : EncodeBip21Opts) (uri : List Char), opts.params = [] →
      encodeBip21Uri opts = .ok uri → ∃ parts, parseBip21Uri uri = .ok parts ∧ ReadBack opts parts) ∧
      ∀ (amount n : List Char) (maxDecimals : ℕ),
        normalizeBip21Amount amount maxDecimals = .ok (some n) →
          normalizeBip21Amount n maxDecimals = .ok (some n) ∧
            ∃ v, amountValue amount = some v ∧ amountValue n = some v) := by
  rintro ⟨hall, -⟩
  have huri : encodeBip21Uri questionAddress = .ok "bitcoin:1Boat?x".toList := by decide
  obtain ⟨parts, hparts, hback⟩ := hall questionAddress _ rfl huri
  have hmem : '?' ∉ questionAddress.address := by
    rw [← hback.address]
    exact question_not_mem_address hparts
  exact hmem (by decide)

end XchainWallet
