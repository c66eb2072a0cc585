import XchainWallet.Decimal.Scaled
import XchainWallet.Json.Double
import XchainWallet.Matching.Greedy
import XchainWallet.Signers.SignedTx

/-!
# The checks between the built transaction and the signature

One PSBT is built, shown and signed. Before it is signed its outputs are held against what the
wallet asked for: each output has to be a requested one (address and exact amount), one that pays
the wallet itself, or a carrier of the action's bytes, of which the encoding allows so many; and
each requested output has to be there. `checkOutputSet` takes the outputs in their order, and
`assertNoTamper` runs it with the other three checks and throws on the first that fails.

The decomposition of a PSBT and the verification of carrier scripts belong to another package; they
are parameters. Of the decomposition it is used that an address is read off a script: outputs of one
address have one script.
-/

namespace XchainWallet.ConfirmChecks

open Checks Decimal Matching

/-! ### Exact amounts -/

/-- An amount as a decomposition or a request has it. -/
inductive Amount
  | bigint (n : ℤ)
  | number (n : JsNumber)
  | text (s : String)
  | null
  | undefined
deriving DecidableEq

def MAX_SAFE_INTEGER : ℕ := 2 ^ 53 - 1

/-- The integer of a text that `^-?\d+$` matches. -/
def wholeNumber : List Char → Option ℤ
  | '-' :: digits => if Digits digits then some (-digitsValue digits) else none
  | digits => if Digits digits then some (digitsValue digits) else none

/-- The amount as an exact integer, and `none` where it is not one. -/
def toSats : Amount → Option ℤ
  | .bigint n => some n
  | .number q => q.bind fun q =>
      if q.den = 1 ∧ q.num.natAbs ≤ MAX_SAFE_INTEGER then some q.num else none
  | .text s => wholeNumber (jsTrim s.toList)
  | .null => none
  | .undefined => none

/-- Whether both are the same exact integer amount. -/
def sameSats (a b : Amount) : Bool := (toSats a).any fun x => decide (toSats b = some x)

theorem sameSats_iff {a b : Amount} :
    sameSats a b = true ↔ ∃ n, toSats a = some n ∧ toSats b = some n := by
  simp [sameSats, Option.any_eq_true]

/-! ### Zero amounts -/

/-- Whether `digits * 10 ^ exponent` is zero, or so small that its number is. -/
def roundsToZero (digits : ℕ) (exponent : ℤ) : Bool :=
  digits * 10 ^ exponent.toNat * 2 ^ (Json.pointBits + 1) ≤ 10 ^ (-exponent).toNat

/-- The exponent of a numeral, with its letter. -/
def readExponent : List Char → Option ℤ
  | [] => some 0
  | _ :: text =>
    let (negative, digits) := splitSign text
    if Digits digits then some ((if negative then -1 else 1) * digitsValue digits) else none

def isDecimalZero (text : List Char) : Bool :=
  let unsigned := (splitSign text).2
  let mantissa := unsigned.takeWhile (· ∉ ['e', 'E'])
  match splitDigits mantissa, readExponent (unsigned.dropWhile (· ∉ ['e', 'E'])) with
  | some (whole, frac), some exponent =>
    roundsToZero (digitsValue (whole ++ frac)) (exponent - frac.length)
  | _, _ => false

def isRadixZero : List Char → Bool
  | '0' :: c :: digits => c ∈ ['x', 'X', 'o', 'O', 'b', 'B'] ∧ digits ≠ [] ∧ digits.all (· = '0')
  | _ => false

/-- `Number(v) === 0`. -/
def isZero : Amount → Bool
  | .bigint n => n = 0
  | .number q => q = some 0
  | .text s =>
    let text := jsTrim s.toList
    text = [] || isRadixZero text || isDecimalZero text
  | .null => true
  | .undefined => false

theorem roundsToZero_whole (n : ℕ) : roundsToZero n (0 - (([] : List Char).length : ℤ)) = decide (n = 0) := by
  have hpow : 1 < 2 ^ (Json.pointBits + 1) := Nat.one_lt_two_pow (Nat.succ_ne_zero _)
  have hle : n * 2 ^ (Json.pointBits + 1) ≤ 1 ↔ n = 0 := by
    constructor
    · intro h
      by_contra hn
      have := Nat.mul_le_mul (Nat.one_le_iff_ne_zero.mpr hn) (Nat.le_refl (2 ^ (Json.pointBits + 1)))
      omega
    · rintro rfl
      omega
  simpa [roundsToZero] using hle

theorem isDecimalZero_of_digits {text digits : List Char} (hsign : (splitSign text).2 = digits)
    (hdigits : Digits digits) : isDecimalZero text = decide (digitsValue digits = 0) := by
  have hno : ∀ c ∈ digits, decide (c ∉ ['e', 'E']) = true := by
    intro c hc
    have hdigit := List.all_eq_true.mp hdigits.2 c hc
    rw [decide_eq_true_eq]
    rintro hmem
    obtain rfl | rfl : c = 'e' ∨ c = 'E' := by simpa using hmem
    · exact absurd hdigit (by decide)
    · exact absurd hdigit (by decide)
  have htake : digits.takeWhile (· ∉ ['e', 'E']) = digits := List.takeWhile_eq_self_iff.mpr hno
  have hdrop : digits.dropWhile (· ∉ ['e', 'E']) = [] := List.dropWhile_eq_nil_iff.mpr hno
  rw [isDecimalZero, hsign]
  simp only [htake, hdrop, splitDigits_whole hdigits.1 hdigits.2, readExponent, List.append_nil]
  exact roundsToZero_whole _

theorem isRadixZero_of_digits {digits : List Char} (hdigits : Digits digits) :
    isRadixZero digits = false := by
  unfold isRadixZero
  split
  · rename_i c digits
    have hdigit := List.all_eq_true.mp hdigits.2 c (by simp)
    rw [decide_eq_false_iff_not]
    rintro ⟨hmem, -⟩
    simp only [List.mem_cons, List.not_mem_nil, or_false] at hmem
    rcases hmem with rfl | rfl | rfl | rfl | rfl | rfl <;> exact absurd hdigit (by decide)
  · rfl

/-- Of an exact amount, being zero is a matter of the amount. -/
theorem isZero_of_toSats {v : Amount} {n : ℤ} (h : toSats v = some n) :
    isZero v = decide (n = 0) := by
  cases v with
  | bigint m =>
    obtain rfl : m = n := Option.some.inj h
    rfl
  | number q =>
    obtain ⟨q, rfl, hq⟩ := Option.bind_eq_some_iff.mp h
    split at hq
    · rename_i hsafe
      obtain rfl : q.num = n := Option.some.inj hq
      simp [isZero]
    · exact absurd hq (Option.some_ne_none n).symm
  | text s =>
    have hwhole : wholeNumber (jsTrim s.toList) = some n := h
    unfold wholeNumber at hwhole
    rw [isZero]
    split at hwhole
    · rename_i digits hs
      split at hwhole
      · rename_i hdigits
        obtain rfl : -(digitsValue digits : ℤ) = n := Option.some.inj hwhole
        have hzero : isDecimalZero ('-' :: digits) = decide (digitsValue digits = 0) :=
          isDecimalZero_of_digits rfl hdigits
        simp [hs, hzero, isRadixZero]
      · exact absurd hwhole (Option.some_ne_none n).symm
    · split at hwhole
      · rename_i hdigits
        obtain rfl : (digitsValue (jsTrim s.toList) : ℤ) = n := Option.some.inj hwhole
        have hsign : (splitSign (jsTrim s.toList)).2 = jsTrim s.toList := by
          rw [splitSign_digits]
          intro c hc
          have hdigit := List.all_eq_true.mp hdigits.2 c (List.mem_of_mem_head? hc)
          constructor
          · rintro rfl
            exact absurd hdigit (by decide)
          · rintro rfl
            exact absurd hdigit (by decide)
        simp only [isDecimalZero_of_digits hsign hdigits, isRadixZero_of_digits hdigits, hdigits.1]
        simp
      · exact absurd hwhole (Option.some_ne_none n).symm
  | null | undefined => exact absurd h (Option.some_ne_none n).symm

/-! ### Decomposed transactions -/

structure PsbtInput where
  prevTxHash : Option String
  prevTxIndex : JsNumber
  value : Amount
  scriptPubKeyHex : Option String
  scriptType : Option ScriptType
  redeemScriptHex : Option String
  witnessScriptHex : Option String
  address : Option String
deriving DecidableEq

/-- The address is `none` where it is missing or null. -/
structure PsbtOutput where
  address : Option JsField
  scriptPubKeyHex : Option String
  scriptType : Option ScriptType
  value : Amount
deriving DecidableEq

structure Decomposed where
  inputs : List PsbtInput
  outputs : List PsbtOutput

def P2SH_TYPES : List ScriptType := [.p2sh, .p2shP2wpkh, .p2shP2wsh]

def P2WSH_TYPES : List ScriptType := [.p2wsh]

/-- Two script types of one script: the nested ones may be told apart by what lies beside it. -/
def SameScriptType (t u : Option ScriptType) : Prop :=
  t = u ∨ (∃ a ∈ P2SH_TYPES, t = some a) ∧ ∃ b ∈ P2SH_TYPES, u = some b

instance (t u : Option ScriptType) : Decidable (SameScriptType t u) :=
  inferInstanceAs (Decidable (_ ∨ _))

/-- Addresses are read off scripts: outputs of one address have one script. -/
def ReadOffScripts (outputs : List PsbtOutput) : Prop :=
  ∀ a ∈ outputs, ∀ b ∈ outputs, a.address = b.address → a.address ≠ none →
    a.scriptPubKeyHex = b.scriptPubKeyHex ∧ SameScriptType a.scriptType b.scriptType

instance (outputs : List PsbtOutput) : Decidable (ReadOffScripts outputs) :=
  inferInstanceAs (Decidable (∀ a ∈ outputs, ∀ b ∈ outputs, _ → _ → _))

/-! ### Carriers -/

/-- The encoding, in upper case. -/
inductive CarrierEncoding
  | none
  | opReturn
  | p2sh
  | p2wsh
  | multisign
  | other
deriving DecidableEq

/-- `String(encoding || '').toUpperCase()`. -/
def CarrierEncoding.ofText (encoding : Option String) : CarrierEncoding :=
  match String.ofList ((encoding.getD "").toList.flatMap jsUpper) with
  | "" => .none
  | "OP_RETURN" => .opReturn
  | "P2SH" => .p2sh
  | "P2WSH" => .p2wsh
  | "MULTISIGN" => .multisign
  | _ => .other

def isOpReturnOutput (out : PsbtOutput) : Bool := out.scriptPubKeyHex.any (startsWithNoCase "6a")

def isCarrier (encoding : CarrierEncoding) (out : PsbtOutput) : Bool :=
  match encoding with
  | .opReturn => isOpReturnOutput out && isZero out.value
  | .p2sh => out.scriptType.any (· ∈ P2SH_TYPES)
  | .p2wsh => out.scriptType.any (· ∈ P2WSH_TYPES)
  | .multisign => decide (out.scriptType = some .unknown) && !isOpReturnOutput out
  | .none => false
  | .other => false

def carrierAllowanceFor (encoding : CarrierEncoding) : ℤ := if encoding = .none then 0 else 1

def CHUNK_PAYLOAD_BYTES : CarrierEncoding → Option ℕ
  | .p2sh => some 476
  | .p2wsh => some 476
  | .multisign => some 60
  | .none => Option.none
  | .opReturn => Option.none
  | .other => Option.none

def expectedCarrierAllowance (encoding : CarrierEncoding) (payloadByteLen : JsNumber) : ℤ :=
  if encoding = .none then 0
  else if encoding = .opReturn then 1
  else
    match CHUNK_PAYLOAD_BYTES encoding, payloadByteLen with
    | Option.none, _ => 0
    | some _, Option.none => 1
    | some per, some len => ⌈(max 0 len + 16) / per⌉ + 1

def exactChunkCarrierCount (encoding : CarrierEncoding) (payloadByteLen : JsNumber) : Option ℕ := do
  let per ← if encoding = .p2sh ∨ encoding = .p2wsh then CHUNK_PAYLOAD_BYTES encoding else Option.none
  let len ← payloadByteLen
  if len.den = 1 ∧ 0 ≤ len.num ∧ len.num.natAbs ≤ MAX_SAFE_INTEGER then
    some (max 1 ⌈len / per⌉.toNat)
  else Option.none

/-! ### The expected outputs -/

/-- An output the wallet asks the encoder for; the address as `String` shows it. -/
structure RequestedOutput where
  address : String
  value : Amount
deriving DecidableEq

structure AddressedOutput where
  address : String
  value : Amount
  isAds : Bool
deriving DecidableEq

/-- The allowance is `none` where it is no finite number. -/
structure ExpectedOutputs where
  addressed : List AddressedOutput
  encoding : CarrierEncoding
  carrierAllowance : Option ℤ
  carrierExactCount : Option ℕ

def buildExpectedOutputs (customOutputs : List RequestedOutput) (encoding : Option String)
    (adsOutput : Option RequestedOutput) (payloadByteLen : JsNumber) : ExpectedOutputs :=
  let enc := CarrierEncoding.ofText encoding
  { addressed := customOutputs.map fun o =>
      { address := o.address
        value := o.value
        isAds := adsOutput.any fun ads =>
          decide (o.address = ads.address) && sameSats o.value ads.value }
    encoding := enc
    carrierAllowance := some (expectedCarrierAllowance enc payloadByteLen)
    carrierExactCount := exactChunkCarrierCount enc payloadByteLen }

/-- The number of carriers the check lets pass. -/
def ExpectedOutputs.carriers (expected : ExpectedOutputs) : ℕ :=
  (expected.carrierAllowance.getD (carrierAllowanceFor expected.encoding)).toNat

/-! ### The output set -/

structure UnexpectedOutput where
  index : ℕ
  address : Option JsField
  value : Amount
  scriptType : Option ScriptType
deriving DecidableEq

structure OutputSetResult where
  ok : Bool
  unexpected : List UnexpectedOutput
  missing : List AddressedOutput
  carrierCount : ℕ

/-- The output pays the expected address the expected amount. -/
def pays (s : AddressedOutput) (out : PsbtOutput) : Bool :=
  decide (out.address = some (.text s.address)) && sameSats s.value out.value

/-- The output pays an address of the wallet. -/
def paysOwn (ownAddresses : List String) (out : PsbtOutput) : Bool :=
  (out.address.bind JsField.nonempty?).any (· ∈ ownAddresses)

def checkOutputSet (psbtHex : String) (expected : ExpectedOutputs) (ownAddresses : List String)
    (decomposePsbt : String → Decomposed) : OutputSetResult :=
  let outcome := sort pays (paysOwn ownAddresses) (isCarrier expected.encoding) expected.addressed
    expected.carriers 0 (decomposePsbt psbtHex).outputs
  { ok := outcome.refused = [] ∧ outcome.missing = []
    unexpected := outcome.refused.map fun (i, out) => ⟨i, out.address, out.value, out.scriptType⟩
    missing := outcome.missing
    carrierCount := outcome.used }

/-- **The partition.** The outputs are the expected ones, each paid once at its address and exact
value, outputs to the wallet's own addresses, and no more carriers than allowed. -/
def Partitioned (outputs : List PsbtOutput) (expected : ExpectedOutputs)
    (ownAddresses : List String) : Prop :=
  Splits pays (paysOwn ownAddresses) (isCarrier expected.encoding) expected.addressed
    expected.carriers outputs

theorem pays_iff {s : AddressedOutput} {out : PsbtOutput} :
    pays s out = true ↔ out.address = some (.text s.address) ∧
      ∃ n, toSats s.value = some n ∧ toSats out.value = some n := by
  rw [pays, Bool.and_eq_true, decide_eq_true_eq, sameSats_iff]

theorem difunctional_pays : Difunctional pays := by
  intro s t a b hsa hta hsb
  obtain ⟨hsa, n, hsn, han⟩ := pays_iff.mp hsa
  obtain ⟨hta, m, htm, ham⟩ := pays_iff.mp hta
  obtain ⟨hsb, k, hsk, hbk⟩ := pays_iff.mp hsb
  have hnm : n = m := Option.some.inj (han.symm.trans ham)
  have hnk : n = k := Option.some.inj (hsn.symm.trans hsk)
  refine pays_iff.mpr ⟨hsb.trans (hsa.symm.trans hta), m, htm, ?_⟩
  rw [hbk, ← hnk, hnm]

theorem isCarrier_congr {encoding : CarrierEncoding} {a b : PsbtOutput}
    (hscript : a.scriptPubKeyHex = b.scriptPubKeyHex) (htype : SameScriptType a.scriptType b.scriptType)
    (hzero : isZero a.value = isZero b.value) : isCarrier encoding a = isCarrier encoding b := by
  have hop : isOpReturnOutput a = isOpReturnOutput b := by rw [isOpReturnOutput, isOpReturnOutput, hscript]
  obtain htype | ⟨⟨t, ht, hat⟩, ⟨u, hu, hbu⟩⟩ := htype
  · simp only [isCarrier, hop, hzero, htype]
  · have hnested : ∀ t ∈ P2SH_TYPES, t ∉ P2WSH_TYPES ∧ t ≠ .unknown := by decide
    simp only [isCarrier, hop, hzero, hat, hbu, Option.any_some, ht, hu, (hnested t ht).1,
      (hnested u hu).1, Option.some.injEq, (hnested t ht).2, (hnested u hu).2]

theorem uniform_outputs {outputs : List PsbtOutput} (h : ReadOffScripts outputs)
    (ownAddresses : List String) (encoding : CarrierEncoding) :
    Uniform pays (paysOwn ownAddresses) (isCarrier encoding) outputs := by
  intro s a ha b hb hsa hsb
  obtain ⟨haddr, n, hsn, han⟩ := pays_iff.mp hsa
  obtain ⟨hbddr, m, hsm, hbm⟩ := pays_iff.mp hsb
  have hnm : n = m := Option.some.inj (hsn.symm.trans hsm)
  have hsame : a.address = b.address := haddr.trans hbddr.symm
  obtain ⟨hscript, htype⟩ := h a (Multiset.mem_coe.mp ha) b (Multiset.mem_coe.mp hb) hsame
    (haddr ▸ Option.some_ne_none _)
  refine ⟨by rw [paysOwn, paysOwn, hsame], isCarrier_congr hscript htype ?_⟩
  rw [isZero_of_toSats han, isZero_of_toSats hbm, hnm]

/-- The check reports ok exactly when the outputs can be partitioned. -/
theorem checkOutputSet_ok {decomposePsbt : String → Decomposed} {psbtHex : String}
    (h : ReadOffScripts (decomposePsbt psbtHex).outputs) (expected : ExpectedOutputs)
    (ownAddresses : List String) :
    (checkOutputSet psbtHex expected ownAddresses decomposePsbt).ok = true ↔
      Partitioned (decomposePsbt psbtHex).outputs expected ownAddresses := by
  rw [checkOutputSet, decide_eq_true_eq]
  exact sort_ok_iff difunctional_pays (uniform_outputs h ownAddresses expected.encoding)

/-! ### The other checks -/

structure ForeignInput where
  index : ℕ
  address : String
  outpoint : Option String × JsNumber
deriving DecidableEq

/-- The inputs whose address is not the wallet's. -/
def checkInputOwnership (psbtHex : String) (ownAddresses : List String)
    (decomposePsbt : String → Decomposed) : List ForeignInput :=
  (decomposePsbt psbtHex).inputs.zipIdx.filterMap fun (input, index) =>
    input.address.bind fun address =>
      if address = "" ∨ address ∈ ownAddresses then none
      else some ⟨index, address, (input.prevTxHash, input.prevTxIndex)⟩

/-- What the decoder reads out of a PSBT. -/
structure DecodedAction where
  ok : Bool
  actionString : Option String
  reason : Option String
deriving DecidableEq

structure ActionByteMatch where
  ok : Bool
  skipped : Bool
  decoded : Option DecodedAction
  reason : Option String

def checkActionByteMatch (psbtHex : String) (actionString : Option String)
    (encoding : CarrierEncoding) (decodeActionFromPsbt : String → Option DecodedAction) :
    ActionByteMatch :=
  if encoding ≠ .opReturn then ⟨true, true, none, none⟩
  else
    let decoded := decodeActionFromPsbt psbtHex
    if decoded.any (·.ok) = false then
      let reason := (decoded.bind (·.reason)).filter (· ≠ "")
      ⟨false, false, decoded, some (reason.getD "decode-failed")⟩
    else if decoded.bind (·.actionString) = none ∨ decoded.bind (·.actionString) ≠ actionString then
      ⟨false, false, decoded, some "action-string-mismatch"⟩
    else ⟨true, false, decoded, none⟩

/-- The payload handed to the encoder beside the action. -/
inductive RawData
  | text (s : String)
  | bytes (bytes : List UInt8)

/-- What the verification of carrier scripts is asked about. -/
structure CarrierCheck where
  psbt : String
  carrierScripts : List String
  encoding : CarrierEncoding
  actionString : Option String
  rawData : Option RawData
  rawDataCompressed : Bool
  network : Option String
  callerIdentities : List String

structure CarrierVerdict where
  ok : Bool
  skipped : Bool
  reason : Option String
  checked : ℕ
deriving DecidableEq

def checkCarrierScripts (check : CarrierCheck)
    (verifyCarrierScripts : Option (CarrierCheck → CarrierVerdict)) : CarrierVerdict :=
  if check.encoding ≠ .p2sh ∧ check.encoding ≠ .p2wsh then ⟨true, true, none, 0⟩
  else
    match verifyCarrierScripts with
    | none => ⟨false, false, some "no-verifier", 0⟩
    | some verify => verify check

/-! ### No tamper -/

inductive TamperDetails
  | outputs (outputs : List UnexpectedOutput) (expected : List AddressedOutput)
  | missing (missing : List AddressedOutput) (expected : List AddressedOutput)
  | inputs (inputs : List ForeignInput)
  | decoded (decoded : Option DecodedAction) (reason : Option String)
  | carrier (reason : Option String) (checked : ℕ)
  | carrierCount (expected outputs : ℕ)
  | reason (reason : String)

structure TamperDetectedError where
  message : String
  details : TamperDetails

def ACTION_MISMATCH : String :=
  "The action encoded in the transaction does not match what you approved."

structure TamperArgs where
  psbtHex : String
  expected : ExpectedOutputs
  ownAddresses : List String
  actionString : Option String
  psbt : String
  carrierScripts : List String
  rawData : Option RawData
  rawDataCompressed : Bool
  network : Option String

/-- The question that `assertNoTamper` puts to the carrier check. -/
def TamperArgs.carrierCheck (args : TamperArgs) : CarrierCheck :=
  { psbt := args.psbt
    carrierScripts := args.carrierScripts
    encoding := args.expected.encoding
    actionString := args.actionString
    rawData := args.rawData
    rawDataCompressed := args.rawDataCompressed
    network := args.network
    callerIdentities := args.ownAddresses }

structure TamperChecks where
  outputSet : OutputSetResult
  actionBytes : ActionByteMatch
  carrier : CarrierVerdict

/-- The functions of the other package. -/
structure PsbtTools where
  decomposePsbt : String → Decomposed
  decodeActionFromPsbt : String → Option DecodedAction
  verifyCarrierScripts : Option (CarrierCheck → CarrierVerdict)

def assertNoTamper (tools : PsbtTools) (args : TamperArgs) :
    Except TamperDetectedError TamperChecks := do
  let outputSet :=
    checkOutputSet args.psbtHex args.expected args.ownAddresses tools.decomposePsbt
  refuseIf (outputSet.unexpected ≠ [])
    ⟨"The transaction contains " ++ toString outputSet.unexpected.length ++
      " output(s) you did not approve.",
      .outputs outputSet.unexpected args.expected.addressed⟩
  refuseIf (outputSet.missing ≠ [])
    ⟨"The transaction is missing " ++ toString outputSet.missing.length ++
      " output(s) you approved.",
      .missing outputSet.missing args.expected.addressed⟩
  let foreign := checkInputOwnership args.psbtHex args.ownAddresses tools.decomposePsbt
  refuseIf (foreign ≠ [])
    ⟨"The transaction spends " ++ toString foreign.length ++
      " coin(s) this wallet does not hold.", .inputs foreign⟩
  let actionBytes := checkActionByteMatch args.psbtHex args.actionString args.expected.encoding
    tools.decodeActionFromPsbt
  refuseIf (actionBytes.ok = false)
    ⟨ACTION_MISMATCH, .decoded actionBytes.decoded actionBytes.reason⟩
  let carrier := checkCarrierScripts args.carrierCheck tools.verifyCarrierScripts
  refuseIf (carrier.ok = false) ⟨ACTION_MISMATCH, .carrier carrier.reason carrier.checked⟩
  refuseIf (args.expected.carrierExactCount.any (· ≠ outputSet.carrierCount) = true)
    ⟨ACTION_MISMATCH,
      .carrierCount (args.expected.carrierExactCount.getD 0) outputSet.carrierCount⟩
  pure ⟨outputSet, actionBytes, carrier⟩

/-- What an accepted transaction passed. -/
structure NoTamper (tools : PsbtTools) (args : TamperArgs) (checks : TamperChecks) : Prop where
  outputSet : checks.outputSet =
    checkOutputSet args.psbtHex args.expected args.ownAddresses tools.decomposePsbt
  ok : checks.outputSet.unexpected = [] ∧ checks.outputSet.missing = []
  owned : checkInputOwnership args.psbtHex args.ownAddresses tools.decomposePsbt = []
  actionBytes : (checkActionByteMatch args.psbtHex args.actionString args.expected.encoding
    tools.decodeActionFromPsbt).ok = true
  carrier : (checkCarrierScripts args.carrierCheck tools.verifyCarrierScripts).ok = true
  count : ∀ n, args.expected.carrierExactCount = some n → checks.outputSet.carrierCount = n

theorem noTamper_of_ok {tools : PsbtTools} {args : TamperArgs} {checks : TamperChecks}
    (h : assertNoTamper tools args = .ok checks) : NoTamper tools args checks := by
  unfold assertNoTamper at h
  obtain ⟨_, hunexpected, h⟩ := bind_eq_ok.mp h
  obtain ⟨_, hmissing, h⟩ := bind_eq_ok.mp h
  obtain ⟨_, hforeign, h⟩ := bind_eq_ok.mp h
  obtain ⟨_, haction, h⟩ := bind_eq_ok.mp h
  obtain ⟨_, hcarrier, h⟩ := bind_eq_ok.mp h
  obtain ⟨_, hcount, h⟩ := bind_eq_ok.mp h
  rw [refuseIf_eq_ok] at hunexpected hmissing hforeign haction hcarrier hcount
  obtain rfl := pure_eq_ok.mp h
  refine ⟨rfl, ⟨not_not.mp hunexpected, not_not.mp hmissing⟩, not_not.mp hforeign,
    Bool.eq_true_of_not_eq_false haction, Bool.eq_true_of_not_eq_false hcarrier, ?_⟩
  intro n hn
  rw [hn, Option.any_some, decide_eq_true_eq, ne_eq, not_not] at hcount
  exact hcount.symm

/-! ### Where the value goes -/

/-- The verification of carrier scripts is sound for a transaction: where it answers ok, the
transaction has as many chunk outputs as the payload needs, none of them a payment or change. -/
def CarrierCheckSound (tools : PsbtTools) (args : TamperArgs) (Chunk : PsbtOutput → Prop) : Prop :=
  ∀ verify, tools.verifyCarrierScripts = some verify → (verify args.carrierCheck).ok = true →
    ∃ chunks : Multiset PsbtOutput, chunks ≤ (tools.decomposePsbt args.psbtHex).outputs ∧
      (∀ n, args.expected.carrierExactCount = some n → n ≤ chunks.card) ∧
      ∀ out ∈ chunks, Chunk out ∧ ¬ paysOwn args.ownAddresses out = true ∧
        ∀ s ∈ args.expected.addressed, ¬ pays s out = true

/-- The outputs are the requested ones, change and carriers; the carriers are as many as allowed,
and where the payload says how many it needs, exactly that many and all of them chunks. -/
def Accounted (tools : PsbtTools) (args : TamperArgs) : Prop :=
  ∃ paid change carriers : Multiset PsbtOutput,
    (tools.decomposePsbt args.psbtHex).outputs = paid + change + carriers ∧
    Multiset.Rel (fun s out => pays s out = true) args.expected.addressed paid ∧
    (∀ out ∈ change, paysOwn args.ownAddresses out = true) ∧
    (∀ out ∈ carriers, isCarrier args.expected.encoding out = true) ∧
    carriers.card ≤ args.expected.carriers ∧
    (∀ n, args.expected.carrierExactCount = some n → carriers.card = n) ∧
    ∀ Chunk, CarrierCheckSound tools args Chunk →
      args.expected.encoding = .p2sh ∨ args.expected.encoding = .p2wsh →
      args.expected.carrierExactCount ≠ none → ∀ out ∈ carriers, Chunk out

theorem accounted_of_ok {tools : PsbtTools} {args : TamperArgs} {checks : TamperChecks}
    (h : assertNoTamper tools args = .ok checks) : Accounted tools args := by
  obtain ⟨houtputs, ⟨hunexpected, hmissing⟩, -, -, hcarrier, hcount⟩ := noTamper_of_ok h
  rw [houtputs] at hunexpected hmissing hcount
  have hok : (sort pays (paysOwn args.ownAddresses) (isCarrier args.expected.encoding)
      args.expected.addressed args.expected.carriers 0
      (tools.decomposePsbt args.psbtHex).outputs).Ok := ⟨List.map_eq_nil_iff.mp hunexpected, hmissing⟩
  obtain ⟨hplaces, paid, change, carriers, hitems, hrel, hchange, hcarriers, hcard⟩ :=
    splitsWith_of_sort_ok hok
  have hexact : ∀ n, args.expected.carrierExactCount = some n → carriers.card = n :=
    fun n hn => hcard.trans (hcount n hn)
  refine ⟨paid, change, carriers, hitems, hrel, hchange, hcarriers, hcard.trans_le hplaces, hexact, ?_⟩
  intro Chunk hsound hchunk hsome
  obtain ⟨n, hn⟩ := Option.ne_none_iff_exists'.mp hsome
  have hlane : ¬ (args.carrierCheck.encoding ≠ .p2sh ∧ args.carrierCheck.encoding ≠ .p2wsh) := by
    rintro ⟨hp2sh, hp2wsh⟩
    exact hchunk.elim hp2sh hp2wsh
  unfold checkCarrierScripts at hcarrier
  rw [if_neg hlane] at hcarrier
  cases hverify : tools.verifyCarrierScripts with
  | none =>
    rw [hverify] at hcarrier
    exact absurd hcarrier Bool.false_ne_true
  | some verify =>
    rw [hverify] at hcarrier
    obtain ⟨chunks, hle, hmany, hchunks⟩ := hsound verify hverify hcarrier
    rw [hitems] at hle
    have heq : chunks = carriers := by
      refine eq_spares_of_le hrel hchange hle (fun out hout => (hchunks out hout).2) ?_
      rw [hexact n hn]
      exact hmany n hn
    exact fun out hout => (hchunks out (heq ▸ hout)).1

/-- **The output check decides whether the outputs can be partitioned** into the expected ones,
change and carriers, whatever the order of the outputs and of the expected ones; and in a
transaction that is accepted no output lies outside these classes. -/
theorem checkOutputSet_partitions (tools : PsbtTools)
    (hscripts : ∀ psbtHex, ReadOffScripts (tools.decomposePsbt psbtHex).outputs) :
    (∀ psbtHex expected ownAddresses,
      (checkOutputSet psbtHex expected ownAddresses tools.decomposePsbt).ok = true ↔
        Partitioned (tools.decomposePsbt psbtHex).outputs expected ownAddresses) ∧
    (∀ psbtHex psbtHex' expected expected' ownAddresses ownAddresses',
      (tools.decomposePsbt psbtHex).outputs.Perm (tools.decomposePsbt psbtHex').outputs →
      expected.addressed.Perm expected'.addressed → expected.encoding = expected'.encoding →
      expected.carrierAllowance = expected'.carrierAllowance →
      (∀ address, address ∈ ownAddresses ↔ address ∈ ownAddresses') →
      (checkOutputSet psbtHex expected ownAddresses tools.decomposePsbt).ok =
        (checkOutputSet psbtHex' expected' ownAddresses' tools.decomposePsbt).ok) ∧
    ∀ args checks, assertNoTamper tools args = .ok checks → Accounted tools args := by
  refine ⟨fun psbtHex expected own => checkOutputSet_ok (hscripts psbtHex) expected own, ?_,
    fun args checks h => accounted_of_ok h⟩
  intro psbtHex psbtHex' expected expected' own own' houtputs haddressed hencoding hallowance hown
  rw [Bool.eq_iff_iff, checkOutputSet_ok (hscripts psbtHex), checkOutputSet_ok (hscripts psbtHex')]
  have hcarriers : expected.carriers = expected'.carriers := by
    rw [ExpectedOutputs.carriers, ExpectedOutputs.carriers, hencoding, hallowance]
  have hpaysOwn : paysOwn own = paysOwn own' := by
    funext out
    simp only [paysOwn, hown]
  rw [Partitioned, Partitioned, hcarriers, hpaysOwn, hencoding, Multiset.coe_eq_coe.mpr houtputs,
    Multiset.coe_eq_coe.mpr haddressed]

/-- A PSBT that pays a recipient and change and carries an action. -/
private def sendTools : PsbtTools :=
  { decomposePsbt := fun _ =>
      { inputs := []
        outputs := [⟨none, some "6a1cdeadbeef", some .unknown, .number (some 0)⟩,
          ⟨some (.text "recipient"), some "0014dd", some .p2wpkh, .text "100000"⟩,
          ⟨some (.text "change"), some "0014aa", some .p2wpkh, .number (some 55000)⟩] }
    decodeActionFromPsbt := fun _ => some ⟨true, some "SEND|0|GOLD|5|recipient", none⟩
    verifyCarrierScripts := none }

private def sendArgs : TamperArgs :=
  { psbtHex := "70736274"
    expected := buildExpectedOutputs [⟨"recipient", .number (some 100000)⟩] (some "op_return") none none
    ownAddresses := ["source", "change"]
    actionString := some "SEND|0|GOLD|5|recipient"
    psbt := "70736274"
    carrierScripts := []
    rawData := none
    rawDataCompressed := false
    network := some "regtest" }

theorem checkOutputSet_partitions_send :
    Partitioned (sendTools.decomposePsbt "70736274").outputs sendArgs.expected
      sendArgs.ownAddresses ∧ Accounted sendTools sendArgs := by
  have hscripts : ReadOffScripts (sendTools.decomposePsbt "70736274").outputs := by decide
  obtain ⟨hpartition, -, haccepted⟩ := checkOutputSet_partitions sendTools fun _ => hscripts
  refine ⟨(hpartition _ _ _).mp (by decide), ?_⟩
  have hok : (assertNoTamper sendTools sendArgs).toOption.isSome = true := by decide
  cases hresult : assertNoTamper sendTools sendArgs with
  | error e =>
    rw [hresult] at hok
    exact absurd hok Bool.false_ne_true
  | ok checks => exact haccepted sendArgs checks hresult

end XchainWallet.ConfirmChecks
