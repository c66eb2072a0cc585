import XchainWallet.Checks.Refuse
import XchainWallet.Decimal.Plain
import XchainWallet.Uri.UriText

/-!
# Plans of a child that pays for its parent

`planCpfpChild` spends the last output of a parent that belongs to the wallet in a child whose fee
brings both up to a fee rate. `planCpfpChild_pays` says what a returned plan pays, and that no value
is lost. The fee rate is a whole number here: the code multiplies any other in floating point.
-/

namespace XchainWallet

open Checks

/-! ### Amounts in satoshi -/

/-- An amount of a decomposition: a bigint, a number, a text, or anything else. -/
inductive SatsValue
  | bigint (n : ℤ)
  | number (n : JsNumber)
  | text (s : String)
  | other
deriving DecidableEq

/-- `Number.MAX_SAFE_INTEGER`. -/
def maxSafe : ℕ := 2 ^ 53 - 1

/-- The number, where it is a safe integer. -/
def safeInteger? (n : JsNumber) : Option ℤ :=
  n.bind fun q => if q.den = 1 ∧ q.num.natAbs ≤ maxSafe then some q.num else none

/-- The number, where it is a positive safe integer. -/
def safePositive? (n : JsNumber) : Option ℕ :=
  ((safeInteger? n).filter (0 < ·)).map Int.toNat

def SatsValue.exactSats? : SatsValue → Option ℕ
  | bigint n => if 0 ≤ n then some n.toNat else none
  | number n => ((safeInteger? n).filter (0 ≤ ·)).map Int.toNat
  | text s => if Decimal.Digits s.toList then some (Decimal.digitsValue s.toList) else none
  | other => none

/-- `sats(value, label)` of a planner. -/
def satsOf (planner : String) (value : SatsValue) (label : String) : Except String ℕ :=
  orRefuse value.exactSats? s!"{planner}: {label} must be an exact non-negative satoshi amount"

/-- An amount as the encoder gets it. -/
inductive WireAmount
  | number (n : ℕ)
  | text (s : String)
deriving DecidableEq

def wireAmount (value : ℕ) : WireAmount :=
  if value ≤ maxSafe then .number value else .text value.repr

/-- The satoshis that an amount stands for. -/
def WireAmount.sats : WireAmount → ℕ
  | number n => n
  | text s => Decimal.digitsValue s.toList

@[simp]
theorem sats_wireAmount (value : ℕ) : (wireAmount value).sats = value := by
  rw [wireAmount]
  split
  · rfl
  · exact Decimal.digitsValue_repr value

theorem safePositive?_eq_some {n : JsNumber} {k : ℕ} (h : safePositive? n = some k) :
    n = some (k : ℚ) ∧ 0 < k := by
  obtain ⟨i, hi, rfl⟩ := Option.map_eq_some_iff.mp h
  obtain ⟨hsafe, hpos⟩ := Option.filter_eq_some_iff.mp hi
  obtain ⟨q, rfl, hq⟩ := Option.bind_eq_some_iff.mp hsafe
  have hpos : 0 < i := of_decide_eq_true hpos
  split at hq
  · next hwhole =>
    obtain ⟨⟩ := hq
    have hnum : (q.num : ℚ) = q := Rat.coe_int_num_of_den_eq_one hwhole.1
    have hcast : ((q.num.toNat : ℤ) : ℚ) = q := by
      rw [Int.toNat_of_nonneg hpos.le, hnum]
    exact ⟨congrArg some hcast.symm, by omega⟩
  · cases hq

/-! ### The parent -/

/-- An output of a decomposition. -/
structure DecomposedOutput where
  address : Option String
  value : SatsValue
  scriptType : Option String
  scriptPubKeyHex : Option String
  scriptPubKey : Option String
deriving DecidableEq

/-- An input of a decomposition. -/
structure DecomposedInput where
  prevTxHash : Option String
  txid : Option String
  prevTxIndex : Option JsNumber
  vout : Option JsNumber
  value : SatsValue
  scriptPubKeyHex : Option String
  scriptPubKey : Option String
  sequence : JsNumber
deriving DecidableEq

/-- A `DecomposedPsbt`: its inputs and its outputs. -/
structure DecomposedTx where
  inputs : List DecomposedInput
  outputs : List DecomposedOutput
deriving DecidableEq

/-- `String(a || b || '')`. -/
def firstText (a b : Option String) : String :=
  ((a.filter (· ≠ "")).or b).getD ""

/-- `toLowerCase()`. -/
def lowerText (s : String) : List Char := jsLowerText s.toList

/-- `count` digits of a hex text in lower case. -/
def isHexRun (count : ℕ) (text : List Char) : Bool :=
  text.length = count ∧ text.all Wire.hexDigits.contains

/-- `/^[0-9a-f]{64}$/`. -/
def isTxidHex (text : List Char) : Bool := isHexRun 64 text

/-- `/^(?:[0-9a-f]{2})+$/`. -/
def isHexBytes (text : List Char) : Bool :=
  text ≠ [] ∧ text.length % 2 = 0 ∧ text.all Wire.hexDigits.contains

/-- A text that begins and ends with the given ones, with `count` hex digits between them. -/
def hexBetween (before : String) (count : ℕ) (after : String) (text : List Char) : Bool :=
  before.toList.isPrefixOf text ∧ after.toList.isSuffixOf text ∧
    text.length = before.length + count + after.length ∧ text.all Wire.hexDigits.contains

structure ScriptKind where
  test : List Char → Bool
  vbytes : ℕ
  segwit : Bool

/-- `CHILD_VBYTES_BY_SCRIPT`. -/
def childVbytesByScript : List ScriptKind :=
  [⟨hexBetween "76a914" 40 "88ac", 192, false⟩, ⟨hexBetween "0014" 40 "", 110, true⟩,
    ⟨hexBetween "a914" 40 "87", 134, true⟩, ⟨hexBetween "5120" 64 "", 111, true⟩]

def isWitnessProgram (scriptPubKey : List Char) : Bool :=
  ["00", "51", "52", "53", "54", "55", "56", "57", "58", "59", "5a", "5b", "5c", "5d", "5e", "5f",
    "60"].any fun version =>
      hexBetween (version ++ "14") 40 "" scriptPubKey ||
        hexBetween (version ++ "20") 64 "" scriptPubKey

/-- An output that is read. -/
structure ParentOutput where
  address : Option String
  value : ℕ
  scriptPubKey : List Char
deriving DecidableEq

/-- The addresses of the wallet, the source among them. -/
def isOwned (ownAddresses : List String) (sourceAddress : String) (address : Option String) :
    Bool :=
  address.any fun a => a = sourceAddress || (a ≠ "" && ownAddresses.contains a)

/-- The index of the last element with a property. -/
def lastIndex? {α : Type} (p : α → Bool) (l : List α) : Option ℕ :=
  (l.reverse.findIdx? p).map fun i => l.length - 1 - i

/-! ### The plan -/

structure SdkNetwork where
  dustThreshold : JsNumber
  supportsSegwit : Bool
deriving DecidableEq

structure CpfpOptions where
  parentTxid : String
  parent : DecomposedTx
  sourceAddress : String
  ownAddresses : List String
  feeRate : Option ℤ
  parentVbytes : JsNumber
  childVbytes : Option JsNumber
  network : SdkNetwork
deriving DecidableEq

structure PlannedUtxo where
  txid : List Char
  vout : ℕ
  value : WireAmount
  scriptPubKey : List Char
  confirmations : ℕ
deriving DecidableEq

structure PlannedOutput where
  address : String
  value : WireAmount
deriving DecidableEq

structure EncoderOptions where
  change : String
  utxos : List PlannedUtxo
  customOutputs : List PlannedOutput
  fee : WireAmount
  rbf : Bool
  unconfirmed : Bool
  exactInputs : Bool
deriving DecidableEq

structure CpfpPlan where
  encoderOpts : EncoderOptions
  parentFeeSats : String
  childFeeSats : String
  packageFeeSats : String
  packageVbytes : ℕ
deriving DecidableEq

namespace CpfpOptions

/-- A refusal of the planner. -/
def refusal (message : String) : String := "planCpfpChild: " ++ message

/-- The inputs' total, and the outputs. -/
def readParent (parent : DecomposedTx) : Except String (ℕ × List ParentOutput) := do
  let inputs ← parent.inputs.zipIdx.mapM fun (input, i) =>
    satsOf "planCpfpChild" input.value s!"parent.inputs[{i}].value"
  let outputs ← parent.outputs.zipIdx.mapM fun (output, i) =>
    (satsOf "planCpfpChild" output.value s!"parent.outputs[{i}].value").map fun value =>
      { address := output.address.filter (· ≠ "")
        value := value
        scriptPubKey := lowerText (firstText output.scriptPubKeyHex output.scriptPubKey) }
  pure (inputs.sum, outputs)

/-- The size of the child: the one that is given, or that of the script's kind. -/
def childSize (opts : CpfpOptions) (kind : Option ScriptKind) : Except String ℕ :=
  match opts.childVbytes with
  | some given => orRefuse (safePositive? given) (refusal "childVbytes must be a positive integer")
  | none => orRefuse (kind.map ScriptKind.vbytes)
      (refusal "cannot size the child for this script type; pass childVbytes")

/-- `networkRules(network)`. -/
def dustFloor (network : SdkNetwork) : Except String ℕ :=
  orRefuse (safePositive? network.dustThreshold) (refusal "dust floor is unknown for this network")

/-- The fee of the child: what the package is short of, and no less than the rate on its own. -/
def childFee (rate parentFee packageBytes childBytes : ℕ) : ℕ :=
  max (rate * packageBytes - parentFee) (rate * childBytes)

end CpfpOptions

open CpfpOptions in
def planCpfpChild (opts : CpfpOptions) : Except String CpfpPlan := do
  let txid := lowerText opts.parentTxid
  refuseIf (isTxidHex txid = false) (refusal "parentTxid is invalid")
  refuseIf (opts.sourceAddress = "") (refusal "sourceAddress is required")
  refuseIf (opts.parent.inputs = [] ∨ opts.parent.outputs = [])
    (refusal "parent needs inputs and outputs")
  let rate ← orRefuse ((opts.feeRate.filter (0 < ·)).map Int.toNat)
    (refusal "feeRate must be a positive satoshi-per-vbyte rate")
  let pBytes ← orRefuse (safePositive? opts.parentVbytes) (refusal "parentVbytes is required")
  refuseIf (∃ given ∈ opts.childVbytes, safePositive? given = none)
    (refusal "childVbytes must be a positive integer")
  let (inputTotal, outputs) ← readParent opts.parent
  let outputTotal := (outputs.map ParentOutput.value).sum
  refuseIf (inputTotal ≤ outputTotal) (refusal "parent has no readable positive fee")
  let parentFee := inputTotal - outputTotal
  let owned := fun output : ParentOutput =>
    isOwned opts.ownAddresses opts.sourceAddress output.address
  let vout ← orRefuse (lastIndex? owned outputs)
    (refusal "parent has no wallet-owned output to spend")
  let spend ← orRefuse outputs[vout]? (refusal "parent has no wallet-owned output to spend")
  refuseIf (isHexBytes spend.scriptPubKey = false)
    (refusal "wallet-owned output has no usable scriptPubKey")
  let scriptKind := childVbytesByScript.find? (·.test spend.scriptPubKey)
  let cBytes ← opts.childSize scriptKind
  let packageBytes := pBytes + cBytes
  refuseIf (maxSafe < rate * packageBytes ∨ maxSafe < rate * cBytes)
    (refusal "feeRate produces an inexact satoshi amount")
  let fee := childFee rate parentFee packageBytes cBytes
  let dust ← dustFloor opts.network
  refuseIf (opts.network.supportsSegwit = false ∧
      ((scriptKind.any ScriptKind.segwit) ∨ isWitnessProgram spend.scriptPubKey))
    (refusal "this network has no segwit, so the wallet-owned output cannot be spent")
  refuseIf (spend.value < fee + dust) (refusal "wallet-owned output cannot cover the child fee")
  pure {
    encoderOpts := {
      change := opts.sourceAddress
      utxos := [⟨txid, vout, wireAmount spend.value, spend.scriptPubKey, 0⟩]
      customOutputs := [⟨opts.sourceAddress, wireAmount (spend.value - fee)⟩]
      fee := wireAmount fee
      rbf := true
      unconfirmed := true
      exactInputs := true }
    parentFeeSats := parentFee.repr
    childFeeSats := fee.repr
    packageFeeSats := (parentFee + fee).repr
    packageVbytes := packageBytes }

/-! ### What a plan pays -/

/-- The numbers that a plan is made from. -/
structure CpfpNumbers where
  rate : ℕ
  parentBytes : ℕ
  childBytes : ℕ
  dust : ℕ
  inputs : List ℕ
  outputs : List ℕ
  vout : ℕ
  spent : ℕ

/-- The numbers are those that the options give, and the output that is spent is the wallet's. -/
structure CpfpNumbers.Of (n : CpfpNumbers) (opts : CpfpOptions) : Prop where
  rate : opts.feeRate = some (n.rate : ℤ)
  parentBytes : opts.parentVbytes = some (n.parentBytes : ℚ)
  childBytes : ∀ given ∈ opts.childVbytes, given = some (n.childBytes : ℚ)
  childKind : opts.childVbytes = none → ∃ kind ∈ childVbytesByScript, kind.vbytes = n.childBytes ∧
    ∃ output, opts.parent.outputs[n.vout]? = some output ∧
      kind.test (lowerText (firstText output.scriptPubKeyHex output.scriptPubKey))
  dust : opts.network.dustThreshold = some (n.dust : ℚ)
  inputs : opts.parent.inputs.map (·.value.exactSats?) = n.inputs.map some
  outputs : opts.parent.outputs.map (·.value.exactSats?) = n.outputs.map some
  spent : n.outputs[n.vout]? = some n.spent
  positiveFee : n.outputs.sum < n.inputs.sum

def CpfpNumbers.parentFee (n : CpfpNumbers) : ℕ := n.inputs.sum - n.outputs.sum

/-- **What a plan pays.** The child's output and its fee are the value spent, the output is not
below the dust floor, and the fee reaches the rate for the child alone and, with the parent's, for
both. -/
structure CpfpPlan.Pays (plan : CpfpPlan) (n : CpfpNumbers) : Prop where
  packageVbytes : plan.packageVbytes = n.parentBytes + n.childBytes
  utxo : plan.encoderOpts.utxos.map (fun utxo => (utxo.vout, utxo.value.sats)) = [(n.vout, n.spent)]
  conserved : ∃ output, plan.encoderOpts.customOutputs = [output] ∧
    output.value.sats + plan.encoderOpts.fee.sats = n.spent ∧ n.dust ≤ output.value.sats
  childRate : n.rate * n.childBytes ≤ plan.encoderOpts.fee.sats
  packageRate :
    n.rate * (n.parentBytes + n.childBytes) ≤ n.parentFee + plan.encoderOpts.fee.sats

theorem satsOf_eq_ok {planner label : String} {value : SatsValue} {n : ℕ} :
    satsOf planner value label = .ok n ↔ value.exactSats? = some n := by
  rw [satsOf, orRefuse_eq_ok]

namespace CpfpOptions

/-- What has been read of a parent. -/
theorem readParent_eq_ok {parent : DecomposedTx} {total : ℕ} {outputs : List ParentOutput}
    (h : readParent parent = .ok (total, outputs)) :
    (∃ inputs : List ℕ, parent.inputs.map (·.value.exactSats?) = inputs.map some ∧ inputs.sum = total) ∧
      parent.outputs.map (·.value.exactSats?) = (outputs.map ParentOutput.value).map some ∧
      parent.outputs.map
          (fun o => some (lowerText (firstText o.scriptPubKeyHex o.scriptPubKey))) =
        (outputs.map ParentOutput.scriptPubKey).map some := by
  rw [readParent] at h
  simp only [bind_eq_ok, pure_eq_ok, Prod.mk.injEq] at h
  obtain ⟨inputs, hinputs, outputs', houtputs, rfl, rfl⟩ := h
  refine ⟨⟨inputs, ?_, rfl⟩, ?_, ?_⟩
  · have hread := map_of_mapM_zipIdx (k := fun input => input.value.exactSats?) (g := id)
      (fun input i n hn => satsOf_eq_ok.mp hn) _ 0 hinputs
    rwa [List.map_id] at hread
  · refine map_of_mapM_zipIdx (fun output i b hb => ?_) _ 0 houtputs
    obtain ⟨n, hn, rfl⟩ := map_eq_ok.mp hb
    exact satsOf_eq_ok.mp hn
  · refine map_of_mapM_zipIdx (fun output i b hb => ?_) _ 0 houtputs
    obtain ⟨n, hn, rfl⟩ := map_eq_ok.mp hb
    rfl

/-- The size of the child is the given one, or that of its kind. -/
theorem childSize_eq_ok {opts : CpfpOptions} {kind : Option ScriptKind} {n : ℕ}
    (h : opts.childSize kind = .ok n) :
    (∀ given ∈ opts.childVbytes, given = some (n : ℚ)) ∧
      (opts.childVbytes = none → ∃ k, kind = some k ∧ k.vbytes = n) := by
  rw [childSize] at h
  split at h
  · next given hgiven =>
    have hread := (safePositive?_eq_some (orRefuse_eq_ok.mp h)).1
    refine ⟨fun given' hgiven' => ?_, fun hnone => ?_⟩
    · rw [hgiven] at hgiven'
      cases hgiven'
      exact hread
    · rw [hgiven] at hnone
      cases hnone
  · next hnone =>
    refine ⟨fun given hgiven => ?_, fun _ => Option.map_eq_some_iff.mp (orRefuse_eq_ok.mp h)⟩
    rw [hnone] at hgiven
    cases hgiven

end CpfpOptions

/-- The fee reaches the rate for the child, and with the parent's for both. -/
theorem le_childFee (rate parentFee packageBytes childBytes : ℕ) :
    rate * childBytes ≤ CpfpOptions.childFee rate parentFee packageBytes childBytes ∧
      rate * packageBytes ≤
        parentFee + CpfpOptions.childFee rate parentFee packageBytes childBytes := by
  rw [CpfpOptions.childFee]
  refine ⟨le_max_right _ _, ?_⟩
  have hshort := le_max_left (rate * packageBytes - parentFee) (rate * childBytes)
  omega

/-- **A plan pays for the child and the package.** -/
theorem planCpfpChild_pays {opts : CpfpOptions} {plan : CpfpPlan}
    (h : planCpfpChild opts = .ok plan) : ∃ n : CpfpNumbers, n.Of opts ∧ plan.Pays n := by
  rw [planCpfpChild] at h
  simp only [bind_eq_ok, refuseIf_eq_ok, orRefuse_eq_ok, pure_eq_ok, exists_const,
    Prod.exists] at h
  obtain ⟨-, -, -, rate, hrate, pBytes, hpBytes, -, total, outputs, hparent, hfee, vout, -, spend,
    hspend, -, cBytes, hcBytes, -, dust, hdust, -, hcovers, rfl⟩ := h
  obtain ⟨⟨inputs, hinputs, rfl⟩, houtputs, hscripts⟩ := CpfpOptions.readParent_eq_ok hparent
  obtain ⟨hgiven, hkind⟩ := CpfpOptions.childSize_eq_ok hcBytes
  refine ⟨⟨rate, pBytes, cBytes, dust, inputs, outputs.map ParentOutput.value, vout, spend.value⟩,
    ?_, ?_⟩
  · refine ⟨?_, (safePositive?_eq_some hpBytes).1, hgiven, fun hnone => ?_, ?_, hinputs, houtputs,
      ?_, not_le.mp hfee⟩
    · obtain ⟨r, hr, rfl⟩ := Option.map_eq_some_iff.mp hrate
      obtain ⟨hsome, hpos⟩ := Option.filter_eq_some_iff.mp hr
      rw [hsome, Int.toNat_of_nonneg (of_decide_eq_true hpos).le]
    · obtain ⟨kind, hfind, hvbytes⟩ := hkind hnone
      refine ⟨kind, List.mem_of_find?_eq_some hfind, hvbytes, ?_⟩
      have hscript := congrArg (·[vout]?) hscripts
      simp only [List.getElem?_map, hspend, Option.map_some] at hscript
      obtain ⟨output, houtput, htext⟩ := Option.map_eq_some_iff.mp hscript
      have htest : kind.test spend.scriptPubKey = true := by simpa using List.find?_some hfind
      rw [← Option.some.inj htext] at htest
      exact ⟨output, houtput, htest⟩
    · exact (safePositive?_eq_some (orRefuse_eq_ok.mp hdust)).1
    · rw [List.getElem?_map, hspend]
      rfl
  · obtain ⟨hchild, hpackage⟩ :=
      le_childFee rate (inputs.sum - (outputs.map ParentOutput.value).sum) (pBytes + cBytes) cBytes
    rw [not_lt] at hcovers
    refine ⟨rfl, ?_, ⟨_, rfl, ?_, ?_⟩, ?_, ?_⟩
    · simp
    · rw [sats_wireAmount, sats_wireAmount]
      dsimp only
      omega
    · rw [sats_wireAmount]
      dsimp only
      omega
    · rw [sats_wireAmount]
      exact hchild
    · rw [sats_wireAmount]
      exact hpackage

private def paidOutput : DecomposedOutput where
  address := some "mine"
  value := .number (some 9000)
  scriptType := none
  scriptPubKeyHex := some ("0014" ++ "00112233445566778899aabbccddeeff00112233")
  scriptPubKey := none

private def stuckParent : CpfpOptions where
  parentTxid := String.ofList (List.replicate 64 'a')
  parent := {
    inputs := [⟨none, none, none, none, .text "10000", none, none, none⟩]
    outputs := [paidOutput] }
  sourceAddress := "mine"
  ownAddresses := []
  feeRate := some 12
  parentVbytes := some 150
  childVbytes := none
  network := ⟨some 546, true⟩

/-- The package falls short by 2120. -/
private def stuckPlan : CpfpPlan where
  encoderOpts := {
    change := "mine"
    utxos := [⟨List.replicate 64 'a', 0, .number 9000,
      ("0014" ++ "00112233445566778899aabbccddeeff00112233").toList, 0⟩]
    customOutputs := [⟨"mine", .number 6880⟩]
    fee := .number 2120
    rbf := true
    unconfirmed := true
    exactInputs := true }
  parentFeeSats := "1000"
  childFeeSats := "2120"
  packageFeeSats := "3120"
  packageVbytes := 260

private theorem planCpfpChild_stuckParent : planCpfpChild stuckParent = .ok stuckPlan := by
  decide

/-- A parent with a fee of 1000 and a rate of 12. -/
theorem planCpfpChild_pays_stuck : ∃ n : CpfpNumbers, n.Of stuckParent ∧ stuckPlan.Pays n :=
  planCpfpChild_pays planCpfpChild_stuckParent

end XchainWallet
