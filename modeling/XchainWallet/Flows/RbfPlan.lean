import Mathlib.Algebra.Order.BigOperators.Group.List
import XchainWallet.Flows.CpfpPlan

/-!
# Plans of a replacement

`planRbfReplacement` spends the inputs of a stuck transaction again: a cancel sends all of them to
the source, a speed-up or a restore reproduces the outputs of a template without the wallet's
change, which the encoder adds, and without an output of value zero that carries data, which it
builds again. `planRbfReplacement_replaces` says what a returned plan spends, keeps and pays. The
fee rate is a whole number here: the code multiplies any other in floating point. -/

namespace XchainWallet

open Checks

namespace RbfPlan

/-- A refusal of the planner. -/
def refusal (message : String) : String := "planRbfReplacement: " ++ message

/-! ### The shape of a transaction -/

def RBF_SEQUENCE_LIMIT : ℕ := 0xfffffffe

structure ShapeInput where
  txid : List Char
  vout : ℕ
  value : ℕ
  scriptPubKey : List Char
  confirmations : ℕ
  sequence : JsNumber
deriving DecidableEq

structure ShapeOutput where
  address : Option String
  value : ℕ
  scriptType : List Char
  scriptPubKey : List Char
deriving DecidableEq

structure TxShape where
  inputs : List ShapeInput
  outputs : List ShapeOutput
deriving DecidableEq

/-- The coin that an input spends. -/
def ShapeInput.outpoint (input : ShapeInput) : List Char × ℕ := (input.txid, input.vout)

/-- An output index of 32 bits. -/
def outputIndex? (n : JsNumber) : Option ℕ :=
  n.bind fun q =>
    if q.den = 1 ∧ 0 ≤ q.num ∧ q.num ≤ 0xffffffff then some q.num.toNat else none

/-- The inputs from index `i` on, with the outpoints of those before. -/
def readInputs (label : String) : List (List Char × ℕ) → ℕ → List DecomposedInput →
    Except String (List ShapeInput)
  | _, _, [] => .ok []
  | seen, i, input :: rest => do
    let txid := lowerText (firstText input.prevTxHash input.txid)
    let scriptPubKey := lowerText (firstText input.scriptPubKeyHex input.scriptPubKey)
    refuseIf (isTxidHex txid = false) (refusal s!"{label}.inputs[{i}] has an invalid txid")
    let vout ← orRefuse (outputIndex? ((input.prevTxIndex.or input.vout).getD none))
      (refusal s!"{label}.inputs[{i}] has an invalid vout")
    refuseIf (isHexBytes scriptPubKey = false)
      (refusal s!"{label}.inputs[{i}] has no usable scriptPubKey")
    refuseIf ((txid, vout) ∈ seen)
      (refusal s!"{label}.inputs[{i}] duplicates an earlier outpoint")
    let value ← satsOf "planRbfReplacement" input.value s!"{label}.inputs[{i}].value"
    let inputs ← readInputs label ((txid, vout) :: seen) (i + 1) rest
    pure (⟨txid, vout, value, scriptPubKey, 0, input.sequence⟩ :: inputs)

/-- `txShape(value, label)`. -/
def txShape (tx : DecomposedTx) (label : String) : Except String TxShape := do
  refuseIf (tx.inputs = []) (refusal s!"{label}.inputs must be a non-empty array")
  refuseIf (tx.outputs = []) (refusal s!"{label}.outputs must be a non-empty array")
  let inputs ← readInputs label [] 0 tx.inputs
  let outputs ← tx.outputs.zipIdx.mapM fun (output, i) =>
    (satsOf "planRbfReplacement" output.value s!"{label}.outputs[{i}].value").map fun value =>
      { address := output.address.filter (· ≠ "")
        value := value
        scriptType := lowerText (output.scriptType.getD "")
        scriptPubKey := lowerText (output.scriptPubKeyHex.getD "") }
  pure ⟨inputs, outputs⟩

/-! ### The fee -/

def DEFAULT_INCREMENT_SATS : ℕ := 1000

/-- The least fee of a replacement of so many bytes. -/
def minimumFee (originalFee : ℕ) (transactionBytes : JsNumber) : ℕ :=
  let byteIncrement := (safePositive? transactionBytes).getD 0
  originalFee + max (max DEFAULT_INCREMENT_SATS (originalFee / 4)) byteIncrement

/-- `replacementFee`: without a rate the least fee, and no less with one. -/
def replacementFee (originalFee : ℕ) (feeRate : Option (Option ℤ)) (transactionBytes : JsNumber) :
    Except String ℕ :=
  let minimum := minimumFee originalFee transactionBytes
  match feeRate with
  | none => .ok minimum
  | some given => do
    let rate ← orRefuse ((given.filter (0 < ·)).map Int.toNat)
      (refusal "feeRate must be a positive satoshi-per-vbyte rate")
    let bytes ← orRefuse (safePositive? transactionBytes)
      (refusal "transactionBytes is required with feeRate")
    refuseIf (maxSafe < rate * bytes) (refusal "feeRate produces an inexact satoshi amount")
    refuseIf (rate * bytes ≤ originalFee)
      (refusal "feeRate does not increase the original transaction fee")
    pure (max (rate * bytes) minimum)

/-! ### The plan -/

inductive Strategy
  | speedup
  | cancel
  | restore
deriving DecidableEq

def Strategy.ofText : String → Option Strategy
  | "speedup" => some speedup
  | "cancel" => some cancel
  | "restore" => some restore
  | _ => none

structure Options where
  strategy : String
  conflict : DecomposedTx
  template : Option DecomposedTx
  sourceAddress : String
  ownAddresses : List String
  feeRate : Option (Option ℤ)
  transactionBytes : JsNumber
deriving DecidableEq

structure Plan where
  encoderOpts : EncoderOptions
  originalFeeSats : String
  replacementFeeSats : String
  feeIncreaseSats : String
deriving DecidableEq

/-- The template, which is the conflict where none is given. -/
def Options.templateTx (opts : Options) : DecomposedTx := opts.template.getD opts.conflict

/-- An output of value zero that carries data. -/
def isData (output : ShapeOutput) : Bool :=
  output.value = 0 ∧
    (output.scriptType = "nulldata".toList ∨ "6a".toList.isPrefixOf output.scriptPubKey)

/-- An output as the encoder is to reproduce it, at index `i`. -/
def reproduce (output : ShapeOutput) (i : ℕ) : Except String (List PlannedOutput) :=
  match output.address with
  | some address => .ok [⟨address, wireAmount output.value⟩]
  | none =>
    if isData output then .ok []
    else .error (refusal s!"template output {i} cannot be reproduced safely")

/-- The outputs but that of the change, as the encoder is to reproduce them. -/
def reproduceOutputs (outputs : List ShapeOutput) (changeIndex : ℕ) :
    Except String (List PlannedOutput) :=
  (outputs.zipIdx.mapM fun (output, i) =>
    if i = changeIndex then Except.ok [] else reproduce output i).map List.flatten

/-- The outputs of a plan, and the address of its change. -/
def planOutputs (strategy : Strategy) (opts : Options) (template : TxShape) (inputTotal fee : ℕ) :
    Except String (List PlannedOutput × String) :=
  match strategy with
  | .cancel =>
    .ok ([⟨opts.sourceAddress, wireAmount (inputTotal - fee)⟩], opts.sourceAddress)
  | .speedup | .restore => do
    let owned := fun output : ShapeOutput =>
      isOwned opts.ownAddresses opts.sourceAddress output.address
    let changeIndex ← orRefuse (lastIndex? owned template.outputs)
      (refusal "template has no wallet change output to fund the fee bump")
    let change := ((template.outputs[changeIndex]?).bind ShapeOutput.address).getD ""
    let customOutputs ← reproduceOutputs template.outputs changeIndex
    let fixedOutputs := ((template.outputs.eraseIdx changeIndex).map ShapeOutput.value).sum
    refuseIf (inputTotal < fixedOutputs + fee)
      (refusal "change output cannot cover the replacement fee")
    pure (customOutputs, change)

end RbfPlan

open RbfPlan in
def planRbfReplacement (opts : Options) : Except String Plan := do
  let strategy ← orRefuse (Strategy.ofText opts.strategy)
    (refusal s!"unknown strategy \"{opts.strategy}\"")
  refuseIf (opts.sourceAddress = "") (refusal "sourceAddress is required")
  let conflict ← txShape opts.conflict "conflict"
  let template ← txShape opts.templateTx "template"
  refuseIf (¬∃ input ∈ conflict.inputs, ∃ q ∈ input.sequence, q.den = 1 ∧ q < RBF_SEQUENCE_LIMIT)
    (refusal "conflict transaction did not signal replaceability")
  refuseIf (strategy = .restore ∧
      conflict.inputs.map ShapeInput.outpoint ≠ template.inputs.map ShapeInput.outpoint)
    (refusal "restore transaction does not spend the cancel inputs")
  let inputTotal := (conflict.inputs.map ShapeInput.value).sum
  let outputTotal := (conflict.outputs.map ShapeOutput.value).sum
  refuseIf (inputTotal ≤ outputTotal)
    (refusal "conflict transaction has no readable positive fee")
  let originalFee := inputTotal - outputTotal
  let fee ← replacementFee originalFee opts.feeRate opts.transactionBytes
  refuseIf (inputTotal ≤ fee) (refusal "replacement fee consumes every input")
  let (customOutputs, change) ← planOutputs strategy opts template inputTotal fee
  pure {
    encoderOpts := {
      change := change
      utxos := conflict.inputs.map fun input =>
        ⟨input.txid, input.vout, wireAmount input.value, input.scriptPubKey, input.confirmations⟩
      customOutputs := customOutputs
      fee := wireAmount fee
      rbf := true
      unconfirmed := true
      exactInputs := true }
    originalFeeSats := originalFee.repr
    replacementFeeSats := fee.repr
    feeIncreaseSats := (fee - originalFee).repr }

namespace RbfPlan

/-! ### What is read -/

/-- A shape has the inputs and outputs of a transaction, each coin once. -/
structure TxShape.Reads (shape : TxShape) (tx : DecomposedTx) : Prop where
  inputs : tx.inputs.map (fun input =>
      (lowerText (firstText input.prevTxHash input.txid),
        outputIndex? ((input.prevTxIndex.or input.vout).getD none), input.value.exactSats?)) =
    shape.inputs.map fun input => (input.txid, some input.vout, some input.value)
  outputs : tx.outputs.map (fun output => (output.address.filter (· ≠ ""), output.value.exactSats?)) =
    shape.outputs.map fun output => (output.address, some output.value)
  distinct : (shape.inputs.map ShapeInput.outpoint).Nodup

def TxShape.inputTotal (shape : TxShape) : ℕ := (shape.inputs.map ShapeInput.value).sum

def TxShape.outputTotal (shape : TxShape) : ℕ := (shape.outputs.map ShapeOutput.value).sum

/-- The inputs that are read are new, and read as they stand. -/
theorem readInputs_eq_ok {label : String} {seen : List (List Char × ℕ)} {i : ℕ}
    {raw : List DecomposedInput} {inputs : List ShapeInput}
    (h : readInputs label seen i raw = .ok inputs) :
    raw.map (fun input =>
        (lowerText (firstText input.prevTxHash input.txid),
          outputIndex? ((input.prevTxIndex.or input.vout).getD none), input.value.exactSats?)) =
      inputs.map (fun input => (input.txid, some input.vout, some input.value)) ∧
        (inputs.map ShapeInput.outpoint).Nodup ∧ ∀ input ∈ inputs, input.outpoint ∉ seen := by
  induction raw generalizing seen i inputs with
  | nil =>
    cases h
    exact ⟨rfl, List.nodup_nil, by simp⟩
  | cons input raw ih =>
    rw [readInputs] at h
    simp only [bind_eq_ok, refuseIf_eq_ok, orRefuse_eq_ok, pure_eq_ok, exists_const] at h
    obtain ⟨-, vout, hvout, -, hnew, value, hvalue, rest, hrest, rfl⟩ := h
    obtain ⟨hread, hnodup, hfresh⟩ := ih hrest
    refine ⟨?_, ?_, ?_⟩
    · rw [List.map_cons, List.map_cons, hread, hvout, satsOf_eq_ok.mp hvalue]
    · rw [List.map_cons, List.nodup_cons]
      refine ⟨fun hmem => ?_, hnodup⟩
      obtain ⟨later, hlater, hsame⟩ := List.mem_map.mp hmem
      refine hfresh later hlater ?_
      rw [hsame]
      exact (.head _)
    · intro later hlater
      rcases List.mem_cons.mp hlater with rfl | hlater
      · exact hnew
      · exact fun hseen => hfresh later hlater (.tail _ hseen)

theorem txShape_reads {tx : DecomposedTx} {label : String} {shape : TxShape}
    (h : txShape tx label = .ok shape) : shape.Reads tx := by
  rw [txShape] at h
  simp only [bind_eq_ok, refuseIf_eq_ok, pure_eq_ok, exists_const] at h
  obtain ⟨-, -, inputs, hinputs, outputs, houtputs, rfl⟩ := h
  obtain ⟨hread, hnodup, -⟩ := readInputs_eq_ok hinputs
  refine ⟨hread, ?_, hnodup⟩
  have hoptions := map_of_mapM_zipIdx
    (k := fun output : DecomposedOutput =>
      some (output.address.filter (· ≠ ""), output.value.exactSats?))
    (g := fun output : ShapeOutput => (output.address, some output.value))
    (fun output i b hb => by
      obtain ⟨n, hn, rfl⟩ := map_eq_ok.mp hb
      rw [satsOf_eq_ok.mp hn]) _ 0 houtputs
  rw [List.map_map] at hoptions
  exact List.map_injective_iff.mpr (Option.some_injective _) (by
    rw [List.map_map, List.map_map]
    exact hoptions)

/-! ### What is reproduced -/

/-- An output as a plan reproduces it. -/
def view (output : PlannedOutput) : Option String × ℕ := (some output.address, output.value.sats)

/-- The outputs of a template that a plan reproduces, and the others carry data and no value. -/
structure Reproduced (planned : List PlannedOutput) (outputs : List ShapeOutput) : Prop where
  kept : planned.map view =
    (outputs.filter (·.address.isSome)).map fun output => (output.address, output.value)
  data : ∀ output ∈ outputs, output.address = none → isData output = true

theorem Reproduced.nil : Reproduced [] [] := ⟨rfl, by simp⟩

variable {outputs : List ShapeOutput}

theorem Reproduced.cons {planned part : List PlannedOutput} {output : ShapeOutput} {i : ℕ}
    (h : Reproduced planned outputs) (hpart : reproduce output i = .ok part) :
    Reproduced (part ++ planned) (output :: outputs) := by
  rw [reproduce] at hpart
  split at hpart
  · next address haddress =>
    cases hpart
    refine ⟨?_, ?_⟩
    · rw [List.filter_cons_of_pos (by rw [haddress]; rfl), List.map_append, h.kept]
      simp [view, haddress]
    · rw [List.forall_mem_cons]
      exact ⟨fun hnone => absurd (haddress.symm.trans hnone) (by simp), h.data⟩
  · next hnone =>
    split at hpart
    · next hdata =>
      cases hpart
      refine ⟨?_, ?_⟩
      · rw [List.filter_cons_of_neg (by rw [hnone]; decide), List.nil_append, h.kept]
      · rw [List.forall_mem_cons]
        exact ⟨fun _ => hdata, h.data⟩
    · cases hpart

/-- The turns of the loop, from index `k` on: behind the change all outputs are reproduced, and up
to it all but the change. -/
theorem reproduced_of_mapM {changeIndex k : ℕ} {parts : List (List PlannedOutput)}
    (h : ((outputs.zipIdx k).mapM fun (output, i) =>
      if i = changeIndex then Except.ok [] else reproduce output i) = .ok parts) :
    (changeIndex < k → Reproduced parts.flatten outputs) ∧
      (k ≤ changeIndex → Reproduced parts.flatten (outputs.eraseIdx (changeIndex - k))) := by
  induction outputs generalizing k parts with
  | nil =>
    cases h
    exact ⟨fun _ => .nil, fun _ => .nil⟩
  | cons output outputs ih =>
    rw [List.zipIdx_cons, List.mapM_cons] at h
    simp only [bind_eq_ok, pure_eq_ok] at h
    obtain ⟨part, hpart, rest, hrest, rfl⟩ := h
    obtain ⟨hbehind, hupto⟩ := ih hrest
    rw [List.flatten_cons]
    refine ⟨fun hlt => ?_, fun hle => ?_⟩
    · rw [if_neg (by omega)] at hpart
      exact (hbehind (by omega)).cons hpart
    · rcases Nat.eq_or_lt_of_le hle with rfl | hlt
      · rw [if_pos rfl] at hpart
        cases hpart
        rw [Nat.sub_self, List.eraseIdx_cons_zero]
        exact hbehind (Nat.lt_succ_self k)
      · rw [if_neg (by omega)] at hpart
        have hindex : changeIndex - k = (changeIndex - (k + 1)) + 1 := by omega
        rw [hindex, List.eraseIdx_cons_succ]
        exact (hupto hlt).cons hpart

/-- What is reproduced is worth no more than the outputs. -/
theorem Reproduced.sum_le {planned : List PlannedOutput} (h : Reproduced planned outputs) :
    (planned.map fun o => o.value.sats).sum ≤ (outputs.map ShapeOutput.value).sum := by
  have hvalues : planned.map (fun o => o.value.sats) =
      (outputs.filter (·.address.isSome)).map ShapeOutput.value := by
    have hkept := congrArg (List.map Prod.snd) h.kept
    rwa [List.map_map, List.map_map] at hkept
  rw [hvalues]
  exact List.Sublist.sum_le_sum (List.filter_sublist.map _) fun _ _ => Nat.zero_le _

theorem lastIndex?_eq_some {α : Type} {p : α → Bool} {l : List α} {i : ℕ}
    (h : lastIndex? p l = some i) : ∃ a, l[i]? = some a ∧ p a = true := by
  obtain ⟨j, hj, rfl⟩ := Option.map_eq_some_iff.mp h
  obtain ⟨hlt, hp, -⟩ := List.findIdx?_eq_some_iff_getElem.mp hj
  rw [List.getElem_reverse] at hp
  rw [List.length_reverse] at hlt
  exact ⟨_, List.getElem?_eq_getElem (by omega), hp⟩

/-- **What a replacement does.** It spends the coins of the conflict; a cancel sends what the fee
leaves of them to the source; a speed-up or a restore reproduces, from the template, the outputs
beside the change that have an address, the others being data without value; and the fee is above
the original by the increment. -/
structure Plan.Replaces (plan : Plan) (opts : Options) (strategy : Strategy)
    (conflict template : TxShape) : Prop where
  spends : plan.encoderOpts.utxos.map (fun utxo => (utxo.txid, utxo.vout, utxo.value.sats)) =
    conflict.inputs.map fun input => (input.txid, input.vout, input.value)
  restores : strategy = .restore →
    conflict.inputs.map ShapeInput.outpoint = template.inputs.map ShapeInput.outpoint
  cancels : strategy = .cancel → ∃ output, plan.encoderOpts.customOutputs = [output] ∧
    output.address = opts.sourceAddress ∧
      output.value.sats + plan.encoderOpts.fee.sats = conflict.inputTotal
  reproduces : strategy ≠ .cancel → ∃ changeIndex change,
    template.outputs[changeIndex]? = some change ∧
      isOwned opts.ownAddresses opts.sourceAddress change.address = true ∧
        Reproduced plan.encoderOpts.customOutputs (template.outputs.eraseIdx changeIndex) ∧
          (plan.encoderOpts.customOutputs.map fun o => o.value.sats).sum +
            plan.encoderOpts.fee.sats ≤ conflict.inputTotal
  positiveFee : conflict.outputTotal < conflict.inputTotal
  fee : conflict.inputTotal - conflict.outputTotal +
      max (max DEFAULT_INCREMENT_SATS ((conflict.inputTotal - conflict.outputTotal) / 4))
        ((safePositive? opts.transactionBytes).getD 0) ≤ plan.encoderOpts.fee.sats

/-- No fee is below the least one. -/
theorem minimumFee_le {originalFee fee : ℕ} {feeRate : Option (Option ℤ)}
    {transactionBytes : JsNumber}
    (h : replacementFee originalFee feeRate transactionBytes = .ok fee) :
    minimumFee originalFee transactionBytes ≤ fee := by
  cases feeRate with
  | none =>
    cases h
    exact le_rfl
  | some given =>
    simp only [replacementFee, bind_eq_ok, pure_eq_ok] at h
    obtain ⟨rate, -, bytes, -, -, -, -, -, rfl⟩ := h
    exact le_max_right _ _

/-- The outputs of a speed-up or a restore. -/
theorem planOutputs_reproduces {strategy : Strategy} {opts : Options} {template : TxShape}
    {inputTotal fee : ℕ} {customOutputs : List PlannedOutput} {change : String}
    (hstrategy : strategy ≠ .cancel)
    (h : planOutputs strategy opts template inputTotal fee = .ok (customOutputs, change)) :
    ∃ changeIndex own, template.outputs[changeIndex]? = some own ∧
      isOwned opts.ownAddresses opts.sourceAddress own.address = true ∧
        Reproduced customOutputs (template.outputs.eraseIdx changeIndex) ∧
          (customOutputs.map fun o => o.value.sats).sum + fee ≤ inputTotal := by
  have hplanned : ∃ changeIndex, lastIndex? (fun output : ShapeOutput =>
          isOwned opts.ownAddresses opts.sourceAddress output.address) template.outputs =
        some changeIndex ∧
      reproduceOutputs template.outputs changeIndex = .ok customOutputs ∧
      ((template.outputs.eraseIdx changeIndex).map ShapeOutput.value).sum + fee ≤ inputTotal := by
    cases strategy with
    | cancel => exact absurd rfl hstrategy
    | speedup | restore =>
      simp only [planOutputs, bind_eq_ok, orRefuse_eq_ok, refuseIf_eq_ok, pure_eq_ok,
        exists_const, not_lt, Prod.mk.injEq] at h
      obtain ⟨changeIndex, hindex, outputs, houtputs, hcovers, rfl, -⟩ := h
      exact ⟨changeIndex, hindex, houtputs, hcovers⟩
  obtain ⟨changeIndex, hindex, houtputs, hcovers⟩ := hplanned
  obtain ⟨own, hown, howned⟩ := lastIndex?_eq_some hindex
  obtain ⟨parts, hparts, rfl⟩ := map_eq_ok.mp houtputs
  have hreproduced := (reproduced_of_mapM hparts).2 (Nat.zero_le _)
  rw [Nat.sub_zero] at hreproduced
  have hsum := hreproduced.sum_le
  exact ⟨changeIndex, own, hown, howned, hreproduced, by omega⟩

end RbfPlan

open RbfPlan in
/-- **A plan replaces its conflict.** -/
theorem planRbfReplacement_replaces {opts : Options} {plan : Plan}
    (h : planRbfReplacement opts = .ok plan) :
    ∃ strategy conflict template, Strategy.ofText opts.strategy = some strategy ∧
      conflict.Reads opts.conflict ∧ template.Reads opts.templateTx ∧
        plan.Replaces opts strategy conflict template := by
  rw [planRbfReplacement] at h
  simp only [bind_eq_ok, refuseIf_eq_ok, orRefuse_eq_ok, pure_eq_ok, exists_const,
    Prod.exists] at h
  obtain ⟨strategy, hstrategy, -, conflict, hconflict, template, htemplate, -, hrestore, hpositive,
    fee, hfee, hconsumes, customOutputs, change, houtputs, rfl⟩ := h
  refine ⟨strategy, conflict, template, hstrategy, txShape_reads hconflict, txShape_reads htemplate,
    ?_⟩
  refine ⟨?_, fun hrestored => ?_, fun hcancel => ?_, fun hkeep => ?_, not_le.mp hpositive, ?_⟩
  · rw [List.map_map]
    refine List.map_congr_left fun input _ => ?_
    simp
  · by_contra hother
    exact hrestore ⟨hrestored, hother⟩
  · subst hcancel
    cases houtputs
    refine ⟨_, rfl, rfl, ?_⟩
    rw [sats_wireAmount, sats_wireAmount]
    exact Nat.sub_add_cancel (not_le.mp hconsumes).le
  · rw [sats_wireAmount]
    exact planOutputs_reproduces hkeep houtputs
  · rw [sats_wireAmount]
    exact minimumFee_le hfee

namespace RbfPlan

/-! ### A transfer with data -/

private def stuckInput : DecomposedInput where
  prevTxHash := some (String.ofList (List.replicate 64 'a'))
  txid := none
  prevTxIndex := some (some 0)
  vout := none
  value := .number (some 100000)
  scriptPubKeyHex := some "0014"
  scriptPubKey := none
  sequence := some 0

private def plainOutput (address : String) (value : ℕ) : DecomposedOutput where
  address := some address
  value := .number (some value)
  scriptType := none
  scriptPubKeyHex := none
  scriptPubKey := none

private def dataOutput : DecomposedOutput where
  address := none
  value := .number (some 0)
  scriptType := some "nulldata"
  scriptPubKeyHex := some "6a04"
  scriptPubKey := none

/-- A payment of 1000 with data, change to the source and a fee of 4001. -/
private def dataTransfer : Options where
  strategy := "speedup"
  conflict := ⟨[stuckInput], [plainOutput "shop" 1000, dataOutput, plainOutput "mine" 94999]⟩
  template := none
  sourceAddress := "mine"
  ownAddresses := ["mine"]
  feeRate := some (some 20)
  transactionBytes := some 250

private def dataTransferPlan : Plan where
  encoderOpts := {
    change := "mine"
    utxos := [⟨List.replicate 64 'a', 0, .number 100000, "0014".toList, 0⟩]
    customOutputs := [⟨"shop", .number 1000⟩]
    fee := .number 5001
    rbf := true
    unconfirmed := true
    exactInputs := true }
  originalFeeSats := "4001"
  replacementFeeSats := "5001"
  feeIncreaseSats := "1000"

private theorem planRbfReplacement_dataTransfer :
    planRbfReplacement dataTransfer = .ok dataTransferPlan := by
  decide

theorem planRbfReplacement_replaces_dataTransfer :
    ∃ strategy conflict template, Strategy.ofText dataTransfer.strategy = some strategy ∧
      conflict.Reads dataTransfer.conflict ∧ template.Reads dataTransfer.templateTx ∧
        dataTransferPlan.Replaces dataTransfer strategy conflict template :=
  planRbfReplacement_replaces planRbfReplacement_dataTransfer

/-- Data without value is not among the outputs of a plan, and a quarter of the original fee is
rounded down. -/
theorem not_planRbfReplacement_replaces :
    (¬∀ opts plan template, planRbfReplacement opts = .ok plan →
      txShape opts.templateTx "template" = .ok template → opts.strategy ≠ "cancel" →
        ∃ changeIndex, plan.encoderOpts.customOutputs.map view =
          (template.outputs.eraseIdx changeIndex).map fun o => (o.address, o.value)) ∧
    ¬∀ opts plan conflict, planRbfReplacement opts = .ok plan →
      txShape opts.conflict "conflict" = .ok conflict →
        conflict.inputTotal - conflict.outputTotal ≤
          4 * (plan.encoderOpts.fee.sats - (conflict.inputTotal - conflict.outputTotal)) := by
  have hshape : ∀ label, ∃ shape, txShape dataTransfer.conflict label = .ok shape ∧
      shape.outputs.length = 3 ∧ shape.inputTotal = 100000 ∧ shape.outputTotal = 95999 := by
    intro label
    refine ⟨⟨[⟨List.replicate 64 'a', 0, 100000, "0014".toList, 0, some 0⟩],
      [⟨some "shop", 1000, [], []⟩, ⟨none, 0, "nulldata".toList, "6a04".toList⟩,
        ⟨some "mine", 94999, [], []⟩]⟩, ?_, rfl, rfl, rfl⟩
    rfl
  refine ⟨fun hall => ?_, fun hall => ?_⟩
  · obtain ⟨template, htemplate, hlength, -⟩ := hshape "template"
    obtain ⟨changeIndex, hkept⟩ := hall dataTransfer dataTransferPlan template
      planRbfReplacement_dataTransfer htemplate (by decide)
    have hcount := congrArg List.length hkept
    rw [List.length_map, List.length_map] at hcount
    have herased := List.length_eraseIdx_le template.outputs changeIndex
    have hone : dataTransferPlan.encoderOpts.customOutputs.length = 1 := rfl
    rw [List.length_eraseIdx, hlength, hone] at hcount
    split at hcount <;> omega
  · obtain ⟨conflict, hconflict, -, hin, hout⟩ := hshape "conflict"
    have hquarter := hall dataTransfer dataTransferPlan conflict
      planRbfReplacement_dataTransfer hconflict
    rw [hin, hout] at hquarter
    exact absurd hquarter (by decide)

end RbfPlan

end XchainWallet
