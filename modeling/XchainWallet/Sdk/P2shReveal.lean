import Mathlib.Algebra.BigOperators.Group.Multiset.Basic
import XchainWallet.Flows.EnvelopeRevealCheck

/-!
# The checks on a two-phase reveal

The commit of a P2SH or P2WSH action pays none of the action's outputs; the reveal pays them, and is
built after the user approved. Before it is signed, `revealOutputsRefusal` holds its outputs against
the deferred outputs, and `revealInputsRefusal` its inputs against the data legs of the commit.

Both sides are read from an answer of a service: a list may be missing, and an entry may be missing
or lack any of its fields.
-/

namespace XchainWallet.ConfirmChecks

open Checks Matching Wire
open Option (some_ne_none)
open Multiset (map_add map_coe map_cons mem_coe sum_add sum_coe sum_cons)

/-! ### The outputs -/

/-- `MARKER_PAYLOAD_BYTES`. -/
def MARKER_PAYLOAD_BYTES : String → Option ℕ
  | "P2SH" => some 8
  | "P2WSH" => some 9
  | _ => none

/-- An OP_RETURN with one push no longer than the encoding's marker. -/
def isRevealMarker (encoding : String) (out : PsbtOutput) : Bool :=
  let script := ((out.scriptPubKeyHex.getD "").toList.flatMap jsLower)
  match MARKER_PAYLOAD_BYTES encoding, script with
  | some markerBytes, '6' :: 'a' :: high :: low :: _ =>
    match hexValue? high, hexValue? low with
    | some h, some l => 16 * h + l ≤ markerBytes ∧ jsLength script = 4 + (16 * h + l) * 2
    | _, _ => false
  | _, _ => false

/-- `revealOutputs[i] || {}`. -/
def orEmpty (out : Option PsbtOutput) : PsbtOutput := out.getD ⟨none, none, none, .undefined⟩

/-- The output goes to an address of the wallet, as `String` shows it. -/
def paysOwnShown (ownAddresses : List String) (out : PsbtOutput) : Bool :=
  out.address.any fun address => address.shown ≠ "" ∧ address.shown ∈ ownAddresses

structure RevealOutputsRefusal where
  reason : String
  unexpected : List UnexpectedOutput
  missing : List RequestedOutput
deriving DecidableEq

/-- An output the reveal has to pay, as a slot. -/
def slotOf (o : RequestedOutput) : AddressedOutput := ⟨o.address, o.value, false⟩

/-- The one zero-value marker. -/
def isZeroMarker (encoding : String) (out : PsbtOutput) : Bool :=
  isRevealMarker encoding out && sameSats out.value (.number (some 0))

/-- A noun after its number. -/
def counted (n : ℕ) (noun : String) : String := toString n ++ " " ++ noun ++ (if n = 1 then "" else "s")

def revealOutputsRefusal (revealOutputs : Option (List (Option PsbtOutput)))
    (deferredOutputs : List RequestedOutput) (ownAddresses : List String) (encoding : String) :
    Option RevealOutputsRefusal :=
  match revealOutputs with
  | none => some ⟨"could not be read as a set of outputs", [], []⟩
  | some [] => some ⟨"could not be read as a set of outputs", [], []⟩
  | some (out :: outs) =>
    let outcome := sort pays (paysOwnShown ownAddresses) (isZeroMarker encoding)
      (deferredOutputs.map slotOf) 1 0 ((out :: outs).map orEmpty)
    let unexpected : List UnexpectedOutput :=
      outcome.refused.map fun (i, out) => ⟨i, out.address, out.value, out.scriptType⟩
    let missing : List RequestedOutput := outcome.missing.map fun s => ⟨s.address, s.value⟩
    if unexpected = [] ∧ missing = [] then none
    else
      let reason :=
        if unexpected ≠ [] then "pays " ++ counted unexpected.length "output" ++ " you did not approve"
        else "leaves out " ++ counted missing.length "payment" ++ " you approved"
      some ⟨reason, unexpected, missing⟩

/-- What the thrown refusal says of the commit. -/
structure RevealRefused (ρ : Type) where
  refusal : ρ
  phase1Txid : String
  phase1TxHex : String
  chainId : String
  encoding : String

def RevealOutputsRefusedError.message (e : RevealRefused RevealOutputsRefusal) : String :=
  "The revealing transaction built for this action was not signed: it " ++ e.refusal.reason ++
    ". The commit " ++ e.phase1Txid ++ " was signed and not broadcast, so nothing was sent."

/-- The outputs of the reveal are `none` where it cannot be decomposed. -/
def assertRevealPaysApprovedOutputs (revealOutputs : Option (List (Option PsbtOutput)))
    (deferredOutputs : List RequestedOutput) (ownAddresses : List String)
    (phase1Txid phase1TxHex chainId encoding : String) :
    Except (RevealRefused RevealOutputsRefusal) Unit :=
  match revealOutputsRefusal revealOutputs deferredOutputs ownAddresses encoding with
  | none => .ok ()
  | some refusal => .error ⟨refusal, phase1Txid, phase1TxHex, chainId, encoding⟩

/-! ### The inputs -/

/-- `LEG_SCRIPT_TYPE`. -/
def LEG_SCRIPT_TYPE : String → Option ScriptType
  | "P2SH" => some .p2sh
  | "P2WSH" => some .p2wsh
  | _ => none

structure RevealInputsRefusal where
  reason : String
  inputIndex : Option ℕ
deriving DecidableEq

/-- The letters of a text, in lower case. -/
def lowered (s : String) : List Char := s.toList.flatMap jsLower

/-- The script that the input unlocks, where its type is that of a leg. -/
def dataScript (legType : ScriptType) (input : PsbtInput) : Option String :=
  (if legType = .p2sh then input.redeemScriptHex else input.witnessScriptHex).filter (· ≠ "")

/-- `Number.isInteger(prevTxIndex)`. -/
def integerIndex (index : JsNumber) : Option ℤ :=
  index.bind fun q => if q.den = 1 then some q.num else none

/-- `outputs[vout]?.scriptType`. -/
def legTypeAt (outputs : List (Option PsbtOutput)) (vout : ℤ) : Option ScriptType :=
  if 0 ≤ vout then (outputs[vout.toNat]?.bind id).bind (·.scriptType) else none

/-- The entry names the commit as the transaction it spends from. -/
def SpendsCommit (commitTxid : List Char) (entry : Option PsbtInput) : Prop :=
  commitTxid ≠ [] ∧ lowered ((entry.bind (·.prevTxHash)).getD "") = commitTxid

instance (commitTxid : List Char) (entry : Option PsbtInput) :
    Decidable (SpendsCommit commitTxid entry) := inferInstanceAs (Decidable (_ ∧ _))

/-- Each input in its turn, from index `i` on, with the indices of the commit spent so far. -/
def checkLegs (legType : ScriptType) (outputs : List (Option PsbtOutput)) (commitTxid : List Char) :
    ℕ → List ℤ → List (Option PsbtInput) → Option RevealInputsRefusal
  | _, _, [] => none
  | i, spent, entry :: entries =>
    if ¬SpendsCommit commitTxid entry then
      some ⟨"spends coin from outside the commit", some i⟩
    else
      match entry.bind fun input => integerIndex input.prevTxIndex with
      | none => some ⟨"names no single commit output", some i⟩
      | some vout =>
        if vout ∈ spent then some ⟨"names no single commit output", some i⟩
        else if legTypeAt outputs vout ≠ some legType then
          some ⟨"spends a commit output that is not a data leg", some i⟩
        else if entry.bind (·.scriptType) ≠ some legType ∨ entry.bind (dataScript legType) = none then
          some ⟨"unlocks a key script, not a data script", some i⟩
        else checkLegs legType outputs commitTxid (i + 1) (vout :: spent) entries

def revealInputsRefusal (revealInputs : Option (List (Option PsbtInput)))
    (phase1Outputs : Option (List (Option PsbtOutput))) (phase1Txid : Option String)
    (encoding : String) : Option RevealInputsRefusal :=
  match LEG_SCRIPT_TYPE encoding with
  | none => some ⟨"uses an encoding with no data legs (" ++ encoding ++ ")", none⟩
  | some legType =>
    match revealInputs with
    | none => some ⟨"could not be read as a set of inputs", none⟩
    | some [] => some ⟨"could not be read as a set of inputs", none⟩
    | some (input :: inputs) =>
      checkLegs legType (phase1Outputs.getD []) (lowered (phase1Txid.getD "")) 0 [] (input :: inputs)

def RevealInputsRefusedError.message (e : RevealRefused RevealInputsRefusal) : String :=
  "The revealing transaction built for this action was not signed: " ++
    (match e.refusal.inputIndex with
      | none => "it"
      | some i => "its input " ++ toString i) ++ " " ++ e.refusal.reason ++ ". The commit " ++
    e.phase1Txid ++ " was signed and not broadcast, so nothing was sent."

/-- The inputs of the reveal are `none` where it cannot be decomposed. -/
def assertRevealSpendsCommitLegs (revealInputs : Option (List (Option PsbtInput)))
    (phase1Outputs : Option (List (Option PsbtOutput)))
    (phase1Txid phase1TxHex chainId encoding : String) :
    Except (RevealRefused RevealInputsRefusal) Unit :=
  match revealInputsRefusal revealInputs phase1Outputs (some phase1Txid) encoding with
  | none => .ok ()
  | some refusal => .error ⟨refusal, phase1Txid, phase1TxHex, chainId, encoding⟩

/-! ### Outputs that are accepted -/

/-- **The outputs pay what was approved**: the deferred outputs, each once at its address and exact
value, outputs to the wallet's own addresses, and at most one marker of value zero. -/
def PaysApproved (outputs : List PsbtOutput) (deferredOutputs : List RequestedOutput)
    (ownAddresses : List String) (encoding : String) : Prop :=
  Splits pays (paysOwnShown ownAddresses) (isZeroMarker encoding) (deferredOutputs.map slotOf) 1
    outputs

theorem uniform_revealOutputs {outputs : List PsbtOutput} (h : ReadOffScripts outputs)
    (ownAddresses : List String) (encoding : String) :
    Uniform pays (paysOwnShown ownAddresses) (isZeroMarker encoding) outputs := by
  intro s a ha b hb hsa hsb
  obtain ⟨haddr, n, hsn, han⟩ := pays_iff.mp hsa
  obtain ⟨hbddr, m, hsm, hbm⟩ := pays_iff.mp hsb
  have hnm : n = m := Option.some.inj (hsn.symm.trans hsm)
  have hsame : a.address = b.address := haddr.trans hbddr.symm
  obtain ⟨hscript, -⟩ := h a (mem_coe.mp ha) b (mem_coe.mp hb) hsame
    (haddr ▸ some_ne_none _)
  refine ⟨by rw [paysOwnShown, paysOwnShown, hsame], ?_⟩
  rw [isZeroMarker, isZeroMarker, isRevealMarker, isRevealMarker, hscript, sameSats, sameSats, han,
    hbm, hnm]

variable {outputs : List (Option PsbtOutput)}

/-- The outputs are accepted exactly when there is one at least and they pay what was approved. -/
theorem revealOutputsRefusal_eq_none (h : ReadOffScripts (outputs.map orEmpty))
    (deferredOutputs : List RequestedOutput) (ownAddresses : List String) (encoding : String) :
    revealOutputsRefusal (some outputs) deferredOutputs ownAddresses encoding = none ↔
      outputs ≠ [] ∧ PaysApproved (outputs.map orEmpty) deferredOutputs ownAddresses encoding := by
  cases outputs with
  | nil => simp [revealOutputsRefusal]
  | cons out outs =>
    have hiff : (sort pays (paysOwnShown ownAddresses) (isZeroMarker encoding)
        (deferredOutputs.map slotOf) 1 0 ((out :: outs).map orEmpty)).Ok ↔
        PaysApproved ((out :: outs).map orEmpty) deferredOutputs ownAddresses encoding :=
      sort_ok_iff difunctional_pays (uniform_revealOutputs h ownAddresses encoding)
    simp only [revealOutputsRefusal, ite_eq_left_iff, reduceCtorEq, imp_false, not_not,
      List.map_eq_nil_iff, ne_eq, not_false_eq_true, true_and]
    exact hiff

/-- Accepted outputs pay what was approved, whatever is known of their scripts. -/
theorem paysApproved_of_none {deferredOutputs : List RequestedOutput} {ownAddresses : List String}
    {encoding : String}
    (h : revealOutputsRefusal (some outputs) deferredOutputs ownAddresses encoding = none) :
    PaysApproved (outputs.map orEmpty) deferredOutputs ownAddresses encoding := by
  cases outputs with
  | nil => exact absurd h (some_ne_none _)
  | cons out outs =>
    simp only [revealOutputsRefusal, ite_eq_left_iff, reduceCtorEq, imp_false, not_not,
      List.map_eq_nil_iff] at h
    obtain ⟨hle, hsplit⟩ := splitsWith_of_sort_ok h
    exact ⟨_, hle, hsplit⟩

/-- The satoshis of an output, where they are an exact amount. -/
def satsOf (value : Amount) : ℤ := (toSats value).getD 0

theorem sum_of_rel {slots : Multiset AddressedOutput} {paid : Multiset PsbtOutput}
    (h : Multiset.Rel (fun s out => pays s out = true) slots paid) :
    (paid.map fun out => satsOf out.value).sum = (slots.map fun s => satsOf s.value).sum := by
  induction h with
  | zero => rfl
  | cons hpays _ ih =>
    obtain ⟨-, n, hs, hout⟩ := pays_iff.mp hpays
    rw [map_cons, map_cons, sum_cons, sum_cons, ih, satsOf,
      satsOf, hs, hout]

/-- What an accepted reveal pays: the deferred outputs and the wallet, and in sum no more. -/
def MovesApproved (outputs : List PsbtOutput) (deferredOutputs : List RequestedOutput)
    (ownAddresses : List String) : Prop :=
  ∃ paid change markers : Multiset PsbtOutput, (outputs : Multiset PsbtOutput) = paid + change + markers ∧
    Multiset.Rel (fun s out => pays s out = true) (deferredOutputs.map slotOf) paid ∧
    (∀ out ∈ change, paysOwnShown ownAddresses out = true) ∧
    (∀ out ∈ markers, toSats out.value = some 0) ∧
    (outputs.map fun out => satsOf out.value).sum =
      (deferredOutputs.map fun o => satsOf o.value).sum + (change.map fun out => satsOf out.value).sum

theorem PaysApproved.moves {outputs : List PsbtOutput} {deferredOutputs : List RequestedOutput}
    {ownAddresses : List String} {encoding : String}
    (h : PaysApproved outputs deferredOutputs ownAddresses encoding) :
    MovesApproved outputs deferredOutputs ownAddresses := by
  obtain ⟨used, -, paid, change, markers, houtputs, hrel, hchange, hmarkers, -⟩ := h
  have hzero : ∀ out ∈ markers, toSats out.value = some 0 := by
    intro out hout
    have hmarker := hmarkers out hout
    rw [isZeroMarker, Bool.and_eq_true, sameSats_iff] at hmarker
    obtain ⟨-, n, hn, hzero⟩ := hmarker
    have hsats : toSats (.number (some 0)) = some 0 := by decide
    rw [hsats] at hzero
    rw [hn, ← hzero]
  refine ⟨paid, change, markers, houtputs, hrel, hchange, hzero, ?_⟩
  have hmarked : (markers.map fun out => satsOf out.value).sum = 0 := by
    refine Multiset.sum_eq_zero fun n hn => ?_
    obtain ⟨out, hout, rfl⟩ := Multiset.mem_map.mp hn
    rw [satsOf, hzero out hout, Option.getD_some]
  have hslots : ((deferredOutputs.map slotOf : List AddressedOutput) : Multiset AddressedOutput).map
      (fun s => satsOf s.value) = (deferredOutputs.map fun o => satsOf o.value : List ℤ) := by
    rw [map_coe, List.map_map]
    rfl
  calc (outputs.map fun out => satsOf out.value).sum
      = ((outputs : Multiset PsbtOutput).map fun out => satsOf out.value).sum := by
        rw [map_coe, sum_coe]
    _ = (paid.map fun out => satsOf out.value).sum + (change.map fun out => satsOf out.value).sum := by
        rw [houtputs, map_add, map_add, sum_add, sum_add,
          hmarked, add_zero]
    _ = _ := by rw [sum_of_rel hrel, hslots, sum_coe]

/-! ### Inputs that are accepted -/

/-- The entry spends the output of the commit at `vout`, which is a data leg, and unlocks its data
script. -/
structure DataLeg (legType : ScriptType) (outputs : List (Option PsbtOutput))
    (commitTxid : List Char) (entry : Option PsbtInput) (vout : ℤ) : Prop where
  commit : SpendsCommit commitTxid entry
  index : (entry.bind fun input => integerIndex input.prevTxIndex) = some vout
  leg : legTypeAt outputs vout = some legType
  unlocks : entry.bind (·.scriptType) = some legType ∧ entry.bind (dataScript legType) ≠ none

/-- Each input spends a data leg of the commit of its own. -/
def DistinctLegs (legType : ScriptType) (outputs : List (Option PsbtOutput))
    (commitTxid : List Char) (inputs : List (Option PsbtInput)) : Prop :=
  ∃ vouts : List ℤ, vouts.Nodup ∧ List.Forall₂ (DataLeg legType outputs commitTxid) inputs vouts

/-- The loop over the inputs, with the indices spent before it. -/
theorem legs_of_checkLegs {legType : ScriptType} {commitTxid : List Char} {i : ℕ} {spent : List ℤ}
    {entries : List (Option PsbtInput)}
    (h : checkLegs legType outputs commitTxid i spent entries = none) :
    ∃ vouts : List ℤ, vouts.Nodup ∧ (∀ vout ∈ vouts, vout ∉ spent) ∧
      List.Forall₂ (DataLeg legType outputs commitTxid) entries vouts := by
  induction entries generalizing i spent with
  | nil => exact ⟨[], List.nodup_nil, by simp, .nil⟩
  | cons entry entries ih =>
    unfold checkLegs at h
    split at h
    · exact absurd h (some_ne_none _)
    rename_i hcommit
    split at h
    · exact absurd h (some_ne_none _)
    rename_i vout hindex
    split at h
    · exact absurd h (some_ne_none _)
    rename_i hfresh
    split at h
    · exact absurd h (some_ne_none _)
    rename_i hleg
    split at h
    · exact absurd h (some_ne_none _)
    rename_i hunlocks
    rw [not_or, not_not] at hunlocks
    obtain ⟨vouts, hnodup, hspent, hlegs⟩ := ih h
    refine ⟨vout :: vouts, List.nodup_cons.mpr ⟨fun hmem => ?_, hnodup⟩, fun v hv => ?_, ?_⟩
    · exact hspent vout hmem (.head _)
    · obtain rfl | hv := List.mem_cons.mp hv
      · exact hfresh
      · exact fun hmem => hspent v hv (.tail _ hmem)
    · exact .cons ⟨not_not.mp hcommit, hindex, not_not.mp hleg, hunlocks⟩ hlegs

theorem distinctLegs_of_none {revealInputs : Option (List (Option PsbtInput))}
    {phase1Outputs : Option (List (Option PsbtOutput))} {phase1Txid : Option String}
    {encoding : String}
    (h : revealInputsRefusal revealInputs phase1Outputs phase1Txid encoding = none) :
    ∃ legType entries, LEG_SCRIPT_TYPE encoding = some legType ∧ revealInputs = some entries ∧
      DistinctLegs legType (phase1Outputs.getD []) (lowered (phase1Txid.getD "")) entries := by
  unfold revealInputsRefusal at h
  split at h
  · exact absurd h (some_ne_none _)
  rename_i legType hlegType
  split at h
  · exact absurd h (some_ne_none _)
  · exact absurd h (some_ne_none _)
  · rename_i input inputs
    obtain ⟨vouts, hnodup, -, hlegs⟩ := legs_of_checkLegs h
    exact ⟨legType, input :: inputs, hlegType, rfl, vouts, hnodup, hlegs⟩

/-! ### Accepted reveals -/

/-- **The outputs of a reveal are accepted exactly when there are some and they pay what was
approved; accepted inputs are data legs of the commit, each spent once**; so an accepted reveal moves
value to the approved payments and to the wallet only. The reveal of an envelope spends the funded
output of its commit and pays the wallet only. -/
theorem reveal_pays_approved :
    (∀ revealOutputs deferredOutputs ownAddresses encoding,
      (∀ outputs, revealOutputs = some outputs → ReadOffScripts (outputs.map orEmpty)) →
      (revealOutputsRefusal revealOutputs deferredOutputs ownAddresses encoding = none ↔
        ∃ outputs, revealOutputs = some outputs ∧ outputs ≠ [] ∧
          PaysApproved (outputs.map orEmpty) deferredOutputs ownAddresses encoding)) ∧
    (∀ revealInputs phase1Outputs phase1Txid encoding,
      revealInputsRefusal revealInputs phase1Outputs phase1Txid encoding = none →
      ∃ legType entries, LEG_SCRIPT_TYPE encoding = some legType ∧ revealInputs = some entries ∧
        DistinctLegs legType (phase1Outputs.getD []) (lowered (phase1Txid.getD "")) entries) ∧
    (∀ outputs deferredOutputs ownAddresses encoding,
      revealOutputsRefusal (some outputs) deferredOutputs ownAddresses encoding = none →
      MovesApproved (outputs.map orEmpty) deferredOutputs ownAddresses) ∧
    ∀ args, checkEnvelopeReveal args = none → ∃ envelope funded spent,
      args.envelope = some envelope ∧ SoundEnvelopeReveal args envelope funded spent := by
  refine ⟨?_, fun _ _ _ _ h => distinctLegs_of_none h, fun _ _ _ _ h => (paysApproved_of_none h).moves,
    fun _ h => checkEnvelopeReveal_sound h⟩
  intro revealOutputs deferredOutputs ownAddresses encoding hscripts
  cases revealOutputs with
  | none => simp [revealOutputsRefusal]
  | some outputs =>
    rw [revealOutputsRefusal_eq_none (hscripts outputs rfl)]
    simp

/-- A reveal that pays one deferred output, with change and the marker. -/
private def paidReveal : List (Option PsbtOutput) :=
  [some ⟨none, some "6A04DEADBEEF", some .unknown, .number (some 0)⟩,
    some ⟨some (.text "change"), some "0014aa", some .p2wpkh, .number (some 900)⟩,
    some ⟨some (.text "payee"), some "0014dd", some .p2wpkh, .text "5000"⟩]

theorem reveal_pays_approved_payee :
    PaysApproved (paidReveal.map orEmpty) [⟨"payee", .number (some 5000)⟩] ["change"] "P2SH" ∧
      MovesApproved (paidReveal.map orEmpty) [⟨"payee", .number (some 5000)⟩] ["change"] := by
  have haccepted : revealOutputsRefusal (some paidReveal) [⟨"payee", .number (some 5000)⟩] ["change"]
      "P2SH" = none := by decide
  have hscripts : ReadOffScripts (paidReveal.map orEmpty) := by decide
  obtain ⟨houtputs, -, hmoves, -⟩ := reveal_pays_approved
  obtain ⟨outputs, hsome, -, hpays⟩ := (houtputs (some paidReveal) [⟨"payee", .number (some 5000)⟩]
    ["change"] "P2SH" (fun outputs h => Option.some.inj h ▸ hscripts)).mp haccepted
  exact ⟨Option.some.inj hsome ▸ hpays, hmoves _ _ _ _ haccepted⟩

/-- A reveal without outputs is refused although nothing was to be paid. -/
theorem not_accepted_of_paysApproved :
    ¬ ∀ outputs deferredOutputs ownAddresses encoding, ReadOffScripts (outputs.map orEmpty) →
      (revealOutputsRefusal (some outputs) deferredOutputs ownAddresses encoding = none ↔
        PaysApproved (outputs.map orEmpty) deferredOutputs ownAddresses encoding) := by
  intro h
  have hsplits : PaysApproved (([] : List (Option PsbtOutput)).map orEmpty) [] [] "P2SH" :=
    ⟨0, Nat.zero_le 1, splitsWith_zero⟩
  have haccepted := (h [] [] [] "P2SH" (by decide)).mpr hsplits
  exact absurd haccepted (Option.some_ne_none _)

end XchainWallet.ConfirmChecks
