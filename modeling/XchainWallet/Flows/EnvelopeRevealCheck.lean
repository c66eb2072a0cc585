import XchainWallet.Flows.ConfirmChecks

/-!
# The check on an envelope reveal

The reveal of a Taproot envelope is signed on the approval of its commit. `checkEnvelopeReveal`
holds it to the same standard: it spends the one output of the commit that funds the envelope, pays
addresses of the wallet only, and carries the approved action. What decodes the reveal and what
binds its carrier to the action belong to another package.
-/

namespace XchainWallet.ConfirmChecks

/-! ### The check -/

/-- The recovery record of an envelope. -/
structure Envelope where
  commitTxid : String
  commitVout : ℚ
  commitValue : Amount
  commitAddress : String

inductive EnvelopeRefusal
  | commitOutputMismatch
  | revealInputCount
  | revealSpendsOtherOutpoint
  | revealPrevoutMismatch
  | revealPaysForeignAddress
  | revealActionMismatch
  | revealCarrierBinding
  | revealActionUndecodable (decodeReason : Option String)
deriving DecidableEq

/-- The machine-readable code of a refusal. -/
def EnvelopeRefusal.reason : EnvelopeRefusal → String
  | commitOutputMismatch => "COMMIT_OUTPUT_MISMATCH"
  | revealInputCount => "REVEAL_INPUT_COUNT"
  | revealSpendsOtherOutpoint => "REVEAL_SPENDS_OTHER_OUTPOINT"
  | revealPrevoutMismatch => "REVEAL_PREVOUT_MISMATCH"
  | revealPaysForeignAddress => "REVEAL_PAYS_FOREIGN_ADDRESS"
  | revealActionMismatch => "REVEAL_ACTION_MISMATCH"
  | revealCarrierBinding => "REVEAL_CARRIER_BINDING"
  | revealActionUndecodable _ => "REVEAL_ACTION_UNDECODABLE"

def UNDECODABLE_SIZE_REASONS : List String :=
  ["REST_FIELD_UNSUPPORTED", "REST_FIELD_TOO_LONG", "UNKNOWN_ACTION"]

/-- What the check is asked about. `decodeRevealAction` is `none` where it throws, and the binding
rule says whether it returns. -/
structure EnvelopeArgs where
  commit : Decomposed
  reveal : Decomposed
  envelope : Option Envelope
  ownAddresses : List String
  actionString : Option String
  decodeRevealAction : Option DecodedAction
  revealPsbt : String
  network : Option String
  assertEnvelopeCarrierBinding : Option (String → Option String → Option String → Bool)

/-- `outputs[index]` for a number. -/
def outputAt (outputs : List PsbtOutput) (index : ℚ) : Option PsbtOutput :=
  if index.den = 1 ∧ 0 ≤ index.num then outputs[index.num.toNat]? else none

/-- The decoder refused the number of fields of an action, whatever its bytes. -/
def undecodableSize (decoded : DecodedAction) : Bool :=
  !decoded.ok && decoded.reason.any (· ∈ UNDECODABLE_SIZE_REASONS)

/-- The decoder read the approved action. -/
def spellsAction (decoded : DecodedAction) (actionString : Option String) : Bool :=
  decoded.ok && decoded.actionString.any fun s => actionString = some s

/-- The refusal of a reveal, `none` where it is accepted. -/
def checkEnvelopeReveal (args : EnvelopeArgs) : Option EnvelopeRefusal :=
  match args.envelope with
  | none => some .commitOutputMismatch
  | some envelope =>
    match outputAt args.commit.outputs envelope.commitVout with
    | none => some .commitOutputMismatch
    | some funded =>
      if funded.address ≠ some (.text envelope.commitAddress) ∨
          sameSats funded.value envelope.commitValue = false then some .commitOutputMismatch
      else
        match args.reveal.inputs with
        | [spent] =>
          if spent.prevTxHash ≠ some envelope.commitTxid ∨
              spent.prevTxIndex ≠ some envelope.commitVout then some .revealSpendsOtherOutpoint
          else if sameSats spent.value funded.value = false ∨
              spent.scriptPubKeyHex ≠ funded.scriptPubKeyHex then some .revealPrevoutMismatch
          else if args.reveal.outputs = [] ∨
              args.reveal.outputs.all (paysOwn args.ownAddresses) = false then
            some .revealPaysForeignAddress
          else
            let undecodable := args.decodeRevealAction.any undecodableSize
            let spelled := args.decodeRevealAction.any (spellsAction · args.actionString)
            if undecodable = false ∧ spelled = false then some .revealActionMismatch
            else if args.assertEnvelopeCarrierBinding.any
                (· args.revealPsbt args.actionString args.network) = false then
              some .revealCarrierBinding
            else if undecodable = true then
              some (.revealActionUndecodable (args.decodeRevealAction.bind (·.reason)))
            else none
        | _ => some .revealInputCount

def envelopeRevealRefusalMessage (refusal : EnvelopeRefusal) : String :=
  if refusal.reason = "REVEAL_ACTION_UNDECODABLE" then
    "This wallet cannot yet verify actions of this size. Split it into smaller actions."
  else ACTION_MISMATCH

/-! ### What an accepted reveal does -/

/-- The reveal spends the funded output of the commit and nothing else, pays the wallet only, and
spells the action. -/
structure SoundEnvelopeReveal (args : EnvelopeArgs) (envelope : Envelope) (funded : PsbtOutput)
    (spent : PsbtInput) : Prop where
  commit : outputAt args.commit.outputs envelope.commitVout = some funded
  funds : funded.address = some (.text envelope.commitAddress) ∧
    sameSats funded.value envelope.commitValue = true
  only : args.reveal.inputs = [spent]
  outpoint : spent.prevTxHash = some envelope.commitTxid ∧ spent.prevTxIndex = some envelope.commitVout
  prevout : sameSats spent.value funded.value = true ∧ spent.scriptPubKeyHex = funded.scriptPubKeyHex
  change : args.reveal.outputs ≠ [] ∧ ∀ out ∈ args.reveal.outputs, paysOwn args.ownAddresses out = true
  action : ∃ decoded, args.decodeRevealAction = some decoded ∧
    spellsAction decoded args.actionString = true
  bound : ∃ rule, args.assertEnvelopeCarrierBinding = some rule ∧
    rule args.revealPsbt args.actionString args.network = true

/-- **An accepted envelope reveal moves the wallet's own coin only.** -/
theorem checkEnvelopeReveal_sound {args : EnvelopeArgs} (h : checkEnvelopeReveal args = none) :
    ∃ envelope funded spent, args.envelope = some envelope ∧
      SoundEnvelopeReveal args envelope funded spent := by
  unfold checkEnvelopeReveal at h
  cases henvelope : args.envelope with
  | none => simp [henvelope] at h
  | some envelope =>
  cases hfunded : outputAt args.commit.outputs envelope.commitVout with
  | none => simp [henvelope, hfunded] at h
  | some funded =>
  simp only [henvelope, hfunded] at h
  split at h
  · exact absurd h (Option.some_ne_none _)
  rename_i hfunds
  split at h
  · rename_i spent honly
    split at h
    · exact absurd h (Option.some_ne_none _)
    rename_i houtpoint
    split at h
    · exact absurd h (Option.some_ne_none _)
    rename_i hprevout
    split at h
    · exact absurd h (Option.some_ne_none _)
    rename_i hchange
    split at h
    · exact absurd h (Option.some_ne_none _)
    rename_i haction
    split at h
    · exact absurd h (Option.some_ne_none _)
    rename_i hbound
    split at h
    · exact absurd h (Option.some_ne_none _)
    rename_i hsize
    rw [not_or, not_not, Bool.not_eq_false] at hfunds hprevout
    rw [not_or, not_not, not_not] at houtpoint
    rw [not_or, Bool.not_eq_false, List.all_eq_true] at hchange
    rw [Bool.not_eq_true] at hsize
    -- A reveal that the decoder cannot read is refused last; this one it reads.
    have hspelled : args.decodeRevealAction.any (spellsAction · args.actionString) = true :=
      Bool.eq_true_of_not_eq_false fun hno => haction ⟨hsize, hno⟩
    have hrule := Bool.eq_true_of_not_eq_false hbound
    rw [Option.any_eq_true] at hspelled hrule
    exact ⟨envelope, funded, spent, rfl, hfunded, hfunds, honly, houtpoint, hprevout, hchange,
      hspelled, hrule⟩
  · exact absurd h (Option.some_ne_none _)

end XchainWallet.ConfirmChecks
