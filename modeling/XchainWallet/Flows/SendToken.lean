import XchainWallet.Flows.SendLegs

/-!
# The flows of a SEND and a SWEEP

`sendToken` and `sweepToken` shape what a caller asks for into the action and the encoder options
that `submitAction` is handed. A caller's options are values under names, beside the source, which is
a record of the vault, and the trusted options. A send of a token with gated content goes out as a
BATCH of the SEND and the message that hands the keys over.

What the network and the vault answer is a parameter: whether an address is valid for the chain,
which sends are gated, the key hand-off, and the action strings of the kit.
-/

namespace XchainWallet.SendFlow

open Checks Json

/-! ### Sources -/

/-- An address record of the vault; its fields are empty where they are no text. -/
structure SourceRecord where
  address : Units
  publicKey : Units
  watchOnly : Bool
  derivationPath : Units
  addressId : Units
  id : Units
deriving DecidableEq

/-- How the signer finds the key of an input. -/
inductive SigningPath
  | path (path : Units)
  | addressId (addressId : Units)
deriving DecidableEq

structure SourceRef where
  address : Units
  publicKey : Units
  signing : SigningPath
deriving DecidableEq

inductive FlowError
  | send (e : SendError)
  | invalidDestination (fnName : String) (address : Units)
  | source (fnName message : String)
  | noFlags
  | gatedMemo
  | gated (message : Units)
  | multiSend (message : Units)

def normalizeSource (source : Option SourceRecord) (fnName : String) : Except FlowError SourceRef := do
  let source ← orRefuse source (.source fnName "from is required")
  refuseIf (source.address = []) (.source fnName "from.address must be a non-empty string")
  refuseIf (source.publicKey = []) (.source fnName "from.publicKey must be a non-empty string")
  refuseIf (source.watchOnly = true)
    (.source fnName "from.source = \"watch-only\"; this address has no signer")
  if source.derivationPath ≠ [] then
    pure ⟨source.address, source.publicKey, .path source.derivationPath⟩
  else do
    let addressId := if source.addressId ≠ [] then source.addressId else source.id
    refuseIf (addressId = []) (.source fnName
      "from.derivationPath is null; imported-WIF source must include an addressId (Address record's id)")
    pure ⟨source.address, source.publicKey, .addressId addressId⟩

/-! ### What is submitted -/

structure SweepParams where
  DESTINATION : Option Value
  BALANCES : Bool
  OWNERSHIPS : Bool
  ORDERS : Bool
  SWAPS : Bool
  DISPENSERS : Bool
  MEMO : Option Value

inductive ActionData
  | send (params : SendParams)
  | batch (COMMAND : Units)
  | sweep (params : SweepParams)

/-- What an action string is asked of the kit for. -/
inductive CreateAction
  | send (TICK AMOUNT DESTINATION : Units) (MEMO : Option Units)
  | message (COIN DESTINATION ENCRYPTED_MESSAGE : Units)

structure PaymentOutput where
  address : Units
  value : Units
deriving DecidableEq

structure PendingTxMeta where
  fromAddress : Units
  toAddress : Option Value
  actionSummary : Units
  balanceDebits : List (Units × Units)

/-- What `submitAction` is handed. -/
structure Submission where
  walletId : Option Units
  password : Units
  chainId : Units
  actionData : ActionData
  pubkey : Units
  change : Option Value
  sourceAddress : Units
  utxos : Option Value
  customOutputs : List PaymentOutput
  fee : Option Value
  feePerKb : Option Value
  rbf : Option Value
  payFeeInNativeCoin : Option Value
  prebuiltPsbt : Option Value
  signing : SigningPath
  pendingTxMeta : Option PendingTxMeta
  verifyBuiltTx : Bool

/-- The options of a flow: the values under their names, and what the caller vouches for. -/
structure FlowOpts where
  value : String → Option Value
  source : Option SourceRecord
  walletId : Option Units
  password : Units
  chainId : Units
  trackPendingTx : Bool
  verifyBuiltTx : Bool

/-- What the flows ask of the network, the vault and the kit. -/
structure FlowEnv where
  validDestination : Units → Bool
  nativePaymentOutput : SendLeg → Option PaymentOutput
  assertMultiSend : List SendLeg → Except FlowError Unit
  multiSummary : List SendLeg → Units
  gatedSend : SourceRef → SendLeg → Except FlowError Bool
  keyHandoff : SourceRef → SendLeg → Except FlowError (Units × Units)
  createAction : CreateAction → Except FlowError Units

variable (env : FlowEnv)

/-- The text that the check of a destination reads. -/
def destinationText (v : Option Value) : Except FlowError Units :=
  if truthy v then orRefuse ((shown v).map trimUnits) (.send .unreadable) else pure []

def assertValidDestination (fnName : String) (address : Units) : Except FlowError Unit :=
  refuseIf (env.validDestination address = false) (.invalidDestination fnName address)

/-! ### SEND -/

/-- The memo of a gated send would splice another command into the batch. -/
def splices (memo : Option Units) : Bool :=
  memo.any fun text => text.any fun u => u = UInt16.ofNat 124 ∨ u = UInt16.ofNat 59

/-- The batch of a gated send, and `none` where the send is not gated. -/
def prepareGatedSend (source : SourceRef) (leg : SendLeg) : Except FlowError (Option ActionData) := do
  let gated ← env.gatedSend source leg
  if gated = false then pure none
  else do
    refuseIf (splices leg.memo = true) .gatedMemo
    let (coin, ciphertext) ← env.keyHandoff source leg
    let sendCmd ← env.createAction (.send leg.tick leg.amount leg.recipient leg.memo)
    let messageCmd ← env.createAction (.message coin leg.recipient ciphertext)
    pure (some (.batch (sendCmd ++ units ";" ++ messageCmd)))

def summarizeSendLegs (legs : List SendLeg) : Units :=
  match legs with
  | [] => units "Send"
  | [leg] =>
    units "Send " ++ leg.amount ++ units " " ++ leg.tick ++ units " to " ++ leg.recipient ++
      (match leg.memo with
        | none => []
        | some memo => units " (memo: \"" ++ memo ++ units "\")")
  | legs => env.multiSummary legs

def sendRequest (opts : FlowOpts) : SendRequest :=
  { recipient := opts.value "to"
    tick := opts.value "tick"
    amount := opts.value "amount"
    memo := opts.value "memo"
    legs := opts.value "legs" }

/-- `opts.actionSummary`, where it is a text that is not blank. -/
def ownSummary (opts : FlowOpts) : Option Units :=
  ((text? (opts.value "actionSummary")).map trimUnits).filter (· ≠ [])

/-- Several recipients are refused for a native coin or a gated token. -/
def assertMulti (normalized : NormalizedLegs) : Except FlowError Unit :=
  if normalized.isMulti then env.assertMultiSend normalized.legs else pure ()

/-- The legs of the request, checked. -/
def sendLegs (opts : FlowOpts) : Except FlowError NormalizedLegs := do
  let normalized ← (normalizeSendLegs (sendRequest opts) "sendToken").mapError .send
  let _ ← assertMulti env normalized
  let _ ← normalized.legs.mapM fun leg => assertValidDestination env "sendToken" leg.recipient
  pure normalized

def isFilledArray : Value → Bool
  | .arr (_ :: _) => true
  | _ => false

/-- The action of a send. -/
def sendAction (opts : FlowOpts) (normalized : NormalizedLegs) (source : SourceRef) :
    Except FlowError (ActionData × Bool) := do
  let params ← (buildSendParams normalized.legs).mapError .send
  match normalized.legs, truthy (opts.value "prebuiltPsbt") with
  | [leg], false => do
    let plan ← prepareGatedSend env source leg
    match plan with
    | some batch => pure (batch, true)
    | none => pure (.send params, false)
  | _, _ => pure (.send params, false)

def sendToken (opts : FlowOpts) : Except FlowError Submission := do
  let normalized ← sendLegs env opts
  let source ← normalizeSource opts.source "sendToken"
  let action ← sendAction env opts normalized source
  let summary := (ownSummary opts).getD (summarizeSendLegs env normalized.legs)
  let first := normalized.legs.head?
  pure
    { walletId := opts.walletId
      password := opts.password
      chainId := opts.chainId
      actionData := action.1
      pubkey := source.publicKey
      change := if truthy (opts.value "change") then opts.value "change" else some (.str source.address)
      sourceAddress := source.address
      utxos := (opts.value "utxos").filter isFilledArray
      customOutputs := (first.bind env.nativePaymentOutput).toList
      fee := opts.value "fee"
      feePerKb := opts.value "feePerKb"
      rbf := opts.value "rbf"
      payFeeInNativeCoin := none
      prebuiltPsbt := opts.value "prebuiltPsbt"
      signing := source.signing
      pendingTxMeta :=
        if opts.trackPendingTx then
          some
            { fromAddress := source.address
              toAddress := first.map fun leg => .str leg.recipient
              actionSummary := summary ++ (if action.2 then units " + gated unlock key handoff" else [])
              balanceDebits := normalized.legs.map fun leg => (leg.tick, leg.amount) }
        else none
      verifyBuiltTx := opts.verifyBuiltTx }

/-! ### SWEEP -/

/-- `(v ?? dflt) ? '1' : '0'`. -/
def flag (v : Option Value) (dflt : Bool) : Bool := if isNullish v then dflt else truthy v

/-- The parameters of a sweep, and the names of the flags that are set. -/
def sweepParams (opts : FlowOpts) : SweepParams :=
  { DESTINATION := opts.value "to"
    BALANCES := flag (opts.value "balances") true
    OWNERSHIPS := flag (opts.value "ownerships") true
    ORDERS := flag (opts.value "orders") false
    SWAPS := flag (opts.value "swaps") false
    DISPENSERS := flag (opts.value "dispensers") false
    MEMO := opts.value "memo" }

def SweepParams.flags (params : SweepParams) : List String :=
  (if params.BALANCES then ["balances"] else []) ++ (if params.OWNERSHIPS then ["ownerships"] else []) ++
    (if params.ORDERS then ["orders"] else []) ++ (if params.SWAPS then ["swaps"] else []) ++
    (if params.DISPENSERS then ["dispensers"] else [])

/-- The text of a value in a template. -/
def inTemplate (v : Option Value) : Except FlowError Units := orRefuse (shown v) (.send .unreadable)

def sweepSummary (opts : FlowOpts) (params : SweepParams) : Except FlowError Units := do
  let recipient ← inTemplate (opts.value "to")
  let memo ← if truthy (opts.value "memo") then inTemplate (opts.value "memo") else pure []
  pure (units ("Sweep " ++ String.intercalate " + " params.flags ++ " to ") ++ recipient ++
    (if truthy (opts.value "memo") then units " (memo: \"" ++ memo ++ units "\")" else []))

def sweepToken (opts : FlowOpts) : Except FlowError Submission := do
  refuseIf (truthy (opts.value "to") = false) (.send (.required "sweepToken" "to"))
  let address ← destinationText (opts.value "to")
  assertValidDestination env "sweepToken" address
  let source ← normalizeSource opts.source "sweepToken"
  let params := sweepParams opts
  refuseIf (params.flags = []) .noFlags
  let summary ← sweepSummary opts params
  pure
    { walletId := opts.walletId
      password := opts.password
      chainId := opts.chainId
      actionData := .sweep params
      pubkey := source.publicKey
      change := some (.str source.address)
      sourceAddress := source.address
      utxos := none
      customOutputs := []
      fee := opts.value "fee"
      feePerKb := opts.value "feePerKb"
      rbf := opts.value "rbf"
      payFeeInNativeCoin := opts.value "payFeeInNativeCoin"
      prebuiltPsbt := opts.value "prebuiltPsbt"
      signing := source.signing
      pendingTxMeta :=
        if opts.trackPendingTx then
          some ⟨source.address, opts.value "to", summary, []⟩
        else none
      verifyBuiltTx := opts.verifyBuiltTx }

/-! ### What the action carries -/

/-- The action of a send to one recipient: its own parameters, or the batch whose first command the
kit made of them. -/
def SendsLeg (leg : SendLeg) (action : ActionData) : Prop :=
  action = .send (.flat leg.tick leg.amount leg.recipient leg.memo) ∨
    ∃ sendCmd messageCmd,
      env.createAction (.send leg.tick leg.amount leg.recipient leg.memo) = .ok sendCmd ∧
      action = .batch (sendCmd ++ units ";" ++ messageCmd)

theorem prepareGatedSend_eq_some {source : SourceRef} {leg : SendLeg} {action : ActionData}
    (h : prepareGatedSend env source leg = .ok (some action)) : SendsLeg env leg action := by
  unfold prepareGatedSend at h
  obtain ⟨gated, -, h⟩ := bind_eq_ok.mp h
  split at h
  · exact absurd (pure_eq_ok.mp h) (Option.some_ne_none _).symm
  · obtain ⟨_, -, h⟩ := bind_eq_ok.mp h
    obtain ⟨⟨coin, ciphertext⟩, -, h⟩ := bind_eq_ok.mp h
    obtain ⟨sendCmd, hsend, h⟩ := bind_eq_ok.mp h
    obtain ⟨messageCmd, -, h⟩ := bind_eq_ok.mp h
    obtain rfl := Option.some.inj (pure_eq_ok.mp h)
    exact .inr ⟨sendCmd, messageCmd, hsend, rfl⟩

theorem sendLegs_eq_ok {opts : FlowOpts} {normalized : NormalizedLegs}
    (h : sendLegs env opts = .ok normalized) (hlegs : opts.value "legs" = none) :
    ∃ leg, normalized.legs = [leg] ∧
      singleLeg (sendRequest opts).toLegInput "sendToken" = .ok leg := by
  unfold sendLegs at h
  obtain ⟨read, hread, h⟩ := bind_eq_ok.mp h
  obtain ⟨_, -, h⟩ := bind_eq_ok.mp h
  obtain ⟨_, -, h⟩ := bind_eq_ok.mp h
  obtain rfl := pure_eq_ok.mp h
  rw [mapError_eq_ok] at hread
  have hnone : (sendRequest opts).legs = none := hlegs
  rw [normalizeSendLegs, hnone] at hread
  cases hsingle : singleLeg (sendRequest opts).toLegInput "sendToken" with
  | error e =>
    rw [hsingle] at hread
    exact absurd hread (by simp [Functor.map, Except.map])
  | ok leg =>
    rw [hsingle] at hread
    obtain rfl := Except.ok.inj hread
    exact ⟨leg, rfl, rfl⟩

theorem sendAction_sends {opts : FlowOpts} {leg : SendLeg} {isMulti : Bool} {source : SourceRef}
    {action : ActionData × Bool} (h : sendAction env opts ⟨[leg], isMulti⟩ source = .ok action) :
    SendsLeg env leg action.1 := by
  unfold sendAction at h
  obtain ⟨params, hparams, h⟩ := bind_eq_ok.mp h
  rw [mapError_eq_ok] at hparams
  obtain rfl : .flat leg.tick leg.amount leg.recipient leg.memo = params := pure_eq_ok.mp hparams
  cases hprebuilt : truthy (opts.value "prebuiltPsbt") with
  | true =>
    rw [hprebuilt] at h
    rw [← pure_eq_ok.mp h]
    exact .inl rfl
  | false =>
    rw [hprebuilt] at h
    obtain ⟨plan, hplan, h⟩ := bind_eq_ok.mp h
    cases plan with
    | none =>
      rw [← pure_eq_ok.mp h]
      exact .inl rfl
    | some batch =>
      rw [← pure_eq_ok.mp h]
      exact prepareGatedSend_eq_some env hplan

/-- **A send without listed legs carries its values as texts.** -/
theorem sendToken_sends {opts : FlowOpts} {submission : Submission}
    (h : sendToken env opts = .ok submission) (hlegs : opts.value "legs" = none) :
    ∃ leg : SendLeg, SignedAs (opts.value "to") leg.recipient ∧ SignedAs (opts.value "tick") leg.tick ∧
      SignedAs (opts.value "amount") leg.amount ∧ MemoSignedAs (opts.value "memo") leg.memo ∧
      SendsLeg env leg submission.actionData := by
  unfold sendToken at h
  obtain ⟨normalized, hnormalized, h⟩ := bind_eq_ok.mp h
  obtain ⟨source, -, h⟩ := bind_eq_ok.mp h
  obtain ⟨action, haction, h⟩ := bind_eq_ok.mp h
  rw [← pure_eq_ok.mp h]
  obtain ⟨leg, hleg, hsingle⟩ := sendLegs_eq_ok env hnormalized hlegs
  obtain ⟨hrecipient, htick, hamount, hmemo⟩ := singleLeg_eq_ok hsingle
  obtain ⟨legs, isMulti⟩ := normalized
  obtain rfl : legs = [leg] := hleg
  exact ⟨leg, hrecipient, htick, hamount, hmemo, sendAction_sends env haction⟩

end XchainWallet.SendFlow
