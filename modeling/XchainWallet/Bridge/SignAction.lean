import XchainWallet.Flows.SendToken

/-!
# What a page's action shows and what is signed

A page asks for a SEND or a SWEEP with an object of its own making. `describeAction` reads the few
keys it knows, refuses an object with a key that would change the signature behind the screen's back,
and builds the payload that the approval shows; after the user approved, `signAction` builds the
options of the flow from the same values and hands them on. The two sides read the page's object
apart, and this module says that they agree.

The gates of the site, the lookups in the vault, the scaling of base units and the flows' own
surroundings are parameters.
-/

namespace XchainWallet.Bridge

open Checks Json SendFlow

/-! ### The request -/

inductive SignableAction
  | send
  | sweep
deriving DecidableEq

structure ActionRequest where
  origin : Units
  chainId : Units
  action : SignableAction
  params : Option Value

/-- `params?.key`. -/
def ActionRequest.page (req : ActionRequest) (key : String) : Option Value := prop key req.params

/-- `params.a ?? params.b`. -/
def either (page : String → Option Value) (a b : String) : Option Value := coalesce (page a) (page b)

/-- A refusal of the bridge, by its code and its message. -/
structure SignError where
  code : String
  message : Units

/-- What the handler asks of the site record, the vault and the network. -/
structure SignDeps where
  assertChainPermitted : Units → Except SignError Unit
  permissionNever : SignableAction → Bool
  assertAddressPermitted : Units → Option Value → Except SignError Unit
  walletIdForAddress : Option Value → Option Units
  findAddress : Option Value → Units → Option SourceRecord
  decimalAmountFromBaseUnits : Units → Option Value → Option Value → Option Value → Except SignError Units
  assertGrantStillHeld : Units → Units → Except SignError Unit
  flowEnv : Units → FlowEnv

/-! ### The payload -/

/-- The protocol's words for the action, as the approval shows them. -/
inductive ShownAction
  | send (TICK AMOUNT : Option Value)
  | sweep (BALANCES OWNERSHIPS ORDERS SWAPS DISPENSERS : Bool)

structure ApprovalPayload where
  DESTINATION : Option Value
  MEMO : Option Value
  sender : Option Value
  requested : Option Value
  action : ShownAction

/-- The values that both sides read off the page's object. -/
structure ReadAction where
  spendFromAddress : Option Value
  walletId : Option Units
  toAddress : Option Value
  sendTick : Option Value
  sendAmount : Option Value
  fromSource : Option SourceRecord

def approvalPayload (action : SignableAction) (page : String → Option Value) (params : Option Value)
    (read : ReadAction) : ApprovalPayload :=
  { DESTINATION := read.toAddress
    MEMO := page "memo"
    sender := read.spendFromAddress
    requested := params
    action :=
      match action with
      | .send => .send read.sendTick read.sendAmount
      | .sweep => .sweep (flag (page "balances") true) (flag (page "ownerships") true)
          (flag (page "orders") false) (flag (page "swaps") false) (flag (page "dispensers") false) }

def FORBIDDEN_FLOW_PARAMS : List String := ["legs", "prebuiltPsbt"]

def forbiddenMessage (key : String) : Units :=
  units (key ++ " is not accepted over the bridge: it changes what is signed without " ++
    "changing what the approval screen shows")

def assertNoSigningDivergenceParams (page : String → Option Value) : Except SignError Unit :=
  match FORBIDDEN_FLOW_PARAMS.find? fun key => (page key).isSome with
  | some key => .error ⟨"INVALID_PARAMS", forbiddenMessage key⟩
  | none => pure ()

def FLOW_PARAM_ALLOWLIST : SignableAction → List String
  | .send => ["memo"]
  | .sweep => ["memo", "balances", "ownerships", "orders", "swaps", "dispensers"]

/-- The page's values that the flow may see. -/
def pickFlowParams (action : SignableAction) (page : String → Option Value) (key : String) :
    Option Value :=
  if key ∈ FLOW_PARAM_ALLOWLIST action then page key else none

/-- `typeof rawFrom === 'string' ? rawFrom : rawFrom?.address`. -/
def addressOf (rawFrom : Option Value) : Option Value :=
  match rawFrom with
  | some (.str address) => some (.str address)
  | other => prop "address" other

variable (deps : SignDeps)

def requireSourceRecord (chainId : Units) (address : Option Value) : Except SignError SourceRecord :=
  orRefuse (deps.findAddress address chainId) ⟨"ADDRESS_NOT_FOUND", (shown address).getD []⟩

/-- The page sent base units and no decimal amount. -/
def needsScale (action : SignableAction) (page : String → Option Value) : Bool :=
  decide (action = .send) && !isNullish (page "amountRaw") && isNullish (page "amount")

/-- The amount of the request, scaled where it is in base units, with the source record where that
needed it. -/
def readAmount (action : SignableAction) (chainId : Units) (page : String → Option Value)
    (spendFromAddress sendTick : Option Value) :
    Except SignError (Option Value × Option SourceRecord) :=
  if needsScale action page then do
    let source ← requireSourceRecord deps chainId spendFromAddress
    let amount ← deps.decimalAmountFromBaseUnits chainId spendFromAddress sendTick (page "amountRaw")
    pure (some (.str amount), some source)
  else pure (page "amount", none)

/-- What is read off the page's object, behind the gates of the site. -/
def readAction (chainId : Units) (action : SignableAction) (page : String → Option Value) :
    Except SignError ReadAction := do
  let _ ← deps.assertChainPermitted chainId
  refuseIf (deps.permissionNever action = true) ⟨"ACTION_REJECTED_BY_POLICY", []⟩
  let spendFromAddress := addressOf (either page "fromAddress" "from")
  let _ ← deps.assertAddressPermitted chainId spendFromAddress
  let _ ← assertNoSigningDivergenceParams page
  let sendTick := either page "asset" "tick"
  let amount ← readAmount deps action chainId page spendFromAddress sendTick
  pure
    { spendFromAddress := spendFromAddress
      walletId := deps.walletIdForAddress spendFromAddress
      toAddress := either page "toAddress" "to"
      sendTick := sendTick
      sendAmount := amount.1
      fromSource := amount.2 }

/-- The approval that the request raises. -/
def describeAction (req : ActionRequest) : Except SignError ApprovalPayload := do
  let read ← readAction deps req.chainId req.action req.page
  pure (approvalPayload req.action req.page req.params read)

/-! ### Signing -/

/-- The answer of the user. -/
structure SignDecision where
  approved : Bool
  password : Units

inductive SignFailure
  | bridge (e : SignError)
  | userRejected
  | flow (e : FlowError)

/-- The options of the flow: the page's picked values first, the values that were shown after. -/
def flowOpts (req : ActionRequest) (read : ReadAction) (source : SourceRecord) (password : Units) :
    FlowOpts :=
  { value := fun key =>
      if key = "to" then read.toAddress
      else
        match req.action with
        | .send =>
          if key = "tick" then read.sendTick
          else if key = "amount" then read.sendAmount
          else pickFlowParams .send req.page key
        | .sweep => pickFlowParams .sweep req.page key
    source := some source
    walletId := read.walletId
    password := password
    chainId := req.chainId
    trackPendingTx := true
    verifyBuiltTx := true }

def runFlow (env : FlowEnv) (action : SignableAction) (opts : FlowOpts) : Except FlowError Submission :=
  match action with
  | .send => sendToken env opts
  | .sweep => sweepToken env opts

/-- `fromSource ?? await requireSourceRecord(...)`. -/
def resolveSource (chainId : Units) (read : ReadAction) : Except SignError SourceRecord :=
  match read.fromSource with
  | some source => pure source
  | none => requireSourceRecord deps chainId read.spendFromAddress

/-- The request, approved: what `submitAction` is handed. -/
def signAction (req : ActionRequest) (decision : SignDecision) : Except SignFailure Submission := do
  let read ← (readAction deps req.chainId req.action req.page).mapError .bridge
  refuseIf (decision.approved = false) .userRejected
  refuseIf (decision.password = []) (.bridge ⟨"NO_PASSWORD", units "approvals must return password"⟩)
  let _ ← (deps.assertGrantStillHeld req.origin req.chainId).mapError .bridge
  let source ← (resolveSource deps req.chainId read).mapError .bridge
  (runFlow (deps.flowEnv req.chainId) req.action (flowOpts req read source decision.password)).mapError
    .flow

/-! ### What is signed is what was shown -/

/-- The action carries what the payload shows: of a SEND the texts of the values shown, of a SWEEP
the values themselves. -/
def CarriesShown (env : FlowEnv) (payload : ApprovalPayload) (action : ActionData) : Prop :=
  match payload.action with
  | .send TICK AMOUNT =>
    ∃ leg : SendLeg, SignedAs payload.DESTINATION leg.recipient ∧ SignedAs TICK leg.tick ∧
      SignedAs AMOUNT leg.amount ∧ MemoSignedAs payload.MEMO leg.memo ∧ SendsLeg env leg action
  | .sweep BALANCES OWNERSHIPS ORDERS SWAPS DISPENSERS =>
    action = .sweep ⟨payload.DESTINATION, BALANCES, OWNERSHIPS, ORDERS, SWAPS, DISPENSERS, payload.MEMO⟩

variable {submission : Submission}

theorem sweepToken_sweeps {env : FlowEnv} {opts : FlowOpts}
    (h : sweepToken env opts = .ok submission) :
    submission.actionData = .sweep (sweepParams opts) := by
  unfold sweepToken at h
  obtain ⟨_, -, h⟩ := bind_eq_ok.mp h
  obtain ⟨_, -, h⟩ := bind_eq_ok.mp h
  obtain ⟨_, -, h⟩ := bind_eq_ok.mp h
  obtain ⟨source, -, h⟩ := bind_eq_ok.mp h
  obtain ⟨_, -, h⟩ := bind_eq_ok.mp h
  obtain ⟨summary, -, h⟩ := bind_eq_ok.mp h
  rw [← pure_eq_ok.mp h]

/-- A flow that is run with the values that were read carries what the payload shows of them. -/
theorem runFlow_carries {env : FlowEnv} {req : ActionRequest} {read : ReadAction}
    {source : SourceRecord} {password : Units}
    (h : runFlow env req.action (flowOpts req read source password) = .ok submission) :
    CarriesShown env (approvalPayload req.action req.page req.params read) submission.actionData := by
  cases haction : req.action with
  | send =>
    rw [haction] at h
    have hvalue : ∀ key, (flowOpts req read source password).value key =
        if key = "to" then read.toAddress else if key = "tick" then read.sendTick
        else if key = "amount" then read.sendAmount else pickFlowParams .send req.page key := by
      intro key
      simp only [flowOpts, haction]
    have hlegs : (flowOpts req read source password).value "legs" = none := by
      have hlisted : "legs" ∉ FLOW_PARAM_ALLOWLIST .send := by decide
      rw [hvalue, if_neg (by decide), if_neg (by decide), if_neg (by decide), pickFlowParams,
        if_neg hlisted]
    obtain ⟨leg, hrecipient, htick, hamount, hmemo, hsends⟩ := sendToken_sends env h hlegs
    rw [hvalue] at hrecipient htick hamount hmemo
    exact ⟨leg, hrecipient, htick, hamount, hmemo, hsends⟩
  | sweep =>
    rw [haction] at h
    rw [sweepToken_sweeps h]
    simp only [CarriesShown, approvalPayload, sweepParams, flowOpts, haction]
    rfl

theorem signAction_carries {req : ActionRequest} {decision : SignDecision}
    (h : signAction deps req decision = .ok submission) :
    ∃ payload, describeAction deps req = .ok payload ∧
      CarriesShown (deps.flowEnv req.chainId) payload submission.actionData := by
  unfold signAction at h
  obtain ⟨read, hread, h⟩ := bind_eq_ok.mp h
  obtain ⟨_, -, h⟩ := bind_eq_ok.mp h
  obtain ⟨_, -, h⟩ := bind_eq_ok.mp h
  obtain ⟨_, -, h⟩ := bind_eq_ok.mp h
  obtain ⟨source, -, h⟩ := bind_eq_ok.mp h
  rw [mapError_eq_ok] at hread h
  refine ⟨approvalPayload req.action req.page req.params read, ?_, runFlow_carries h⟩
  rw [describeAction, hread]
  rfl

/-! ### What the page's object can influence -/

/-- The keys of a page's object that are read. -/
def READ_KEYS (action : SignableAction) : List String :=
  ["fromAddress", "from", "toAddress", "to", "asset", "tick", "amount", "amountRaw", "legs",
    "prebuiltPsbt"] ++ FLOW_PARAM_ALLOWLIST action

variable {page page' : String → Option Value}

theorem assertNoSigningDivergenceParams_congr (hlegs : page "legs" = page' "legs")
    (hpsbt : page "prebuiltPsbt" = page' "prebuiltPsbt") :
    assertNoSigningDivergenceParams page = assertNoSigningDivergenceParams page' := by
  have hfind : FORBIDDEN_FLOW_PARAMS.find? (fun key => (page key).isSome) =
      FORBIDDEN_FLOW_PARAMS.find? fun key => (page' key).isSome := by
    simp only [FORBIDDEN_FLOW_PARAMS, List.find?_cons, List.find?_nil, hlegs, hpsbt]
  rw [assertNoSigningDivergenceParams, assertNoSigningDivergenceParams, hfind]

variable {action : SignableAction}

theorem readAction_congr {chainId : Units} (h : ∀ key ∈ READ_KEYS action, page key = page' key) :
    readAction deps chainId action page = readAction deps chainId action page' := by
  have hkey : ∀ key ∈ ["fromAddress", "from", "toAddress", "to", "asset", "tick", "amount", "amountRaw",
      "legs", "prebuiltPsbt"], page key = page' key :=
    fun key hkey => h key (List.mem_append_left _ hkey)
  have heither : ∀ a b, page a = page' a → page b = page' b → either page a b = either page' a b := by
    intro a b ha hb
    rw [either, either, ha, hb]
  have hfrom := heither "fromAddress" "from" (hkey _ (by decide)) (hkey _ (by decide))
  have hto := heither "toAddress" "to" (hkey _ (by decide)) (hkey _ (by decide))
  have htick := heither "asset" "tick" (hkey _ (by decide)) (hkey _ (by decide))
  have hamount := hkey "amount" (by decide)
  have hraw := hkey "amountRaw" (by decide)
  have hforbidden : assertNoSigningDivergenceParams page = assertNoSigningDivergenceParams page' :=
    assertNoSigningDivergenceParams_congr (hkey _ (by decide)) (hkey _ (by decide))
  have hneeds : needsScale action page = needsScale action page' := by
    rw [needsScale, needsScale, hamount, hraw]
  have hread : ∀ source tick, readAmount deps action chainId page source tick =
      readAmount deps action chainId page' source tick := by
    intro source tick
    rw [readAmount, readAmount, hneeds, hraw, hamount]
  simp only [readAction, hread, hfrom, hto, htick, hforbidden]

variable {req req' : ActionRequest}

theorem flowOpts_congr (haction : req.action = req'.action) (hchain : req.chainId = req'.chainId)
    (h : ∀ key ∈ READ_KEYS req.action, req.page key = req'.page key) (read : ReadAction)
    (source : SourceRecord) (password : Units) :
    flowOpts req read source password = flowOpts req' read source password := by
  have hpick : pickFlowParams req.action req.page = pickFlowParams req'.action req'.page := by
    funext key
    rw [pickFlowParams, pickFlowParams, ← haction]
    split
    · rename_i hkey
      exact h key (List.mem_append_right _ hkey)
    · rfl
  have hvalue : (flowOpts req read source password).value = (flowOpts req' read source password).value := by
    funext key
    have hpicked := congrFun hpick key
    simp only [flowOpts]
    cases hact : req.action <;> simp only [hact, ← haction] at hpicked ⊢ <;>
      rw [hpicked]
  simp only [flowOpts] at hvalue ⊢
  rw [hvalue, hchain]

/-- A payload without the page's own object, which the approval keeps beside what it shows. -/
def ApprovalPayload.shownPart (payload : ApprovalPayload) : ApprovalPayload :=
  { payload with requested := none }

theorem shownPart_congr (h : ∀ key ∈ READ_KEYS action, page key = page' key)
    (params params' : Option Value) (read : ReadAction) :
    (approvalPayload action page params read).shownPart =
      (approvalPayload action page' params' read).shownPart := by
  have hallowed : ∀ key ∈ FLOW_PARAM_ALLOWLIST action, page key = page' key :=
    fun key hkey => h key (List.mem_append_right _ hkey)
  cases action with
  | send =>
    simp only [approvalPayload, ApprovalPayload.shownPart, hallowed "memo" (by decide)]
  | sweep =>
    simp only [approvalPayload, ApprovalPayload.shownPart, hallowed "memo" (by decide),
      hallowed "balances" (by decide), hallowed "ownerships" (by decide), hallowed "orders" (by decide),
      hallowed "swaps" (by decide), hallowed "dispensers" (by decide)]

/-- Two requests that differ at most in what is not read of the page's object. -/
structure SameRead (req req' : ActionRequest) : Prop where
  origin : req.origin = req'.origin
  chainId : req.chainId = req'.chainId
  action : req.action = req'.action
  page : ∀ key ∈ READ_KEYS req.action, req.page key = req'.page key

theorem SameRead.readAction (h : SameRead req req') :
    Bridge.readAction deps req.chainId req.action req.page =
      Bridge.readAction deps req'.chainId req'.action req'.page := by
  rw [readAction_congr deps h.page, h.chainId, h.action]

theorem SameRead.describeAction (h : SameRead req req') :
    (Bridge.describeAction deps req).map ApprovalPayload.shownPart =
      (Bridge.describeAction deps req').map ApprovalPayload.shownPart := by
  rw [Bridge.describeAction, Bridge.describeAction, h.readAction deps, ← h.action]
  cases Bridge.readAction deps req'.chainId req.action req'.page with
  | error e => rfl
  | ok read => exact congrArg Except.ok (shownPart_congr h.page req.params req'.params read)

theorem SameRead.signAction (h : SameRead req req') (decision : SignDecision) :
    Bridge.signAction deps req decision = Bridge.signAction deps req' decision := by
  have hopts : ∀ read source password, flowOpts req read source password =
      flowOpts req' read source password := flowOpts_congr h.action h.chainId h.page
  rw [Bridge.signAction, Bridge.signAction, h.readAction deps]
  simp only [hopts, h.origin, h.chainId, h.action]

/-- A request with a key that would change the signature behind the screen's back is not read. -/
theorem readAction_ne_ok {chainId : Units} {page : String → Option Value} {key : String}
    (hkey : key ∈ FORBIDDEN_FLOW_PARAMS) (hpage : (page key).isSome) (read : ReadAction) :
    readAction deps chainId action page ≠ .ok read := by
  intro h
  unfold readAction at h
  obtain ⟨_, -, h⟩ := bind_eq_ok.mp h
  obtain ⟨_, -, h⟩ := bind_eq_ok.mp h
  obtain ⟨_, -, h⟩ := bind_eq_ok.mp h
  obtain ⟨_, hallowed, -⟩ := bind_eq_ok.mp h
  rw [assertNoSigningDivergenceParams] at hallowed
  cases hfind : FORBIDDEN_FLOW_PARAMS.find? fun key => (page key).isSome with
  | some other =>
    rw [hfind] at hallowed
    exact absurd hallowed (by simp)
  | none => exact List.find?_eq_none.mp hfind key hkey hpage

/-- **What is signed was shown.** For every request: what `submitAction` is handed carries what the
payload of the approval shows; a page with a key that would redirect the signature gets neither an
approval nor a signature; and no other key of the page's object, beside those that are read, has a
part in what is shown or handed on. -/
theorem signAction_signs_shown (req : ActionRequest) :
    (∀ decision submission, signAction deps req decision = .ok submission →
      ∃ payload, describeAction deps req = .ok payload ∧
        CarriesShown (deps.flowEnv req.chainId) payload submission.actionData) ∧
      (∀ key ∈ FORBIDDEN_FLOW_PARAMS, (req.page key).isSome →
        (∀ payload, describeAction deps req ≠ .ok payload) ∧
          ∀ decision submission, signAction deps req decision ≠ .ok submission) ∧
      ∀ req', SameRead req req' →
        (describeAction deps req).map ApprovalPayload.shownPart =
            (describeAction deps req').map ApprovalPayload.shownPart ∧
          ∀ decision, signAction deps req decision = signAction deps req' decision := by
  refine ⟨fun decision submission h => signAction_carries deps h, ?_, ?_⟩
  · intro key hkey hpage
    have hshown : ∀ payload, describeAction deps req ≠ .ok payload := by
      intro payload h
      obtain ⟨read, hread, -⟩ := bind_eq_ok.mp h
      exact readAction_ne_ok deps hkey hpage read hread
    refine ⟨hshown, fun decision submission h => ?_⟩
    obtain ⟨payload, hpayload, -⟩ := signAction_carries deps h
    exact hshown payload hpayload
  · exact fun req' hsame => ⟨hsame.describeAction deps, hsame.signAction deps⟩

private def openDeps : SignDeps :=
  { assertChainPermitted := fun _ => .ok ()
    permissionNever := fun _ => false
    assertAddressPermitted := fun _ _ => .ok ()
    walletIdForAddress := fun _ => some (units "w")
    findAddress := fun _ _ => some ⟨units "source", units "02aa", false, units "m/0", [], []⟩
    decimalAmountFromBaseUnits := fun _ _ _ _ => .error ⟨"INVALID_PARAMS", []⟩
    assertGrantStillHeld := fun _ _ => .ok ()
    flowEnv := fun _ =>
      { validDestination := fun _ => true
        nativePaymentOutput := fun _ => none
        assertMultiSend := fun _ => .ok ()
        multiSummary := fun _ => []
        gatedSend := fun _ _ => .ok false
        keyHandoff := fun _ _ => .error .gatedMemo
        createAction := fun _ => .error .gatedMemo } }

private def paddedSend : ActionRequest :=
  { origin := units "https://site.example"
    chainId := units "bitcoin"
    action := .send
    params := some (.obj [(units "from", .str (units "source")), (units "to", .str (units "friend")),
      (units "tick", .str (units "XCP")), (units "amount", .str (units " 1 "))]) }

private def pricedSend : ActionRequest :=
  { paddedSend with
    params := some (.obj [(units "feePerKb", .str (units "9999")), (units "from", .str (units "source")),
      (units "to", .str (units "friend")), (units "tick", .str (units "XCP")),
      (units "amount", .str (units " 1 "))]) }

private def approval : SignDecision := ⟨true, units "password"⟩

private def signedAmount (submission : Submission) : Option Units :=
  match submission.actionData with
  | .send (.flat _ amount _ _) => some amount
  | _ => none

private theorem sameRead_pricedSend : SameRead pricedSend paddedSend where
  origin := rfl
  chainId := rfl
  action := rfl
  page := by
    intro key hkey
    have hunread : "feePerKb" ∉ READ_KEYS .send := by decide
    have hne : units "feePerKb" ≠ units key := by
      rintro heq
      rw [units_inj] at heq
      exact hunread (heq ▸ hkey)
    simp only [ActionRequest.page, prop, Value.prop, pricedSend, paddedSend, Option.bind_some,
      Keyed.find_cons, if_neg hne]

/-- A send that the user approves is signed, and the fee rate that its page asks for has no part in
it. -/
theorem signAction_signs_shown_pricedSend :
    (∃ submission payload, signAction openDeps pricedSend approval = .ok submission ∧
      describeAction openDeps pricedSend = .ok payload ∧
      CarriesShown (openDeps.flowEnv pricedSend.chainId) payload submission.actionData) ∧
      signAction openDeps pricedSend approval = signAction openDeps paddedSend approval := by
  obtain ⟨hcarries, -, hsame⟩ := signAction_signs_shown openDeps pricedSend
  have hok : (signAction openDeps pricedSend approval).toOption.isSome := by decide
  refine ⟨?_, (hsame paddedSend sameRead_pricedSend).2 approval⟩
  cases hsign : signAction openDeps pricedSend approval with
  | error e =>
    rw [hsign] at hok
    exact absurd hok Bool.false_ne_true
  | ok submission =>
    obtain ⟨payload, hpayload, hshown⟩ := hcarries approval submission hsign
    exact ⟨submission, payload, rfl, hpayload, hshown⟩

/-- The amount that is signed is not the one that is shown, where that has blanks around it. -/
theorem not_signAction_signs_exactly :
    ¬ ∀ (deps : SignDeps) (req : ActionRequest) (decision : SignDecision) (submission : Submission)
      (payload : ApprovalPayload) (TICK AMOUNT : Option Value) (amount : Units),
      signAction deps req decision = .ok submission → describeAction deps req = .ok payload →
      payload.action = .send TICK AMOUNT → signedAmount submission = some amount →
      shown AMOUNT = some amount := by
  intro hexact
  have hsigned : (signAction openDeps paddedSend approval).toOption.bind signedAmount =
      some (units "1") := by
    decide
  have hpayload : describeAction openDeps paddedSend = .ok
      { DESTINATION := some (.str (units "friend"))
        MEMO := none
        sender := some (.str (units "source"))
        requested := paddedSend.params
        action := .send (some (.str (units "XCP"))) (some (.str (units " 1 "))) } := rfl
  cases hsign : signAction openDeps paddedSend approval with
  | error e =>
    rw [hsign] at hsigned
    exact absurd hsigned (Option.some_ne_none _).symm
  | ok submission =>
    rw [hsign] at hsigned
    have hshown := hexact openDeps paddedSend approval submission _ _ _ (units "1") hsign hpayload rfl
      hsigned
    exact absurd (Option.some.inj hshown) (by decide)

end XchainWallet.Bridge
