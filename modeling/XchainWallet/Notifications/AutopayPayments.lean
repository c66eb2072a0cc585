import XchainWallet.Market.AutopayConsent
import XchainWallet.Market.PayWithinTerms
import XchainWallet.Notifications.AutopayWatcher

/-!
# Payments of the auto-pay watchers of one vault

Several processes run a watcher over one vault: tabs, and the worker before and after a restart.
A process goes from one `await` to the next while the others, and every other writer of the
vault, do the same. In a cycle it lists the consents, arbitrates the lease, lists the pending
transactions, and handles rows; a payment takes it through the reservation and through
`coinpayAction`, which looks at the pending transactions once more and submits. The submission
creates the pending record, stamps it before it broadcasts, and stamps the outcome; what is paid
is recorded in the consent.

`payments` lists the calls of `coinpayAction` with what has become of each. Nothing reads it.
-/

namespace XchainWallet

open Function

/-! ### The lease -/

/-- The payer lease: its holder, and when it was renewed, in milliseconds. -/
structure AutopayLease where
  holderId : ℕ
  renewedAt : JsNumber
deriving DecidableEq

/-- Whose the lease is. -/
inductive LeaseState
  | mine
  | otherLive
  | claimable
deriving DecidableEq, Repr

/-- `leaseState(lease, holderId, nowMs, ttlMs)`. -/
def leaseState (lease : Option AutopayLease) (holderId : ℕ) (nowMs ttlMs : ℚ) : LeaseState :=
  match lease with
  | none => .claimable
  | some lease =>
    match lease.renewedAt with
    | none => .claimable
    | some renewed =>
      if ttlMs < nowMs - renewed then .claimable
      else if lease.holderId = holderId then .mine
      else .otherLive

/-! ### A payment -/

/-- What a payment is of: the consent that it was decided on, and the amount in base units. Its
number also names the pending record that it creates. -/
structure PayOrder where
  number : ℕ
  chainId : String
  matchIndex : String
  consent : AutopayOrder
  amountBase : ℕ
deriving DecidableEq

/-- Where a payment stands. -/
inductive PayStage
  | funding
  | checking
  | verifying
  | composing
  | signing (record : ActionTx)
  | sending (record : ActionTx)
  | recording
  | putting (record : AutopayOrder)
deriving DecidableEq

/-- What has become of a payment: `coinpayAction` was called, it found no payment in flight, the
action was handed to submission, the broadcast may have been made, or the payment ended without
one. -/
inductive PayFate
  | started
  | checked
  | submitted
  | sent
  | dropped
deriving DecidableEq, Repr

/-- What has become of a payment that is at a stage, once it is called for and until its
broadcast. -/
def PayStage.fate? : PayStage → Option PayFate
  | .checking => some .started
  | .verifying => some .checked
  | .composing | .signing _ => some .submitted
  | .funding | .sending _ | .recording | .putting _ => none

/-- A call of `coinpayAction`, with the consent record that the store had at that moment. -/
structure Payment where
  order : PayOrder
  stored : Option AutopayOrder
  fate : PayFate
deriving DecidableEq

/-- The number of the payment. -/
abbrev Payment.number (p : Payment) : ℕ := p.order.number

/-- The payment has been handed to submission, and may go out or have gone out. -/
def Payment.HandedOver (p : Payment) : Prop := p.fate = .submitted ∨ p.fate = .sent

instance (p : Payment) : Decidable p.HandedOver := inferInstanceAs (Decidable (_ ∨ _))

/-- The answer of the network to a broadcast. -/
inductive BroadcastAnswer
  | accepted
  | transient
  | permanent
deriving DecidableEq, Repr

/-! ### The world -/

/-- Where a process stands. -/
inductive PayerPc
  | idle
  | leasing (consents : List AutopayOrder)
  | renewing (consents : List AutopayOrder)
  | listing (consents : List AutopayOrder) (isPayer : Bool)
  | polling (cycle : PollCycle)
  | paying (cycle : PollCycle) (order : PayOrder) (stage : PayStage)

/-- A process: the memory of its watcher, and where it stands. -/
structure Payer where
  watcher : Watcher := {}
  pc : PayerPc := .idle

/-- The vault, the processes, and the payments so far. -/
structure PayWorld where
  table : ConsentTable
  pendingTxs : List ActionTx
  lease : Option AutopayLease := none
  payers : ℕ → Option Payer := fun _ => none
  payments : List Payment := []
  nextNumber : ℕ := 0

/-- A step of a process outside of a payment. A `fault` is a vault that rejects. -/
inductive CycleAct
  | poll (entries : List LedgerEntry)
  | lease (nowMs ttlMs : ℚ) (fault : Bool)
  | renew (nowMs : ℚ) (fault : Bool)
  | list (fault : Bool)
  | row (chainId : String) (row : CoinpayRow) (reads : RowReads)
  | finish

/-- A step of a payment. A `fault` is a vault, or a network, that rejects. -/
inductive StageAct
  | fund (source reserved : Bool)
  | check (fault : Bool)
  | verify (fault : Bool)
  | compose (fault : Bool)
  | abandon (fault : Bool)
  | stamp (fault : Bool)
  | answer (answer : BroadcastAnswer) (fault : Bool)
  | recordRead
  | recordPut (txid paidAt : String) (fault : Bool)

/-- A write of another part of the wallet. `rejectPending` is the drain of the broadcast queue,
which sees the network reject for good what it had put off. -/
inductive VaultWrite
  | putConsent (record : AutopayOrder)
  | deleteConsent (id : String)
  | putPending (tx : ActionTx)
  | deletePending (id : String)
  | rejectPending (number : ℕ)

/-- What can happen. -/
inductive PayAct
  | boot (i : ℕ)
  | crash (i : ℕ)
  | cycle (i : ℕ) (act : CycleAct)
  | stage (i : ℕ) (act : StageAct)
  | write (w : VaultWrite)

/-- The key of a pending transaction. -/
abbrev ActionTx.txId (tx : ActionTx) : String := tx.id

/-- `IN_FLIGHT_STATUSES` of `coinpayAction`. -/
def inFlightStatuses : List TxStatus := [.signed, .queued, .broadcasting, .broadcast]

/-- The refusal of `assertNoPaymentInFlight(opts, actionIndex, sourceAddress)`. -/
def paymentInFlight (descriptor : Option (String × String)) (pendingTxs : List ActionTx)
    (matchIndex sourceAddress : String) : Bool :=
  let sameNetwork := descriptor.any fun (coin, networkKind) => pendingTxs.any fun tx =>
    tx.status ∈ inFlightStatuses ∧ tx.chain = coin ∧ tx.network = networkKind ∧
      pendingTxReferencesMatch tx matchIndex
  let sameSource := hasAttemptedCoinpay
    (pendingTxs.filter fun tx => tx.fromAddress = "" ∨ tx.fromAddress = sourceAddress) matchIndex
  sameNetwork || sameSource

/-- `autopayOrders.delete(id)`. -/
def ConsentTable.delete (table : ConsentTable) (id : String) : ConsentTable where
  records := table.records.filter (·.id ≠ id)
  distinct := table.distinct.filter _

namespace PayWorld

/-- The process goes on, or ends. -/
def setPayer (s : PayWorld) (i : ℕ) (payer : Option Payer) : PayWorld :=
  { s with payers := update s.payers i payer }

/-- What has become of the payment with the number changes. -/
def settle (s : PayWorld) (number : ℕ) (f : PayFate → PayFate) : PayWorld :=
  let settled : Payment → Payment := fun p => { p with fate := f p.fate }
  { s with payments := Keyed.adjust Payment.number number settled s.payments }

/-- The payment with the number has come to something. One that was dropped stays so. -/
def setFate (s : PayWorld) (number : ℕ) (fate : PayFate) : PayWorld :=
  s.settle number fun old => if old = .dropped then .dropped else fate

/-- The id of the pending record of a payment. -/
def recordId (number : ℕ) : String := toString number

/-- `createPendingTx(...)` for an auto-payment. -/
def newRecord (coin networkKind : String) (order : PayOrder) : ActionTx where
  id := recordId order.number
  chain := coin
  network := networkKind
  fromAddress := order.consent.sourceAddress
  actionSummary := autoPaidSummary order.matchIndex (order.consent.orderActionIndex.getD "")
  createdAt := ""
  status := .composing
  action := "COINPAY"

/-- `writePending({ status })`: the record as the submission knows it, unless it has gone from
the vault, and never back from 'indexed'. -/
def writePending (s : PayWorld) (record : ActionTx) (status : TxStatus) : PayWorld :=
  match Keyed.find ActionTx.txId record.id s.pendingTxs with
  | none => s
  | some stored =>
    let status := if stored.status = .indexed then .indexed else status
    { s with pendingTxs := Keyed.upsert ActionTx.txId { record with status } s.pendingTxs }

/-- A payment fails: the watcher frees what did not reach the broadcast, and polls on. -/
def fail (s : PayWorld) (i : ℕ) (watcher : Watcher) (cycle : PollCycle) (order : PayOrder)
    (broadcastReached : Bool) : PayWorld :=
  s.setPayer i (some ⟨watcher.failPayment order.matchIndex broadcastReached, .polling cycle⟩)

/-- A payment that has not been broadcast dies with its process. -/
def dropUnsent (s : PayWorld) : PayerPc → PayWorld
  | .paying _ order stage =>
    match stage with
    | .checking | .verifying | .composing | .signing _ => s.setFate order.number .dropped
    | _ => s
  | _ => s

/-- `_cycle()` begins. The consents are listed as they are after the indexes of their orders
have been filled in, which are writes of their own. -/
def poll (s : PayWorld) (i : ℕ) (payer : Payer) (entries : List LedgerEntry) : PayWorld :=
  let watcher := payer.watcher.restoreHolds entries
  let consents := (listAutopayOrders s.table none none).filter (·.autopay)
  s.setPayer i (some ⟨watcher, if consents = [] then .idle else .leasing consents⟩)

/-- `_acquireOrRenewLease()`, up to its put. -/
def readLease (s : PayWorld) (i : ℕ) (watcher : Watcher) (consents : List AutopayOrder)
    (nowMs ttlMs : ℚ) (fault : Bool) : PayWorld :=
  if fault ∨ leaseState s.lease i nowMs ttlMs = .otherLive then
    s.setPayer i (some ⟨watcher, .listing consents false⟩)
  else s.setPayer i (some ⟨watcher, .renewing consents⟩)

/-- A row of the cycle is handled. -/
def handleRow (s : PayWorld) (i : ℕ) (watcher : Watcher) (cycle : PollCycle) (chainId : String)
    (row : CoinpayRow) (reads : RowReads) : PayWorld :=
  match watcher.judge cycle chainId row reads with
  | .terminal => s.setPayer i (some ⟨watcher.markTerminal row.actionIndex, .polling cycle⟩)
  | .pays consent amountBase =>
    let order : PayOrder := ⟨s.nextNumber, chainId, row.actionIndex, consent, amountBase⟩
    setPayer { s with nextNumber := s.nextNumber + 1 } i
      (some ⟨watcher, .paying cycle order .funding⟩)
  | _ => s

/-- The address record is looked up and the hold is taken; then `coinpayAction` is called. -/
def fund (s : PayWorld) (i : ℕ) (watcher : Watcher) (cycle : PollCycle) (order : PayOrder)
    (source reserved : Bool) : PayWorld :=
  if source then
    let started : Payment := ⟨order, s.table.get order.consent.id, .started⟩
    setPayer { s with payments := s.payments ++ [started] } i
      (some ⟨watcher.beginPayment order.chainId order.matchIndex reserved,
        .paying cycle order .checking⟩)
  else s.setPayer i (some ⟨watcher, .polling cycle⟩)

variable (descriptor : String → Option (String × String))

/-- A process is done with the stage of its payment, and goes on to the next one. -/
def goOn (s : PayWorld) (i : ℕ) (watcher : Watcher) (cycle : PollCycle) (order : PayOrder)
    (stage : PayStage) : PayWorld :=
  s.setPayer i (some ⟨watcher, .paying cycle order stage⟩)

/-- `coinpayAction` up to the submission: the pending transactions are listed once more, and the
obligation is read again. A list that cannot be read does not refuse. -/
def check (s : PayWorld) (i : ℕ) (watcher : Watcher) (cycle : PollCycle) (order : PayOrder)
    (fault : Bool) : PayWorld :=
  if ¬fault ∧ paymentInFlight (descriptor order.chainId) s.pendingTxs order.matchIndex
      order.consent.sourceAddress then
    (s.setFate order.number .dropped).fail i watcher cycle order false
  else (s.setFate order.number .checked).goOn i watcher cycle order .verifying

/-- The obligation reads as it did, and the action is handed to submission. -/
def verify (s : PayWorld) (i : ℕ) (watcher : Watcher) (cycle : PollCycle) (order : PayOrder)
    (fault : Bool) : PayWorld :=
  if fault then (s.setFate order.number .dropped).fail i watcher cycle order false
  else (s.setFate order.number .submitted).goOn i watcher cycle order .composing

/-- `submitAction(...)`, up to the put of its record. -/
def compose (s : PayWorld) (i : ℕ) (watcher : Watcher) (cycle : PollCycle) (order : PayOrder)
    (fault : Bool) : PayWorld :=
  match descriptor order.chainId with
  | none => (s.setFate order.number .dropped).fail i watcher cycle order false
  | some (coin, networkKind) =>
    if fault then (s.setFate order.number .dropped).fail i watcher cycle order false
    else
      let record := newRecord coin networkKind order
      goOn { s with
          pendingTxs := Keyed.upsert ActionTx.txId record s.pendingTxs }
        i watcher cycle order (.signing record)

/-- Signing fails. -/
def abandon (s : PayWorld) (i : ℕ) (watcher : Watcher) (cycle : PollCycle) (order : PayOrder)
    (record : ActionTx) (fault : Bool) : PayWorld :=
  let s := if fault then s else s.writePending record .failed
  (s.setFate order.number .dropped).fail i watcher cycle order false

/-- The record is stamped, and the broadcast is made. The phase is reported before the stamp, so
that a refused stamp counts as a broadcast that was reached. -/
def stamp (s : PayWorld) (i : ℕ) (watcher : Watcher) (cycle : PollCycle) (order : PayOrder)
    (record : ActionTx) (fault : Bool) : PayWorld :=
  if fault then (s.setFate order.number .dropped).fail i watcher cycle order true
  else ((s.writePending record .broadcasting).setFate order.number .sent).goOn i watcher cycle
    order (.sending record)

/-- The network answers. -/
def answer (s : PayWorld) (i : ℕ) (watcher : Watcher) (cycle : PollCycle) (order : PayOrder)
    (record : ActionTx) (answer : BroadcastAnswer) (fault : Bool) : PayWorld :=
  let stamped (status : TxStatus) := if fault then s else s.writePending record status
  match answer with
  | .accepted => (stamped .broadcast).goOn i watcher cycle order .recording
  | .transient => (stamped .queued).fail i watcher cycle order true
  | .permanent =>
    ((stamped .failed).setFate order.number .dropped).fail i watcher cycle order true

/-- `recordAutopayPayment(...)`, up to its put. It throws where the record is gone, or lists the
match already. -/
def recordRead (s : PayWorld) (i : ℕ) (watcher : Watcher) (cycle : PollCycle)
    (order : PayOrder) : PayWorld :=
  match (s.table.get order.consent.id).filter fun r => ¬r.hasPaid order.matchIndex with
  | none => s.setPayer i (some ⟨watcher, .polling cycle⟩)
  | some record => s.goOn i watcher cycle order (.putting record)

/-- The put of `recordAutopayPayment(...)`. -/
def recordPut (s : PayWorld) (i : ℕ) (watcher : Watcher) (cycle : PollCycle) (order : PayOrder)
    (record : AutopayOrder) (txid paidAt : String) (fault : Bool) : PayWorld :=
  let payment : AutopayPayment :=
    ⟨.text order.matchIndex, .text (toString order.amountBase), txid, paidAt⟩
  let table := if fault then s.table else s.table.put (record.appendPayment payment)
  setPayer { s with table } i (some ⟨watcher, .polling cycle⟩)

/-- One step of a payment. -/
def stepStage (s : PayWorld) (i : ℕ) (watcher : Watcher) (cycle : PollCycle) (order : PayOrder)
    (stage : PayStage) : StageAct → Option PayWorld
  | .fund source reserved =>
    if stage = .funding then some (s.fund i watcher cycle order source reserved) else none
  | .check fault =>
    if stage = .checking then some (s.check descriptor i watcher cycle order fault) else none
  | .verify fault =>
    if stage = .verifying then some (s.verify i watcher cycle order fault) else none
  | .compose fault =>
    if stage = .composing then some (s.compose descriptor i watcher cycle order fault) else none
  | .abandon fault =>
    match stage with
    | .signing record => some (s.abandon i watcher cycle order record fault)
    | _ => none
  | .stamp fault =>
    match stage with
    | .signing record => some (s.stamp i watcher cycle order record fault)
    | _ => none
  | .answer network fault =>
    match stage with
    | .sending record => some (s.answer i watcher cycle order record network fault)
    | _ => none
  | .recordRead => if stage = .recording then some (s.recordRead i watcher cycle order) else none
  | .recordPut txid paidAt fault =>
    match stage with
    | .putting record => some (s.recordPut i watcher cycle order record txid paidAt fault)
    | _ => none

/-- One step of a cycle. -/
def stepCycle (s : PayWorld) (i : ℕ) (payer : Payer) : CycleAct → Option PayWorld
  | .poll entries =>
    match payer.pc with
    | .idle => some (s.poll i payer entries)
    | _ => none
  | .lease nowMs ttlMs fault =>
    match payer.pc with
    | .leasing consents => some (s.readLease i payer.watcher consents nowMs ttlMs fault)
    | _ => none
  | .renew nowMs fault =>
    match payer.pc with
    | .renewing consents =>
      let lease : Option AutopayLease := if fault then s.lease else some ⟨i, some nowMs⟩
      some (setPayer { s with lease } i (some ⟨payer.watcher, .listing consents (!fault)⟩))
    | _ => none
  | .list fault =>
    match payer.pc with
    | .listing consents isPayer =>
      let pendingTxs := if fault then [] else s.pendingTxs
      some (s.setPayer i (some ⟨payer.watcher, .polling ⟨consents, pendingTxs, isPayer⟩⟩))
    | _ => none
  | .row chainId row reads =>
    match payer.pc with
    | .polling cycle => some (s.handleRow i payer.watcher cycle chainId row reads)
    | _ => none
  | .finish =>
    match payer.pc with
    | .polling cycle =>
      some (s.setPayer i (some ⟨payer.watcher.releaseTerminalHolds cycle.pendingTxs, .idle⟩))
    | _ => none

/-- A queued payment is rejected for good. One that has not come to its broadcast is not in the
queue. -/
def reject (s : PayWorld) (number : ℕ) : PayWorld :=
  let failed : ActionTx → ActionTx := fun tx => { tx with status := .failed }
  settle
    { s with
      pendingTxs := Keyed.adjust ActionTx.txId (recordId number) failed s.pendingTxs }
    number fun old => if old = .sent then .dropped else old

/-- A write of another part of the wallet lands. -/
def written (s : PayWorld) : VaultWrite → PayWorld
  | .putConsent record => { s with table := s.table.put record }
  | .deleteConsent id => { s with table := s.table.delete id }
  | .putPending tx =>
    { s with pendingTxs := Keyed.upsert ActionTx.txId tx s.pendingTxs }
  | .deletePending id => { s with pendingTxs := s.pendingTxs.filter (·.id ≠ id) }
  | .rejectPending number => s.reject number

/-- One step of one process, or a write of another part of the wallet. -/
def step (s : PayWorld) : PayAct → Option PayWorld
  | .boot i => if s.payers i = none then some (s.setPayer i (some {})) else none
  | .crash i => (s.payers i).map fun payer => (s.dropUnsent payer.pc).setPayer i none
  | .cycle i act => (s.payers i).bind fun payer => s.stepCycle i payer act
  | .stage i act =>
    (s.payers i).bind fun payer =>
      match payer.pc with
      | .paying cycle order stage => s.stepStage descriptor i payer.watcher cycle order stage act
      | _ => none
  | .write w => some (s.written w)

/-- A vault before any process runs. -/
def start (table : ConsentTable) (pendingTxs : List ActionTx) : PayWorld := { table, pendingTxs }

/-- The process is in a payment, at a stage. -/
def Paying (s : PayWorld) (i : ℕ) (order : PayOrder) (stage : PayStage) : Prop :=
  ∃ watcher cycle, s.payers i = some ⟨watcher, .paying cycle order stage⟩

/-- The payment of a process that is at a stage. -/
def orderAt? (s : PayWorld) (i : ℕ) (stage : PayStage) : Option PayOrder :=
  match s.payers i with
  | some ⟨_, .paying _ order stage'⟩ => if stage' = stage then some order else none
  | _ => none

theorem Paying.orderAt? {s : PayWorld} {i : ℕ} {order : PayOrder} {stage : PayStage}
    (h : s.Paying i order stage) : s.orderAt? i stage = some order := by
  obtain ⟨watcher, cycle, hi⟩ := h
  rw [PayWorld.orderAt?, hi]
  exact if_pos rfl

/-! ### What the pieces leave alone -/

section

variable (s : PayWorld) (i : ℕ) (payer : Option Payer) (number : ℕ) (fate : PayFate)
  (record : ActionTx) (status : TxStatus)

@[simp]
theorem payments_setPayer : (s.setPayer i payer).payments = s.payments := rfl

@[simp]
theorem payers_setPayer : (s.setPayer i payer).payers = update s.payers i payer := rfl

@[simp]
theorem payers_setFate : (s.setFate number fate).payers = s.payers := rfl

@[simp]
theorem payments_writePending : (s.writePending record status).payments = s.payments := by
  rw [writePending]
  split <;> rfl

@[simp]
theorem payers_writePending : (s.writePending record status).payers = s.payers := by
  rw [writePending]
  split <;> rfl

@[simp]
theorem nextNumber_writePending : (s.writePending record status).nextNumber = s.nextNumber := by
  rw [writePending]
  split <;> rfl

end

/-! ### What a step of a payment does -/

/-- Where a process stands after a step of its payment. -/
def resume (cycle : PollCycle) (order : PayOrder) : Option PayStage → PayerPc
  | some stage => .paying cycle order stage
  | none => .polling cycle

/-- The cases of a step of a payment: the stage before, the action, the stage after, if the
payment goes on, and what it leaves of the world. -/
inductive StageEffect (s : PayWorld) (order : PayOrder) :
    PayStage → StageAct → Option PayStage → PayWorld → Prop
  | unfunded (reserved : Bool) : StageEffect s order .funding (.fund false reserved) none s
  | funded (reserved : Bool) : StageEffect s order .funding (.fund true reserved) (some .checking)
        { s with payments := s.payments ++ [⟨order, s.table.get order.consent.id, .started⟩] }
  | refused (h : paymentInFlight (descriptor order.chainId) s.pendingTxs order.matchIndex
        order.consent.sourceAddress) :
      StageEffect s order .checking (.check false) none (s.setFate order.number .dropped)
  | checked (fault : Bool) (h : fault ∨ ¬paymentInFlight (descriptor order.chainId) s.pendingTxs
        order.matchIndex order.consent.sourceAddress) :
      StageEffect s order .checking (.check fault) (some .verifying)
        (s.setFate order.number .checked)
  | unverified :
      StageEffect s order .verifying (.verify true) none (s.setFate order.number .dropped)
  | verified : StageEffect s order .verifying (.verify false) (some .composing)
        (s.setFate order.number .submitted)
  | uncomposed (fault : Bool) (h : fault ∨ descriptor order.chainId = none) :
      StageEffect s order .composing (.compose fault) none (s.setFate order.number .dropped)
  | composed {coin networkKind : String} (h : descriptor order.chainId = some (coin, networkKind)) :
      StageEffect s order .composing (.compose false)
        (some (.signing (newRecord coin networkKind order)))
        { s with
          pendingTxs := Keyed.upsert ActionTx.txId
            (newRecord coin networkKind order) s.pendingTxs }
  | abandoned (record : ActionTx) (fault : Bool) :
      StageEffect s order (.signing record) (.abandon fault) none
        (setFate (if fault then s else s.writePending record .failed) order.number .dropped)
  | unstamped (record : ActionTx) :
      StageEffect s order (.signing record) (.stamp true) none (s.setFate order.number .dropped)
  | stamped (record : ActionTx) :
      StageEffect s order (.signing record) (.stamp false) (some (.sending record))
        ((s.writePending record .broadcasting).setFate order.number .sent)
  | accepted (record : ActionTx) (fault : Bool) :
      StageEffect s order (.sending record) (.answer .accepted fault) (some .recording)
        (if fault then s else s.writePending record .broadcast)
  | deferred (record : ActionTx) (fault : Bool) :
      StageEffect s order (.sending record) (.answer .transient fault) none
        (if fault then s else s.writePending record .queued)
  | rejected (record : ActionTx) (fault : Bool) :
      StageEffect s order (.sending record) (.answer .permanent fault) none
        (setFate (if fault then s else s.writePending record .failed) order.number .dropped)
  | unlisted : StageEffect s order .recording .recordRead none s
  | listed (record : AutopayOrder) :
      StageEffect s order .recording .recordRead (some (.putting record)) s
  | recorded (record : AutopayOrder) (txid paidAt : String) (fault : Bool) (table : ConsentTable) :
      StageEffect s order (.putting record) (.recordPut txid paidAt fault) none { s with table }

/-- A payment that a cycle has just decided on. -/
def Decides (s t : PayWorld) (order : PayOrder) : Prop :=
  order.number = s.nextNumber ∧ t.nextNumber = s.nextNumber + 1 ∧
    ∃ (watcher : Watcher) (cycle : PollCycle) (row : CoinpayRow) (reads : RowReads),
      watcher.judge cycle order.chainId row reads = .pays order.consent order.amountBase ∧
        row.actionIndex = order.matchIndex

section

variable {descriptor} {s t u : PayWorld} {i j : ℕ} {order : PayOrder} {stage : PayStage}
  {a : PayAct}

variable {before : PayStage} {act : StageAct}

/-- **One step of a payment** is one of the cases, and leaves the other processes alone. -/
theorem stepStage_cases {watcher : Watcher} {cycle : PollCycle}
    (h : s.stepStage descriptor i watcher cycle order before act = some t) :
    ∃ after u watcher', StageEffect descriptor s order before act after u ∧
      t = u.setPayer i (some ⟨watcher', resume cycle order after⟩) := by
  cases act with
  | fund source reserved =>
    simp only [stepStage, Option.ite_none_right_eq_some, Option.some.injEq] at h
    obtain ⟨rfl, rfl⟩ := h
    cases source with
    | true => exact ⟨_, _, _, .funded reserved, rfl⟩
    | false => exact ⟨_, _, _, .unfunded reserved, rfl⟩
  | check fault =>
    simp only [stepStage, Option.ite_none_right_eq_some, Option.some.injEq] at h
    obtain ⟨rfl, rfl⟩ := h
    rw [check]
    split
    · next hrefused =>
      obtain ⟨hfault, hinFlight⟩ := hrefused
      obtain rfl := Bool.eq_false_iff.mpr hfault
      exact ⟨_, _, _, .refused hinFlight, rfl⟩
    · next hgoes =>
      have hgoes : fault ∨ ¬paymentInFlight (descriptor order.chainId) s.pendingTxs
          order.matchIndex order.consent.sourceAddress := by
        by_cases hfault : fault
        · exact .inl hfault
        · exact .inr fun hinFlight => hgoes ⟨hfault, hinFlight⟩
      exact ⟨_, _, _, .checked fault hgoes, rfl⟩
  | verify fault =>
    simp only [stepStage, Option.ite_none_right_eq_some, Option.some.injEq] at h
    obtain ⟨rfl, rfl⟩ := h
    cases fault with
    | true => exact ⟨_, _, _, .unverified, rfl⟩
    | false => exact ⟨_, _, _, .verified, rfl⟩
  | compose fault =>
    simp only [stepStage, Option.ite_none_right_eq_some, Option.some.injEq] at h
    obtain ⟨rfl, rfl⟩ := h
    rw [compose]
    split
    · next hnone => exact ⟨_, _, _, .uncomposed fault (.inr hnone), rfl⟩
    · next coin networkKind hchain =>
      cases fault with
      | true => exact ⟨_, _, _, .uncomposed true (.inl rfl), rfl⟩
      | false => exact ⟨_, _, _, .composed hchain, rfl⟩
  | abandon fault =>
    simp only [stepStage] at h
    split at h
    · next record =>
      obtain ⟨⟩ := h
      exact ⟨_, _, _, .abandoned record fault, rfl⟩
    · exact nomatch h
  | stamp fault =>
    simp only [stepStage] at h
    split at h
    · next record =>
      obtain ⟨⟩ := h
      cases fault with
      | true => exact ⟨_, _, _, .unstamped record, rfl⟩
      | false => exact ⟨_, _, _, .stamped record, rfl⟩
    · exact nomatch h
  | answer network fault =>
    simp only [stepStage] at h
    split at h
    · next record =>
      obtain ⟨⟩ := h
      cases network with
      | accepted => exact ⟨_, _, _, .accepted record fault, rfl⟩
      | transient => exact ⟨_, _, _, .deferred record fault, rfl⟩
      | permanent => exact ⟨_, _, _, .rejected record fault, rfl⟩
    · exact nomatch h
  | recordRead =>
    simp only [stepStage, Option.ite_none_right_eq_some, Option.some.injEq] at h
    obtain ⟨rfl, rfl⟩ := h
    rw [recordRead]
    split
    · exact ⟨_, _, _, .unlisted, rfl⟩
    · next record _ => exact ⟨_, _, _, .listed record, rfl⟩
  | recordPut txid paidAt fault =>
    simp only [stepStage] at h
    split at h
    · next record =>
      obtain ⟨⟩ := h
      exact ⟨_, _, _, .recorded record txid paidAt fault _, rfl⟩
    · exact nomatch h

theorem step_stage (h : s.step descriptor (.stage i act) = some t) :
    ∃ watcher cycle order before after u watcher',
      s.payers i = some ⟨watcher, .paying cycle order before⟩ ∧
        StageEffect descriptor s order before act after u ∧
          t = u.setPayer i (some ⟨watcher', resume cycle order after⟩) := by
  obtain ⟨⟨watcher, pc⟩, hi, hstep⟩ := Option.bind_eq_some_iff.mp h
  split at hstep
  · next cycle order before hpc =>
    obtain rfl : pc = .paying cycle order before := hpc
    obtain ⟨after, u, watcher', heffect, ht⟩ := stepStage_cases hstep
    exact ⟨watcher, cycle, order, before, after, u, watcher', hi, heffect, ht⟩
  · exact nomatch hstep

variable {after : Option PayStage}

/-- A step of a payment goes no further than the process that takes it. -/
theorem StageEffect.payers (h : StageEffect descriptor s order before act after u) :
    u.payers = s.payers := by
  cases h with
  | stamped record => exact payers_writePending _ _ _
  | abandoned record fault | accepted record fault | deferred record fault | rejected record fault =>
    cases fault with
    | true => rfl
    | false => exact payers_writePending _ _ _
  | _ => rfl

theorem settle_id (number : ℕ) : (s.settle number id).payments = s.payments := by
  rw [settle, Keyed.adjust]
  exact List.map_congr_left (fun p _ => ite_self p) |>.trans (List.map_id _)

theorem StageEffect.nextNumber (h : StageEffect descriptor s order before act after u) :
    u.nextNumber = s.nextNumber := by
  cases h with
  | stamped record => exact nextNumber_writePending _ _ _
  | abandoned record fault | accepted record fault | deferred record fault | rejected record fault =>
    cases fault with
    | true => rfl
    | false => exact nextNumber_writePending _ _ _
  | _ => rfl

theorem payments_stamped (fault : Bool) (record : ActionTx) (status : TxStatus) :
    (if fault then s else s.writePending record status).payments = s.payments := by
  cases fault with
  | true => rfl
  | false => exact payments_writePending _ _ _

/-- A process that dies drops the payment that it is in, or none. -/
theorem dropUnsent_cases (pc : PayerPc) : s.dropUnsent pc = s ∨ ∃ cycle order stage,
    pc = .paying cycle order stage ∧ s.dropUnsent pc = s.setFate order.number .dropped := by
  unfold dropUnsent
  split
  · next cycle order stage =>
    split
    · exact .inr ⟨cycle, order, _, rfl, rfl⟩
    · exact .inr ⟨cycle, order, _, rfl, rfl⟩
    · exact .inr ⟨cycle, order, _, rfl, rfl⟩
    · exact .inr ⟨cycle, order, _, rfl, rfl⟩
    · exact .inl rfl
  · exact .inl rfl

/-- A step of a payment calls `coinpayAction`, or says what becomes of the payment, and then the
stage it comes to agrees with that. -/
theorem StageEffect.payments (h : StageEffect descriptor s order before act after u) :
    (∃ reserved, before = .funding ∧ act = .fund true reserved ∧ after = some .checking ∧
        u.payments = s.payments ++ [⟨order, s.table.get order.consent.id, .started⟩]) ∨
      ∃ f : PayFate → PayFate, f .dropped = .dropped ∧
        u.payments = (s.settle order.number f).payments ∧ (before = .funding → after = none) ∧
        ∀ stage ∈ after, stage ≠ .funding ∧ ∀ old, (∀ fate ∈ before.fate?, old = fate) →
          ∀ fate ∈ stage.fate?, f old = fate := by
  have hfate : ∀ {u : PayWorld} (fate : PayFate), u.payments = s.payments →
      (u.setFate order.number fate).payments =
        (s.settle order.number fun old => if old = .dropped then .dropped else fate).payments := by
    intro u fate hu
    rw [setFate, settle, settle, hu]
  have hends : ∀ {P : PayStage → Prop}, ∀ stage ∈ (none : Option PayStage), P stage := by
    rintro P _ ⟨⟩
  cases h with
  | funded reserved => exact .inl ⟨reserved, rfl, rfl, rfl, rfl⟩
  | refused | unverified | uncomposed | unstamped =>
    exact .inr ⟨_, rfl, hfate .dropped rfl, fun _ => rfl, hends⟩
  | abandoned record fault | rejected record fault =>
    exact .inr ⟨_, rfl, hfate .dropped (payments_stamped fault record .failed), fun _ => rfl, hends⟩
  | checked fault h =>
    refine .inr ⟨_, rfl, hfate .checked rfl, by rintro ⟨⟩, ?_⟩
    rintro _ ⟨⟩
    refine ⟨by rintro ⟨⟩, fun old hold => ?_⟩
    obtain rfl := hold .started rfl
    rintro _ ⟨⟩
    rfl
  | verified =>
    refine .inr ⟨_, rfl, hfate .submitted rfl, by rintro ⟨⟩, ?_⟩
    rintro _ ⟨⟩
    refine ⟨by rintro ⟨⟩, fun old hold => ?_⟩
    obtain rfl := hold .checked rfl
    rintro _ ⟨⟩
    rfl
  | stamped record =>
    refine .inr ⟨_, rfl, hfate .sent (payments_stamped false record .broadcasting), by rintro ⟨⟩, ?_⟩
    rintro _ ⟨⟩
    exact ⟨by rintro ⟨⟩, by rintro old hold _ ⟨⟩⟩
  | composed h =>
    refine .inr ⟨id, rfl, (settle_id _).symm, by rintro ⟨⟩, ?_⟩
    rintro _ ⟨⟩
    exact ⟨by rintro ⟨⟩, fun old hold => hold⟩
  | accepted record fault =>
    refine .inr ⟨id, rfl, ?_, by rintro ⟨⟩, ?_⟩
    · rw [settle_id]
      exact payments_stamped fault record .broadcast
    · rintro _ ⟨⟩
      exact ⟨by rintro ⟨⟩, by rintro old hold _ ⟨⟩⟩
  | deferred record fault =>
    refine .inr ⟨id, rfl, ?_, fun _ => rfl, hends⟩
    rw [settle_id]
    exact payments_stamped fault record .queued
  | listed record =>
    refine .inr ⟨id, rfl, (settle_id _).symm, by rintro ⟨⟩, ?_⟩
    rintro _ ⟨⟩
    exact ⟨by rintro ⟨⟩, by rintro old hold _ ⟨⟩⟩
  | unfunded reserved | unlisted => exact .inr ⟨id, rfl, (settle_id _).symm, fun _ => rfl, hends⟩
  | recorded record txid paidAt fault table =>
    exact .inr ⟨id, rfl, (settle_id order.number).symm, fun _ => rfl, hends⟩

/-- **One step of a cycle** leaves the payments, the vault and the other processes alone. The
process is in a payment afterwards only where it has decided on it. -/
theorem stepCycle_cases {payer : Payer} {act : CycleAct} (hi : s.payers i = some payer)
    (h : s.stepCycle i payer act = some t) :
    t.payments = s.payments ∧ t.pendingTxs = s.pendingTxs ∧
      ∃ payer', t.payers = update s.payers i (some payer') ∧
        ((∀ cycle order stage, payer'.pc ≠ .paying cycle order stage) ∧
            t.nextNumber = s.nextNumber ∨
          ∃ cycle order, payer'.pc = .paying cycle order .funding ∧ s.Decides t order) := by
  cases act with
  | poll entries =>
    simp only [stepCycle] at h
    split at h
    · obtain ⟨⟩ := h
      refine ⟨rfl, rfl, _, rfl, .inl ⟨fun cycle order stage heq => ?_, rfl⟩⟩
      dsimp only at heq
      split at heq <;> exact nomatch heq
    · exact nomatch h
  | lease nowMs ttlMs fault =>
    simp only [stepCycle] at h
    split at h
    · obtain ⟨⟩ := h
      rw [readLease]
      split
      · exact ⟨rfl, rfl, _, rfl, .inl ⟨by rintro _ _ _ ⟨⟩, rfl⟩⟩
      · exact ⟨rfl, rfl, _, rfl, .inl ⟨by rintro _ _ _ ⟨⟩, rfl⟩⟩
    · exact nomatch h
  | renew nowMs fault | list fault | finish =>
    simp only [stepCycle] at h
    split at h
    · obtain ⟨⟩ := h
      exact ⟨rfl, rfl, _, rfl, .inl ⟨by rintro _ _ _ ⟨⟩, rfl⟩⟩
    · exact nomatch h
  | row chainId row reads =>
    simp only [stepCycle] at h
    split at h
    · next cycle hpc =>
      obtain ⟨⟩ := h
      rw [handleRow]
      split
      · exact ⟨rfl, rfl, _, rfl, .inl ⟨by rintro _ _ _ ⟨⟩, rfl⟩⟩
      · next consent amountBase hjudge =>
        exact ⟨rfl, rfl, _, rfl, .inr ⟨cycle, _, rfl, rfl, rfl, _, cycle, row, reads, hjudge, rfl⟩⟩
      · have hsame : s.payers = update s.payers i (some payer) := by
          rw [← hi, update_eq_self]
        refine ⟨rfl, rfl, payer, hsame, .inl ⟨fun cycle' order stage heq => ?_, rfl⟩⟩
        rw [hpc] at heq
        exact nomatch heq
    · exact nomatch h

/-! ### The stage that a process comes to -/

/-- The stage of a process in the world after one process has moved. -/
theorem paying_update {payer : Option Payer}
    (ht : t.payers = update s.payers i payer) (hj : t.Paying j order stage) :
    j ≠ i ∧ s.Paying j order stage ∨
      j = i ∧ ∃ watcher cycle, payer = some ⟨watcher, .paying cycle order stage⟩ := by
  obtain ⟨watcher, cycle, hj⟩ := hj
  rw [ht] at hj
  by_cases hij : j = i
  · subst hij
    rw [update_self] at hj
    exact .inr ⟨rfl, watcher, cycle, hj⟩
  · rw [update_of_ne hij] at hj
    exact .inl ⟨hij, watcher, cycle, hj⟩

/-- The stages of the processes after one of them has taken a step of its payment. -/
theorem StageEffect.paying {order' : PayOrder} {watcher : Watcher} {cycle : PollCycle}
    (h : StageEffect descriptor s order' before act after u)
    (hj : (u.setPayer i (some ⟨watcher, resume cycle order' after⟩)).Paying j order stage) :
    j ≠ i ∧ s.Paying j order stage ∨ j = i ∧ order = order' ∧ after = some stage := by
  have hpayers : (u.setPayer i (some ⟨watcher, resume cycle order' after⟩)).payers =
      update s.payers i (some ⟨watcher, resume cycle order' after⟩) := by
    rw [payers_setPayer, h.payers]
  rcases paying_update hpayers hj with hj | ⟨rfl, watcher', cycle', heq⟩
  · exact .inl hj
  · injection heq with heq
    injection heq with _ hpc
    cases after with
    | none => exact nomatch hpc
    | some after =>
      injection hpc with _ horder hstage
      subst horder hstage
      exact .inr ⟨rfl, rfl, rfl⟩

/-- **The stages that processes come to.** A process that is at a stage of a payment was there
before, and has neither gone on nor died since; or its cycle has just decided on the payment; or
it has gone on from the stage before. -/
theorem paying_of_step (h : s.step descriptor a = some t) (hj : t.Paying j order stage) :
    (∀ act, a ≠ .stage j act) ∧ a ≠ .crash j ∧ s.Paying j order stage ∨
      stage = .funding ∧ s.Decides t order ∨
        ∃ act before u, a = .stage j act ∧ s.Paying j order before ∧
          StageEffect descriptor s order before act (some stage) u := by
  cases a with
  | boot i =>
    simp only [step, Option.ite_none_right_eq_some, Option.some.injEq] at h
    obtain ⟨-, rfl⟩ := h
    rcases paying_update rfl hj with ⟨-, hj⟩ | ⟨-, _, _, heq⟩
    · exact .inl ⟨by rintro _ ⟨⟩, by rintro ⟨⟩, hj⟩
    · exact nomatch heq
  | crash i =>
    obtain ⟨payer, hi, rfl⟩ := Option.map_eq_some_iff.mp h
    have hdrop : (s.dropUnsent payer.pc).payers = s.payers := by
      rcases dropUnsent_cases (s := s) payer.pc with hdrop | ⟨_, _, _, -, hdrop⟩
      · rw [hdrop]
      · rw [hdrop, payers_setFate]
    have hpayers := congrArg (update · i none) hdrop
    rcases paying_update hpayers hj with ⟨hij, hj⟩ | ⟨-, _, _, heq⟩
    · exact .inl ⟨by rintro _ ⟨⟩, by rintro ⟨⟩; exact hij rfl, hj⟩
    · exact nomatch heq
  | cycle i act =>
    obtain ⟨payer, hi, hstep⟩ := Option.bind_eq_some_iff.mp h
    obtain ⟨-, -, payer', hpayers, hpayer'⟩ := stepCycle_cases hi hstep
    rcases paying_update hpayers hj with ⟨-, hj⟩ | ⟨-, watcher, cycle, heq⟩
    · exact .inl ⟨by rintro _ ⟨⟩, by rintro ⟨⟩, hj⟩
    · obtain ⟨⟩ := heq
      rcases hpayer' with ⟨hout, -⟩ | ⟨cycle', order', hpc, hdecides⟩
      · exact absurd rfl (hout cycle order stage)
      · injection hpc with _ horder hstage
        subst horder
        exact .inr (.inl ⟨hstage, hdecides⟩)
  | stage i act =>
    obtain ⟨watcher, cycle, order', before, after, u, watcher', hi, heffect, rfl⟩ := step_stage h
    rcases heffect.paying hj with ⟨hij, hj⟩ | ⟨rfl, rfl, rfl⟩
    · exact .inl ⟨by rintro _ ⟨⟩; exact hij rfl, by rintro ⟨⟩, hj⟩
    · exact .inr (.inr ⟨act, before, u, rfl, ⟨watcher, cycle, hi⟩, heffect⟩)
  | write w =>
    obtain ⟨⟩ := h
    refine .inl ⟨by rintro _ ⟨⟩, by rintro ⟨⟩, ?_⟩
    cases w <;> exact hj

end

/-! ### A sample vault -/

/-- The chain of the samples. -/
def sampleDescriptor (chainId : String) : Option (String × String) :=
  if chainId = "btc" then some ("BTC", "mainnet") else none

/-- The order of the samples, which gives one coin for a hundred tokens. Nothing is paid yet. -/
def unpaidConsent : AutopayOrder := { sampleConsent "0" with payments := some [] }

/-- The consent of the samples is in the store, and nothing is pending. -/
def consented : PayWorld := start ⟨[unpaidConsent], List.nodup_singleton _⟩ []

/-- A match of the order, 0.6 of the coin for 60 tokens. -/
def sampleRow (matchIndex : String) : CoinpayRow where
  coinpayStatus := .text "pending_coinpay"
  actionIndex := matchIndex
  expiration := some 1700007200
  blockIndex := some 100
  coinAmount := .text "0.6"
  payerAddress := "a1"

/-- What is read while the match is handled. -/
def sampleReads (matchIndex : String) : RowReads where
  blockRows := some [⟨matchIndex, .text "coinpay", .text "valid", some "1557", some "1558",
    .text "0.6", .text "60"⟩]
  tipHeight := some 101
  nowSeconds := 1700000000
  signer := true

/-- A process starts, and its first cycle takes the lease. -/
def cycleBegins (i : ℕ) (nowMs : ℚ) : List PayAct :=
  [.boot i, .cycle i (.poll []), .cycle i (.lease nowMs 180000 false),
    .cycle i (.renew nowMs false), .cycle i (.list false)]

/-- A match is decided on, and passes the re-check. -/
def recheck (i : ℕ) (matchIndex : String) : List PayAct :=
  [.cycle i (.row "btc" (sampleRow matchIndex) (sampleReads matchIndex)),
    .stage i (.fund true true), .stage i (.check false)]

/-- A match is paid, and the payment recorded. -/
def paidAndRecorded (i : ℕ) (matchIndex : String) : List PayAct :=
  recheck i matchIndex ++
    [.stage i (.verify false), .stage i (.compose false), .stage i (.stamp false),
      .stage i (.answer .accepted false), .stage i .recordRead,
      .stage i (.recordPut "tx" "2026-01-01T00:00:00.000Z" false)]

end PayWorld

end XchainWallet
