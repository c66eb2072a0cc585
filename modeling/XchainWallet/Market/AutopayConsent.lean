import XchainWallet.Keyed.List
import XchainWallet.Market.AutopayOrder
import XchainWallet.Transition.Run

/-!
# Consent records under concurrent operations

Four operations change the consent records of a vault: the flag is set, the flags of an address
are cleared, the indexes of orders that have been indexed are filled in, and a payment is
recorded. Each reads records, awaits, and puts back a whole record with one field changed; the
lookup of an index awaits the network in between. A `ConsentWorld` is the table with the calls
that are under way, and a call goes from one `await` to the next while the others do the same.

A put lands as a whole or rejects its call. `history` lists the changes whose put has landed.
-/

namespace XchainWallet

/-! ### The table -/

/-- The table of consent records, by id. -/
structure ConsentTable where
  records : List AutopayOrder
  distinct : Keyed.Distinct AutopayOrder.id records

namespace ConsentTable

/-- `autopayOrders.get(id)`. -/
def get (table : ConsentTable) (id : String) : Option AutopayOrder :=
  Keyed.find AutopayOrder.id id table.records

/-- `autopayOrders.put(record)`. -/
def put (table : ConsentTable) (record : AutopayOrder) : ConsentTable where
  records := Keyed.upsert AutopayOrder.id record table.records
  distinct := table.distinct.upsert

end ConsentTable

/-- Consent records, scoped to a wallet and to a chain where one is given. -/
def listAutopayOrders (table : ConsentTable) (walletId chainId : Option String) :
    List AutopayOrder :=
  table.records.filter fun r =>
    (walletId = none ∨ walletId = some r.walletId) ∧ (chainId = none ∨ chainId = some r.chainId)

/-! ### Calls -/

/-- The one field of a record that a put changes. -/
inductive ConsentChange
  | autopay (enabled : Bool)
  | orderActionIndex (index : String)
  | payment (payment : AutopayPayment)
  deriving DecidableEq

/-- The record with the change, spread over the rest of it. -/
def ConsentChange.apply (change : ConsentChange) (record : AutopayOrder) : AutopayOrder :=
  match change with
  | autopay enabled => { record with autopay := enabled }
  | orderActionIndex index => { record with orderActionIndex := some index }
  | payment p => record.appendPayment p

@[simp]
theorem ConsentChange.apply_id (change : ConsentChange) (record : AutopayOrder) :
    (change.apply record).id = record.id := by
  cases change <;> rfl

/-- An operation as it is called. -/
inductive ConsentCall
  | setAutopayEnabled (id : String) (enabled : Bool)
  | disableAutopayForAddress (walletId chainId sourceAddress : String)
  | resolveOrderActionIndexes (walletId : Option String)
  | recordAutopayPayment (id : String) (payment : AutopayPayment)

/-- What a call has left to do after a put. -/
inductive AfterPut
  | done
  | disabling (sourceAddress : String) (todo : List AutopayOrder)
  | resolving (todo : List AutopayOrder)

/-- Where a call awaits: its read, the answer of the explorer for a record, or a put. -/
inductive ConsentPc
  | reading (call : ConsentCall)
  | asking (record : AutopayOrder) (todo : List AutopayOrder)
  | putting (record : AutopayOrder) (change : ConsentChange) (after : AfterPut)

/-- The loop of `disableAutopayForAddress` over the records it has listed. -/
def disableNext (sourceAddress : String) : List AutopayOrder → Option ConsentPc
  | [] => none
  | record :: todo =>
    if record.sourceAddress ≠ sourceAddress ∨ record.autopay ≠ true then
      disableNext sourceAddress todo
    else some (.putting record (.autopay false) (.disabling sourceAddress todo))

/-- The loop of `resolveOrderActionIndexes` over the records it has listed. -/
def resolveNext : List AutopayOrder → Option ConsentPc
  | [] => none
  | r :: todo => if r.orderActionIndex ≠ none then resolveNext todo else some (.asking r todo)

/-- An action row of the explorer's answer for a transaction. -/
structure TxAction where
  action : String
  actionIndex : Option String
  status : JsField

/-- The index of the order among the actions of a transaction. -/
def orderRowIndex (rows : List TxAction) : Option String :=
  (rows.find? fun a => a.action.toUpper = "ORDER" ∧ a.actionIndex ≠ none ∧
    ¬a.status.text?.any (startsWithNoCase "invalid")).bind (·.actionIndex)

namespace ConsentPc

/-- A call once its read has come back: it ends where its record is missing, or where the
ledger lists the payment already. -/
def afterRead (table : ConsentTable) : ConsentCall → Option ConsentPc
  | .setAutopayEnabled id enabled =>
    (table.get id).map fun record => .putting record (.autopay enabled) .done
  | .disableAutopayForAddress walletId chainId sourceAddress =>
    disableNext sourceAddress (listAutopayOrders table (some walletId) (some chainId))
  | .resolveOrderActionIndexes walletId => resolveNext (listAutopayOrders table walletId none)
  | .recordAutopayPayment id payment =>
    (table.get id).bind fun record =>
      if record.hasPaid payment.orderMatchActionIndex.shown then none
      else some (.putting record (.payment payment) .done)

/-- A call once the explorer has answered for the record, `none` if it was out of reach. -/
def afterAnswer (record : AutopayOrder) (todo : List AutopayOrder)
    (rows : Option (List TxAction)) : Option ConsentPc :=
  match rows.bind orderRowIndex with
  | none => resolveNext todo
  | some index => some (.putting record (.orderActionIndex index) (.resolving todo))

end ConsentPc

/-- A call once its put has landed. -/
def AfterPut.next : AfterPut → Option ConsentPc
  | done => none
  | disabling sourceAddress todo => disableNext sourceAddress todo
  | resolving todo => resolveNext todo

/-! ### The world -/

/-- The table, the calls under way, and the changes that have landed. -/
structure ConsentWorld where
  table : ConsentTable
  calls : ℕ → Option ConsentPc
  history : List (String × ConsentChange)

/-- What can happen: a call begins, comes back from one of its awaits, or rejects. -/
inductive ConsentAct
  | begin (i : ℕ) (call : ConsentCall)
  | read (i : ℕ)
  | answer (i : ℕ) (rows : Option (List TxAction))
  | put (i : ℕ)
  | reject (i : ℕ)

namespace ConsentWorld

/-- A vault with no call under way. -/
def start (table : ConsentTable) : ConsentWorld where
  table := table
  calls := fun _ => none
  history := []

/-- The call goes on, or ends. -/
def setCall (s : ConsentWorld) (i : ℕ) (pc : Option ConsentPc) : ConsentWorld :=
  { s with calls := Function.update s.calls i pc }

/-- A put of the record with its change lands. -/
def landed (s : ConsentWorld) (record : AutopayOrder) (change : ConsentChange) : ConsentWorld :=
  { s with
    table := s.table.put (change.apply record)
    history := s.history ++ [(record.id, change)] }

/-- One step of one call. -/
def step (s : ConsentWorld) : ConsentAct → Option ConsentWorld
  | .begin i call =>
    match s.calls i with
    | none => some (s.setCall i (some (.reading call)))
    | some _ => none
  | .read i =>
    match s.calls i with
    | some (.reading call) => some (s.setCall i (ConsentPc.afterRead s.table call))
    | _ => none
  | .answer i rows =>
    match s.calls i with
    | some (.asking record todo) => some (s.setCall i (ConsentPc.afterAnswer record todo rows))
    | _ => none
  | .put i =>
    match s.calls i with
    | some (.putting record change after) => some ((s.landed record change).setCall i after.next)
    | _ => none
  | .reject i =>
    match s.calls i with
    | some _ => some (s.setCall i none)
    | none => none

/-- A step either leaves the table and the history alone, or is a put that lands. -/
theorem step_cases {s t : ConsentWorld} {a : ConsentAct} (h : s.step a = some t) :
    (t.table = s.table ∧ t.history = s.history ∧ ∀ i, a ≠ .put i) ∨
      ∃ i record change after, a = .put i ∧ s.calls i = some (.putting record change after) ∧
        t = (s.landed record change).setCall i after.next := by
  cases a with
  | begin i call | read i | answer i rows | reject i =>
    simp only [step] at h
    split at h
    · obtain ⟨⟩ := h
      exact .inl ⟨rfl, rfl, nofun⟩
    · cases h
  | put i =>
    simp only [step] at h
    split at h
    · next record change after hcall =>
      exact .inr ⟨i, record, change, after, rfl, hcall, (Option.some.inj h).symm⟩
    · cases h

end ConsentWorld

end XchainWallet
