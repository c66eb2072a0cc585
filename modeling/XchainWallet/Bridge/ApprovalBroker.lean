import XchainWallet.Json.Value
import XchainWallet.Keyed.Table
import XchainWallet.Transition.Run

/-!
# The approval broker

Where the bridge needs a decision of the user it asks the broker, which parks the request in `pending`,
opens a window for it and hands back a promise. The promise is settled by the window's answer, by the
closing of the window or of the tab that asked, by a cancel, or by a timer.

A connect of an origin that is already being asked about is given the promise of the earlier one. The
window's id is known only once `windows.create` has answered; the events of windows and tabs come in
any order between.
-/

namespace XchainWallet.Approvals

inductive Kind
  | connect
  | signAction
  | signMessage
  | signPsbt
  | coSign
  | signIn
deriving DecidableEq

/-- What the bridge asks with: `origin` where it is a text, `requesterTabId` where it is an integer, and
the rest of it. -/
structure Payload where
  origin : Option String
  requesterTabId : Option ℤ
  body : Json.Value

def omitRequesterTabId (payload : Payload) : Payload := { payload with requesterTabId := none }

/-- A parked request; `deferred` is the number of its promise. -/
structure PendingEntry where
  id : String
  kind : Kind
  payload : Payload
  deferred : ℕ
  windowId : Option ℤ
  requesterTabId : Option ℤ

/-- What a promise was settled with: the answer of the window, `{ approved: false }` with the reason of
a cancel, or an error. -/
inductive Outcome (ρ : Type)
  | result (result : ρ)
  | rejected (reason : Option String)
  | failed (message : String)

/-- `timers` are the ids whose timer is armed, `closing` the windows that the broker asked to close, and
`settled` the calls of `resolve` and `reject`, the last one first. -/
structure Broker (ρ : Type) where
  pending : Keyed.Table PendingEntry.id
  deferreds : ℕ
  timers : List String
  settled : List (ℕ × Outcome ρ)
  closing : List ℤ

/-- The id that the `n`-th request is given, and whether windows can be created. -/
structure Deps where
  newId : ℕ → String
  canCreate : Bool

/-- What the window is shown. -/
structure Prompt where
  id : String
  kind : Kind
  payload : Payload

variable {ρ : Type}

namespace Broker

def fetch (id : String) (b : Broker ρ) : Option Prompt :=
  (b.pending.get id).map fun entry => ⟨entry.id, entry.kind, entry.payload⟩

/-- Take the entry out of the table, clear its timer and settle its promise. -/
def settle (entry : PendingEntry) (outcome : Outcome ρ) (b : Broker ρ) : Broker ρ :=
  { b with
    pending := b.pending.delete entry.id
    timers := b.timers.filter (· ≠ entry.id)
    settled := (entry.deferred, outcome) :: b.settled }

/-- `windows.remove`, where the entry has a window. -/
def removeWindow (windowId : Option ℤ) (b : Broker ρ) : Broker ρ :=
  { b with closing := windowId.toList ++ b.closing }

/-- The entry that a request is parked under. -/
def newEntry (deps : Deps) (kind : Kind) (payload : Payload) (b : Broker ρ) : PendingEntry :=
  { id := deps.newId b.deferreds
    kind := kind
    payload := omitRequesterTabId payload
    deferred := b.deferreds
    windowId := none
    requesterTabId := payload.requesterTabId }

def park (entry : PendingEntry) (b : Broker ρ) : Broker ρ :=
  { b with
    pending := b.pending.put entry
    deferreds := b.deferreds + 1
    timers := entry.id :: b.timers }

def request (deps : Deps) (kind : Kind) (payload : Payload) (b : Broker ρ) : Broker ρ :=
  if deps.canCreate then b.park (b.newEntry deps kind payload)
  else
    (b.park (b.newEntry deps kind payload)).settle (b.newEntry deps kind payload)
      (.failed "ApprovalBroker: chrome.windows.create unavailable; inject windows for tests")

/-- The pending connect of the origin, if it has one. -/
def pendingConnect (payload : Payload) (b : Broker ρ) : Option PendingEntry :=
  match payload.origin with
  | none => none
  | some origin =>
    if origin = "" then none
    else b.pending.records.find? fun entry => entry.kind = .connect ∧ entry.payload.origin = some origin

/-- `windows.create` has answered. -/
def windowCreated (id : String) (windowId : Option ℤ) (b : Broker ρ) : Broker ρ :=
  match b.pending.get id with
  | some current => { b with pending := b.pending.put { current with windowId := windowId } }
  | none => b.removeWindow windowId

/-- `windows.create` has failed. -/
def windowFailed (id message : String) (b : Broker ρ) : Broker ρ :=
  match b.pending.get id with
  | some current => b.settle current (.failed message)
  | none => b

def rejectPending (id : String) (b : Broker ρ) : Broker ρ :=
  match b.pending.get id with
  | some entry => (b.settle entry (.rejected none)).removeWindow entry.windowId
  | none => b

def onWindowRemoved (windowId : ℤ) (b : Broker ρ) : Broker ρ :=
  match b.pending.records.find? fun entry => entry.windowId = some windowId with
  | some entry => b.settle entry (.rejected none)
  | none => b

def onTabRemoved (tabId : ℤ) (b : Broker ρ) : Broker ρ :=
  (b.pending.records.filter fun entry => entry.requesterTabId = some tabId).foldl
    (fun b entry => b.rejectPending entry.id) b

/-- The window's answer. -/
def resolve (id : String) (result : ρ) (b : Broker ρ) : Bool × Broker ρ :=
  match b.pending.get id with
  | some entry => (true, (b.settle entry (.result result)).removeWindow entry.windowId)
  | none => (false, b)

def cancelEntry (reason : Option String) (b : Broker ρ) (entry : PendingEntry) : Broker ρ :=
  if (b.pending.get entry.id).any (·.deferred = entry.deferred) then
    (b.settle entry (.rejected reason)).removeWindow entry.windowId
  else b

def cancelEntries (entries : List PendingEntry) (reason : Option String) (b : Broker ρ) : Broker ρ :=
  entries.foldl (cancelEntry reason) b

/-- A reason that is the empty text is none. -/
def cancelAll (reason : Option String) (b : Broker ρ) : Broker ρ :=
  b.cancelEntries b.pending.records (reason.filter (· ≠ ""))

def cancelOriginsMatching (matching : Option String → Bool) (b : Broker ρ) : Broker ρ :=
  b.cancelEntries (b.pending.records.filter fun entry => matching entry.payload.origin) none

end Broker

/-! ### Events in any order -/

/-- A request that the bridge made, and the number of the promise that it was given. -/
structure Made where
  kind : Kind
  payload : Payload
  deferred : ℕ

/-- The broker, the windows that are being created, the ids of windows that were created so far, and the
requests that were made. -/
structure World (ρ : Type) where
  broker : Broker ρ
  creating : List String
  opened : List ℤ
  made : List Made

inductive Event (ρ : Type)
  | connect (payload : Payload)
  | request (kind : Kind) (payload : Payload)
  | windowCreated (id : String) (windowId : Option ℤ)
  | windowFailed (id message : String)
  | windowRemoved (windowId : ℤ)
  | tabRemoved (tabId : ℤ)
  | resolve (id : String) (result : ρ)
  | cancelAll (reason : Option String)
  | cancelOriginsMatching (matching : Option String → Bool)
  | timeout (id : String)

/-- A request that gets a promise of its own. -/
def World.ask (deps : Deps) (kind : Kind) (payload : Payload) (w : World ρ) : World ρ :=
  { w with
    broker := w.broker.request deps kind payload
    creating := if deps.canCreate then deps.newId w.broker.deferreds :: w.creating else w.creating
    made := ⟨kind, payload, w.broker.deferreds⟩ :: w.made }

/-- A connect is given the promise of the pending connect of its origin. -/
def World.connect (deps : Deps) (payload : Payload) (w : World ρ) : World ρ :=
  match w.broker.pendingConnect payload with
  | some entry => { w with made := ⟨.connect, payload, entry.deferred⟩ :: w.made }
  | none => w.ask deps .connect payload

/-- One event. A window is created once for each request, with an id that no window had, and only an
armed timer fires. -/
def step (deps : Deps) (w : World ρ) : Event ρ → Option (World ρ)
  | .connect payload => some (w.connect deps payload)
  | .request kind payload => if kind = .connect then none else some (w.ask deps kind payload)
  | .windowCreated id windowId =>
    if id ∈ w.creating ∧ ∀ opened ∈ w.opened, windowId ≠ some opened then
      some { w with
        broker := w.broker.windowCreated id windowId
        creating := w.creating.erase id
        opened := windowId.toList ++ w.opened }
    else none
  | .windowFailed id message =>
    if id ∈ w.creating then
      some { w with broker := w.broker.windowFailed id message, creating := w.creating.erase id }
    else none
  | .windowRemoved windowId => some { w with broker := w.broker.onWindowRemoved windowId }
  | .tabRemoved tabId => some { w with broker := w.broker.onTabRemoved tabId }
  | .resolve id result => some { w with broker := (w.broker.resolve id result).2 }
  | .cancelAll reason => some { w with broker := w.broker.cancelAll reason }
  | .cancelOriginsMatching matching =>
    some { w with broker := w.broker.cancelOriginsMatching matching }
  | .timeout id =>
    if id ∈ w.broker.timers then
      some { w with broker :=
        { w.broker with timers := w.broker.timers.filter (· ≠ id) }.rejectPending id }
    else none

/-- A broker that was just constructed. -/
def World.init : World ρ :=
  { broker := { pending := .empty, deferreds := 0, timers := [], settled := [], closing := [] }
    creating := [], opened := [], made := [] }

end XchainWallet.Approvals
