import Mathlib.Data.Int.Basic
import XchainWallet.Transition.Run

/-!
# The in-flight approval reservation ledger

A confirmation window reserves the amount that it is about to spend, so that the pre-flight of
another window can subtract it, and releases it once its transaction has come to an end. The
ledger keeps its entries in memory and, in the extension, in a store that outlives the process.

`ensureHydrated` loads the store at the first call. Every call awaits it, then changes the
entries in one go, and awaits the save of what it has changed. A `LedgerWorld` is one ledger over
its store with the calls that are under way. It carries two books that the code does not have:
`due` lists what has been reserved or loaded, less what has been released, reserved anew or
found expired by a reserve, and `resolved` the entries whose reserve has resolved.
-/

namespace XchainWallet

/-! ### Entries -/

/-- An entry as the store holds it. `stamp` is the time of the reservation in milliseconds,
`none` where the entry has none. -/
structure Reservation where
  id : String
  chainId : String
  tick : String
  amount : String
  stamp : Option ℤ
  address : Option String
  deriving DecidableEq

namespace Reservation

/-- An entry that carries the address of its funds. -/
def tagged (r : Reservation) : Bool := r.address.any (· ≠ "")

/-- An entry without an address expires when it is older than the limit. A clock that was set
back leaves it in place. -/
def isExpired (ttlMs now : ℤ) (r : Reservation) : Bool :=
  !r.tagged && r.stamp.any fun since => ttlMs < now - since

/-- An entry without a stamp ages from its load. -/
def stamped (now : ℤ) (r : Reservation) : Reservation :=
  { r with stamp := some (r.stamp.getD now) }

end Reservation

/-- An entry in memory, an object with its identity. -/
structure HoldObj where
  ref : ℕ
  val : Reservation
  deriving DecidableEq

/-- Objects for the entries, with references from `ref` on. -/
def holdObjs (ref : ℕ) : List Reservation → List HoldObj
  | [] => []
  | r :: rs => ⟨ref, r⟩ :: holdObjs (ref + 1) rs

/-! ### Calls -/

/-- The operations of the ledger. `all` reads as `localDeltas` does. -/
inductive LedgerCall
  | reserve (entry : Reservation)
  | release (id : String)
  | releaseByAddress (chainId address : String)
  | localDeltas (chainId : String) (excludeId : Option String)

/-- Where a call awaits: the load of the store, before and after the store has answered, the
end of `ensureHydrated`, or its save. `none` is a load that failed. -/
inductive LedgerPc
  | loading (call : LedgerCall)
  | loaded (call : LedgerCall) (entries : Option (List Reservation))
  | ready (call : LedgerCall)
  | saving

/-- A save under way: its call, the entry that the call has reserved, and what it saves. -/
structure LedgerSave where
  call : ℕ
  reserved : Option ℕ
  snapshot : List HoldObj

/-! ### The world -/

structure LedgerWorld where
  now : ℤ
  mem : List HoldObj
  hydrated : Bool
  stored : List Reservation
  saves : List LedgerSave
  calls : ℕ → Option LedgerPc
  nextRef : ℕ
  due : List HoldObj
  resolved : List ℕ

/-- What can happen. `i` is the index of a call. -/
inductive LedgerAct
  | clock (now : ℤ)
  | begin (i : ℕ) (call : LedgerCall)
  | fetch (i : ℕ) (ok : Bool)
  | hydrate (i : ℕ)
  | run (i : ℕ)
  | saved (i : ℕ) (ok : Bool)

namespace LedgerWorld

/-- A ledger that is not hydrated, over a store. -/
def start (now : ℤ) (stored : List Reservation) : LedgerWorld where
  now := now
  mem := []
  hydrated := false
  stored := stored
  saves := []
  calls := fun _ => none
  nextRef := 0
  due := []
  resolved := []

/-- The call goes on, or ends. -/
def setCall (s : LedgerWorld) (i : ℕ) (pc : Option LedgerPc) : LedgerWorld :=
  { s with calls := Function.update s.calls i pc }

theorem setCall_self (s : LedgerWorld) (i : ℕ) (pc : Option LedgerPc) :
    (s.setCall i pc).calls i = pc := Function.update_self ..

theorem setCall_of_ne (s : LedgerWorld) {i j : ℕ} (pc : Option LedgerPc) (h : j ≠ i) :
    (s.setCall i pc).calls j = s.calls j := Function.update_of_ne h ..

/-- What has been loaded takes the place of the entries in memory. -/
def hydrate (s : LedgerWorld) (entries : Option (List Reservation)) : LedgerWorld :=
  let objs := holdObjs s.nextRef ((entries.getD []).map (Reservation.stamped s.now))
  { s with
    mem := objs
    hydrated := true
    nextRef := s.nextRef + objs.length
    due := s.due ++ objs
    resolved := s.resolved ++ objs.map HoldObj.ref }

/-- Keep some of the entries, and add one where there is one. -/
def edit (s : LedgerWorld) (keeps : Reservation → Bool) (added : Option Reservation) :
    LedgerWorld :=
  let objs : List HoldObj := added.toList.map (HoldObj.mk s.nextRef)
  { s with
    mem := s.mem.filter (fun o => keeps o.val) ++ objs
    nextRef := s.nextRef + objs.length
    due := s.due.filter (fun o => keeps o.val) ++ objs }

/-- A save of what is in memory goes out. -/
def persist (s : LedgerWorld) (i : ℕ) (reserved : Option ℕ) : LedgerWorld :=
  { s with saves := s.saves ++ [⟨i, reserved, s.mem⟩] }

/-- Edit the entries, and save them if that has changed anything. -/
def change (s : LedgerWorld) (i : ℕ) (keeps : Reservation → Bool) (added : Option Reservation) :
    LedgerWorld :=
  let s' := s.edit keeps added
  if added ≠ none ∨ s'.mem.length ≠ s.mem.length then
    (s'.persist i (added.map fun _ => s.nextRef)).setCall i (some .saving)
  else s'.setCall i none

/-- The body of an operation, once the ledger is hydrated. -/
def body (ttlMs : ℤ) (s : LedgerWorld) (i : ℕ) : LedgerCall → LedgerWorld
  | .reserve entry =>
    if entry.id = "" ∨ entry.chainId = "" ∨ entry.tick = "" then s.setCall i none
    else s.change i (fun r => r.id ≠ entry.id ∧ ¬r.isExpired ttlMs s.now)
      (some { entry with stamp := some s.now, address := entry.address.filter (· ≠ "") })
  | .release id => s.change i (fun r => r.id ≠ id) none
  | .releaseByAddress chainId address =>
    if chainId = "" ∨ address = "" then s.setCall i none
    else s.change i (fun r => ¬(r.chainId = chainId ∧ r.address = some address)) none
  | .localDeltas _ _ => s.setCall i none

/-- A save ends, and with it the call that awaits it; a save that fails is swallowed. -/
def endSave (s : LedgerWorld) (save : LedgerSave) (ok : Bool) : LedgerWorld :=
  { s with
    stored := if ok then save.snapshot.map HoldObj.val else s.stored
    saves := s.saves.eraseP fun w => w.call = save.call
    resolved := s.resolved ++ save.reserved.toList }

def step (ttlMs : ℤ) (s : LedgerWorld) : LedgerAct → Option LedgerWorld
  | .clock now => some { s with now := now }
  | .begin i call =>
    match s.calls i with
    | none => some (s.setCall i (some (if s.hydrated then .ready call else .loading call)))
    | some _ => none
  | .fetch i ok =>
    match s.calls i with
    | some (.loading call) =>
      some (s.setCall i (some (.loaded call (if ok then some s.stored else none))))
    | _ => none
  | .hydrate i =>
    match s.calls i with
    | some (.loaded call entries) => some ((s.hydrate entries).setCall i (some (.ready call)))
    | _ => none
  | .run i =>
    match s.calls i with
    | some (.ready call) => some (s.body ttlMs i call)
    | _ => none
  | .saved i ok => (s.saves.find? fun w => w.call = i).map fun save =>
      (s.endSave save ok).setCall i none

end LedgerWorld

end XchainWallet
