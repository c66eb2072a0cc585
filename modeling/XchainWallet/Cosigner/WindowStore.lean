import XchainWallet.Checks.Refuse
import XchainWallet.Decimal.Scaled
import XchainWallet.Keyed.List
import XchainWallet.Uri.UriText

/-!
# The spending window of a co-signer

`VaultWindowStore` holds what a co-signer has authorized in the last hours. Its state is loaded once
from a persistence port, read by `snapshot`, appended to by `record` and written back by `flush`. Each
call that needs the time reads the clock anew; a reading is `none` where it is no finite number.

A state that was stored is a `RawState`: what the checks of `load` see of any value. Times are
rational milliseconds. An amount is kept as `String` shows it.
-/

namespace XchainWallet

open Checks Decimal

/-! ### Amounts -/

/-- The number that a text denotes, after `trim`. -/
def decimal (text : List Char) : Option ℚ := (toScaled (jsTrim text)).map Scaled.toRat

/-- The exact sum of two decimal texts, and `none` where it throws. -/
def addDecimalStrings (a b : List Char) : Option (List Char) := do
  let a ← toScaled (jsTrim a)
  let b ← toScaled (jsTrim b)
  let sum := a.add b
  pure (fromScaled sum.value sum.scale)

/-! ### States -/

/-- What the checks see of a field of an entry: `undefined` and `null` are both missing. -/
inductive RawField
  | missing
  | text (s : List Char)
  | number (shown : List Char)
  | other
  deriving DecidableEq

/-- An entry of a stored state. `t` is `none` where it is no finite number. -/
structure RawEntryFields where
  t : Option ℚ
  action : RawField
  tick : RawField
  amount : RawField
  txid : RawField
  deriving DecidableEq

/-- An element of the stored entries, `none` where it is no plain object. -/
abbrev RawEntry := Option RawEntryFields

/-- A stored object with entries. `lastSeen` is `none` where it is `undefined`, and `some none`
where it is no finite number. -/
structure RawWindow where
  version : Option ℚ
  shownVersion : String
  lastSeen : Option (Option ℚ)
  entries : List RawEntry
  deriving DecidableEq

/-- What a read of the port may give: `null`, an object with an array of entries, or anything
else. -/
inductive RawState
  | null
  | other
  | window (r : RawWindow)
  deriving DecidableEq

structure WindowEntry where
  t : ℚ
  action : Option (List Char)
  tick : Option (List Char)
  amount : Option (List Char)
  txid : Option (List Char)
  deriving DecidableEq

structure WindowState where
  entries : List WindowEntry
  lastSeen : Option ℚ
  deriving DecidableEq

/-- What the policy evaluator reads: a total for each bucket that has one. -/
structure WindowUsage where
  count : ℕ
  perTick : List (List Char × List Char)
  deriving DecidableEq

/-! ### Errors -/

structure WindowError where
  message : String
  code : Option String
  deriving DecidableEq

def windowStateCorruptError (message : String) : WindowError :=
  ⟨s!"co-signer window state is unreadable ({message}); inspect/remove it deliberately to reset the spending window",
    some "WINDOW_STATE_CORRUPT"⟩

def plainWindowError (message : String) : WindowError := ⟨message, none⟩

/-- `_readNow`. -/
def readNow (clock : Option ℚ) : Except WindowError ℚ :=
  orRefuse (clock.filter (0 ≤ ·))
    (plainWindowError "VaultWindowStore: clock must return a non-negative finite timestamp")

/-! ### Entries -/

/-- A field that is missing or a string. -/
def readText (err : String → WindowError) (name : String) : RawField →
    Except WindowError (Option (List Char))
  | .missing => .ok none
  | .text s => .ok (some s)
  | .number _ | .other => .error (err s!"an entry has an invalid {name}")

/-- An amount that is missing or a decimal that is not negative. -/
def readAmount (err : String → WindowError) : RawField → Except WindowError (Option (List Char))
  | .missing => .ok none
  | .text s | .number s =>
    match toScaled (jsTrim s) with
    | none => .error (err "an entry has an invalid amount")
    | some d =>
      if d.value < 0 then .error (err "an entry has a negative amount") else .ok (some s)
  | .other => .error (err "an entry has an invalid amount")

/-- `_validateEntry`, and the entry under a time. -/
def validateEntry (err : String → WindowError) (t : ℚ) (action tick amount txid : RawField) :
    Except WindowError WindowEntry := do
  let action ← readText err "action" action
  let tick ← readText err "tick" tick
  let txid ← readText err "txid" txid
  let amount ← readAmount err amount
  pure ⟨t, action, tick, amount, txid⟩

/-- An element of the stored entries. -/
def decodeEntry (raw : RawEntry) : Except WindowError WindowEntry :=
  match raw.bind fun fields => fields.t.filter (0 ≤ ·), raw with
  | some t, some fields =>
    validateEntry windowStateCorruptError t fields.action fields.tick fields.amount fields.txid
  | _, _ => .error (windowStateCorruptError "an entry has no valid timestamp")

/-- `UNRESOLVED_TICK_BUCKET`. -/
def unresolvedTickBucket : List Char :=
  ['|', 'u', 'n', 'r', 'e', 's', 'o', 'l', 'v', 'e', 'd', '|']

/-- The bucket that an entry counts in. -/
def WindowEntry.bucket (e : WindowEntry) : List Char :=
  match e.tick with
  | none => unresolvedTickBucket
  | some tick => jsUpperText tick

/-! ### Loading -/

/-- `CLOCK_SKEW_TOLERANCE_MS`. -/
def clockSkewToleranceMs : ℚ := 60 * 1000

/-- The stored state as it is read, before it is held against the clock. -/
def decodeState : RawState → Except WindowError WindowState
  | .null => .ok ⟨[], none⟩
  | .other => .error (windowStateCorruptError "entries missing or not an array")
  | .window r => do
    refuseIf (r.version ≠ some 1) (windowStateCorruptError
      s!"unsupported version {r.shownVersion} (expected 1)")
    refuseIf (r.lastSeen.any fun seen => seen.all (· < 0))
      (windowStateCorruptError "lastSeen is not a valid timestamp")
    let entries ← r.entries.mapM decodeEntry
    pure ⟨entries, r.lastSeen.bind id⟩

/-- A time in the future counts as now. -/
def clampTime (now t : ℚ) : ℚ := if now + clockSkewToleranceMs < t then now else t

def WindowEntry.clamp (now : ℚ) (e : WindowEntry) : WindowEntry := { e with t := clampTime now e.t }

/-- The state held against the clock. -/
def WindowState.clamp (now : ℚ) (s : WindowState) : WindowState :=
  ⟨s.entries.map (WindowEntry.clamp now), s.lastSeen.map (clampTime now)⟩

/-- What is noticed of the clock when a state is loaded. -/
def clockWarnings (now : ℚ) (s : WindowState) : List String :=
  let clamped := s.entries.countP fun e => now + clockSkewToleranceMs < e.t
  (if s.lastSeen.any (now + clockSkewToleranceMs < ·) then
    ["window state was last written in the future: the clock moved backward"] else []) ++
  if clamped = 0 then []
  else [s!"{clamped} entry timestamp(s) were in the future and were clamped"]

/-! ### The store -/

/-- A store. `flushing` is the write under way, with the revision that it stores. -/
structure VaultWindowStore where
  hours : ℚ
  hours_pos : 0 < hours
  state : Option WindowState
  dirty : Bool
  revision : ℕ
  flushing : Option (ℕ × WindowState)
  warnings : List String

namespace VaultWindowStore

/-- The constructor. -/
def create (hours : ℚ) : Except WindowError VaultWindowStore :=
  if h : 0 < hours then .ok ⟨hours, h, none, false, 0, none, []⟩
  else .error (plainWindowError "VaultWindowStore: hours must be a positive number")

def markDirty (store : VaultWindowStore) : VaultWindowStore :=
  { store with dirty := true, revision := store.revision + 1 }

/-- `_loadState`: what the port has answered, and a reading of the clock. -/
def loadState (store : VaultWindowStore) (read : Except String RawState) (clock : Option ℚ) :
    VaultWindowStore × Except WindowError Unit :=
  match read with
  | .error message => (store, .error (windowStateCorruptError message))
  | .ok .null => ({ store with state := some ⟨[], none⟩ }, .ok ())
  | .ok raw =>
    match decodeState raw, readNow clock with
    | .error err, _ => (store, .error err)
    | .ok _, .error err => (store, .error err)
    | .ok s, .ok now =>
      let store := { store with
        state := some (s.clamp now), warnings := XchainWallet.clockWarnings now s }
      (if s.clamp now = s then store else store.markDirty, .ok ())

/-- `load`: a state that is there stays. -/
def load (store : VaultWindowStore) (read : Except String RawState) (clock : Option ℚ) :
    VaultWindowStore × Except WindowError Unit :=
  if store.state.isSome then (store, .ok ()) else store.loadState read clock

/-- An entry is in the window. -/
def inWindow (hours now : ℚ) (e : WindowEntry) : Bool := now - hours * 3600 * 1000 ≤ e.t

/-- `_prune` on a state, at a time. -/
def pruneAt (store : VaultWindowStore) (s : WindowState) (now : ℚ) : VaultWindowStore :=
  let entries := s.entries.filter (inWindow store.hours now)
  if entries.length = s.entries.length then store
  else { store with state := some { s with entries := entries } }.markDirty

def notLoaded : WindowError :=
  plainWindowError "VaultWindowStore: call await load() before snapshot()/record()"

/-- One entry more in the totals. -/
def addAmount (perTick : List (List Char × List Char)) (e : WindowEntry) :
    Option (List (List Char × List Char)) :=
  match e.amount with
  | none => some perTick
  | some amount => do
    let used := ((Keyed.find Prod.fst e.bucket perTick).map Prod.snd).getD ['0']
    let total ← addDecimalStrings used amount
    pure (Keyed.upsert Prod.fst (e.bucket, total) perTick)

/-- The usage of some entries. -/
def usageOf (entries : List WindowEntry) : Except WindowError WindowUsage :=
  match entries.foldlM addAmount [] with
  | none => .error (plainWindowError "addDecimalStrings: invalid decimal")
  | some perTick => .ok ⟨entries.length, perTick⟩

/-- `snapshot`: drop what has left the window, and add up the rest. -/
def snapshot (store : VaultWindowStore) (clock : Option ℚ) :
    VaultWindowStore × Except WindowError WindowUsage :=
  match store.state, readNow clock with
  | none, _ => (store, .error notLoaded)
  | some _, .error err => (store, .error err)
  | some s, .ok now =>
    let store := store.pruneAt s now
    (store, usageOf ((store.state.map WindowState.entries).getD []))

/-- `record`: drop what has left the window, and append an entry under a second reading. -/
def record (store : VaultWindowStore) (action tick amount txid : RawField)
    (clock clock' : Option ℚ) : VaultWindowStore × Except WindowError Unit :=
  match store.state with
  | none => (store, .error notLoaded)
  | some s =>
    match validateEntry plainWindowError 0 action tick amount txid, readNow clock with
    | .error err, _ => (store, .error err)
    | .ok _, .error err => (store, .error err)
    | .ok e, .ok now =>
      let store := store.pruneAt s now
      match readNow clock', store.state with
      | .error err, _ => (store, .error err)
      | .ok _, none => (store, .error notLoaded)
      | .ok now', some s =>
        let appended : WindowState :=
          ⟨s.entries ++ [{ e with t := now' }], some (max now' (s.lastSeen.getD now'))⟩
        ({ store with state := some appended }.markDirty, .ok ())

/-- A turn of the loop of `flush`: whether it has come to its end, or waits for a write. -/
def flushTurn (store : VaultWindowStore) (clock : Option ℚ) :
    VaultWindowStore × Except WindowError Bool :=
  match store.state, store.flushing with
  | none, _ => (store, .ok true)
  | some _, some _ => (store, .ok (!store.dirty))
  | some s, none =>
    if store.dirty = false then (store, .ok true)
    else
      match s.lastSeen.elim (readNow clock) .ok with
      | .error err => (store, .error err)
      | .ok lastSeen =>
        ({ store with flushing := some (store.revision, { s with lastSeen := some lastSeen }) },
          .ok false)

/-- The write has settled. -/
def written (store : VaultWindowStore) (revision : ℕ) (ok : Bool) : VaultWindowStore :=
  { store with
    dirty := if ok ∧ store.revision = revision then false else store.dirty, flushing := none }

end VaultWindowStore

/-! ### The port -/

def fieldOf : Option (List Char) → RawField
  | none => .missing
  | some s => .text s

/-- The object that is written for a state. -/
def WindowState.toRaw (s : WindowState) : RawState :=
  .window ⟨some 1, "1", s.lastSeen.map some, s.entries.map fun e =>
    some ⟨some e.t, fieldOf e.action, fieldOf e.tick, fieldOf e.amount, fieldOf e.txid⟩⟩

/-- A store over its port. `ledger` has every entry that was loaded or recorded, `left` those that
have left the window with the reading of the clock at which they had. -/
structure WindowWorld where
  persisted : RawState
  store : VaultWindowStore
  ledger : List WindowEntry
  left : List (WindowEntry × ℚ)

inductive WindowAct
  | load (fault : Option String) (clock : Option ℚ)
  | snapshot (clock : Option ℚ)
  | record (action tick amount txid : RawField) (clock clock' : Option ℚ)
  | flush (clock : Option ℚ)
  | written (ok stored : Bool)
  | reopen (hours : ℚ)

namespace WindowWorld

/-- The entries in memory. -/
def entries (w : WindowWorld) : List WindowEntry :=
  (w.store.state.map WindowState.entries).getD []

/-- The entries that a reading of the clock drops. -/
def dropped (w : WindowWorld) (clock : Option ℚ) : List (WindowEntry × ℚ) :=
  match clock.filter (0 ≤ ·) with
  | none => []
  | some now =>
    (w.entries.filter fun e => !VaultWindowStore.inWindow w.store.hours now e).map (·, now)

/-- One step. A write that settles without an error has been stored; a new store comes once the
writes of the old one have settled. -/
def step (w : WindowWorld) : WindowAct → Option WindowWorld
  | .load fault clock =>
    if w.store.state.isSome then some w
    else
      let read := fault.elim (.ok w.persisted) .error
      let w' := { w with store := (w.store.load read clock).1 }
      some { w' with ledger := w'.entries, left := [] }
  | .snapshot clock =>
    some { w with
      store := (w.store.snapshot clock).1,
      left := w.left ++ if w.store.state.isSome then w.dropped clock else [] }
  | .record action tick amount txid clock clock' =>
    let valid := validateEntry plainWindowError 0 action tick amount txid
    let w' := { w with
      store := (w.store.record action tick amount txid clock clock').1,
      left := w.left ++ if w.store.state.isSome ∧ valid.isOk then w.dropped clock else [] }
    match (w.store.record action tick amount txid clock clock').2 with
    | .error _ => some w'
    | .ok () => some { w' with ledger := w.ledger ++ w'.entries.getLast?.toList }
  | .flush clock => some { w with store := (w.store.flushTurn clock).1 }
  | .written ok stored =>
    match w.store.flushing with
    | none => none
    | some (revision, s) =>
      some { w with
        persisted := if ok ∨ stored then s.toRaw else w.persisted,
        store := w.store.written revision ok }
  | .reopen hours =>
    match w.store.flushing, VaultWindowStore.create hours with
    | none, .ok store => some { w with store := store, ledger := [], left := [] }
    | _, _ => none

end WindowWorld

end XchainWallet
