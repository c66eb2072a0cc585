import Mathlib.Data.List.Nodup
import Mathlib.Data.Rat.Floor
import XchainWallet.Transition.Run

/-!
# The label-sync scheduler

`createLabelSyncScheduler` collapses a burst of label edits into one publish per unlock window. Its
state is the closure of the source. A call takes the readings of the clock that it makes, in order.
`fire` stops at its one `await`: `fire` here is the part before `isEnabled` and `resume` the part
after it, so other calls come between the two.
-/

namespace XchainWallet

/-! ### Options and batches -/

def LABEL_SYNC_AUTO_DEBOUNCE_MS : ℕ := 45000

def LABEL_SYNC_AUTO_MAX_WAIT_MS : ℕ := 5 * 60000

/-- The keys that `noteLabelChange` refuses. -/
def SECRET_KEYS : List String :=
  ["password", "seed", "mnemonic", "bip39Passphrase", "privateKey", "wif"]

/-- An option in milliseconds, rounded down, or its default where it is absent or negative. -/
def waitOption (value : Option ℚ) (fallback : ℕ) : ℕ :=
  match value with
  | some ms => if 0 ≤ ms then ⌊ms⌋.toNat else fallback
  | none => fallback

structure LabelSyncOpts where
  debounce : Option ℚ
  maxWait : Option ℚ
  startUnlocked : Bool

def LabelSyncOpts.debounceMs (opts : LabelSyncOpts) : ℕ :=
  waitOption opts.debounce LABEL_SYNC_AUTO_DEBOUNCE_MS

def LabelSyncOpts.maxWaitMs (opts : LabelSyncOpts) : ℕ :=
  waitOption opts.maxWait LABEL_SYNC_AUTO_MAX_WAIT_MS

inductive PublishReason where
  | debounce
  | maxWait
  | flush
  deriving DecidableEq

structure LabelSyncBatch where
  changeCount : ℕ
  walletIds : List String
  firstChangeAt : ℤ
  dueAt : ℤ
  reason : PublishReason

/-- What a caller of `noteLabelChange` passes: the keys of the object and its wallet id. -/
structure LabelChange where
  keys : List String
  walletId : Option String

structure NoteResult where
  scheduled : Bool
  reason : String
  dueAt : Option ℤ

/-! ### The closure -/

structure LabelSyncScheduler where
  windowId : ℕ
  unlocked : Bool
  attemptWindowId : Option ℕ
  publishWindowId : Option ℕ
  changeCount : ℕ
  firstChangeAt : Option ℤ
  dirtyWallets : List String
  timer : Option PublishReason
  dueAt : Option ℤ
  disposed : Bool

def createLabelSyncScheduler (opts : LabelSyncOpts) : LabelSyncScheduler :=
  ⟨1, opts.startUnlocked, none, none, 0, none, [], none, none, false⟩

namespace LabelSyncScheduler

variable (s : LabelSyncScheduler)

def disarm : LabelSyncScheduler := { s with timer := none, dueAt := none }

/-- The next deadline: a quiet period from now, and never past the ceiling. -/
def nextDueAt (opts : LabelSyncOpts) (now : ℤ) : ℤ :=
  min (now + opts.debounceMs) (s.firstChangeAt.getD now + opts.maxWaitMs)

def arm (opts : LabelSyncOpts) (now : ℤ) : LabelSyncScheduler :=
  if s.disposed || !s.unlocked then s
  else if s.changeCount = 0 then s
  else if s.attemptWindowId = some s.windowId then s
  else
    { s.disarm with
      timer := some (if s.nextDueAt opts now < now + opts.debounceMs then .maxWait else .debounce),
      dueAt := some (s.nextDueAt opts now) }

def reset : LabelSyncScheduler :=
  { s with changeCount := 0, firstChangeAt := none, dirtyWallets := [] }.disarm

/-- `fire` up to its `await`: whether `isEnabled` is called. -/
def fire : LabelSyncScheduler × Bool :=
  let s := { s with timer := none, dueAt := none }
  (s, !s.disposed && s.unlocked && s.changeCount ≠ 0 && s.attemptWindowId ≠ some s.windowId)

/-- `fire` after its `await`, with the answer of `isEnabled`, `none` where it threw. Nothing that
was tested before the `await` is tested again. -/
def resume (reason : PublishReason) (enabled : Option Bool) (now : ℤ) :
    LabelSyncScheduler × Option LabelSyncBatch :=
  match enabled with
  | none => (s, none)
  | some false => (s.reset, none)
  | some true =>
    ({ s with attemptWindowId := some s.windowId },
      some ⟨s.changeCount, s.dirtyWallets, s.firstChangeAt.getD now, now, reason⟩)

/-- The wallet ids of the edits, each once. -/
def addWallet : Option String → List String
  | some id => if id = "" ∨ id ∈ s.dirtyWallets then s.dirtyWallets else s.dirtyWallets ++ [id]
  | none => s.dirtyWallets

/-- The edit in the books, before anything is armed for it. -/
def noted (walletId : Option String) (now : ℤ) : LabelSyncScheduler :=
  { s with
    changeCount := s.changeCount + 1,
    firstChangeAt := some (s.firstChangeAt.getD now),
    dirtyWallets := s.addWallet walletId }

/-- One label or contact write, at the clock `now` and, where it arms the timer, at `armNow`. -/
def noteLabelChange (opts : LabelSyncOpts) (change : LabelChange) (now armNow : ℤ) :
    Except String (LabelSyncScheduler × NoteResult) :=
  match SECRET_KEYS.find? (· ∈ change.keys) with
  | some key => .error ("labelSyncScheduler.noteLabelChange: \"" ++ key ++
      "\" must never be passed; the scheduler never holds secrets")
  | none =>
    if s.disposed then .ok (s, ⟨false, "disposed", none⟩)
    else
      let noted := s.noted change.walletId now
      if !noted.unlocked then .ok (noted, ⟨false, "locked", none⟩)
      else if noted.attemptWindowId = some noted.windowId then
        .ok (noted, ⟨false, "window-consumed", none⟩)
      else
        let armed := noted.arm opts armNow
        .ok (armed, ⟨armed.timer.isSome, "armed", armed.dueAt⟩)

/-- The scheduler in its next window, with nothing armed for it yet. -/
def opened : LabelSyncScheduler := { s with windowId := s.windowId + 1, unlocked := true }

def beginUnlockWindow (opts : LabelSyncOpts) (now : ℤ) : LabelSyncScheduler :=
  if s.disposed then s else s.opened.arm opts now

def endUnlockWindow : LabelSyncScheduler := { s with unlocked := false }.disarm

def flush : LabelSyncScheduler × Bool := s.disarm.fire

def markPublished : LabelSyncScheduler :=
  if s.disposed then s
  else { s with publishWindowId := some s.windowId, attemptWindowId := some s.windowId }.reset

def clearPending : LabelSyncScheduler := s.reset

def dispose : LabelSyncScheduler := { s with disposed := true }.disarm

end LabelSyncScheduler

/-! ### The scheduler among its callers -/

/-- A call of `isEnabled` under way: why it was made, and what it read of the setting. -/
structure EnabledCheck where
  reason : PublishReason
  answer : Option Bool

/-- A publish that was requested, with how the wallet stood then. -/
structure PublishRequest where
  windowId : ℕ
  unlocked : Bool
  enabled : Bool
  batch : LabelSyncBatch

/-- A scheduler, the opt-in setting, the checks under way, and for the record the requests and the
times of the edits that no publish and no drop has settled. -/
structure LabelSyncWorld where
  opts : LabelSyncOpts
  scheduler : LabelSyncScheduler
  enabled : Bool
  checks : List EnabledCheck
  requests : List PublishRequest
  unpublished : List ℤ

/-- What happens next. A check under way is named by its place in the list. -/
inductive LabelSyncAct where
  | noteLabelChange (change : LabelChange) (now armNow : ℤ)
  | beginUnlockWindow (now : ℤ)
  | endUnlockWindow
  | timerFires
  | flush
  | readsSetting (i : ℕ)
  | answered (i : ℕ) (now : ℤ)
  | threw (i : ℕ)
  | setEnabled (enabled : Bool)
  | markPublished
  | clearPending
  | dispose

namespace LabelSyncWorld

variable (w : LabelSyncWorld)

def fresh (opts : LabelSyncOpts) (enabled : Bool) : LabelSyncWorld :=
  ⟨opts, createLabelSyncScheduler opts, enabled, [], [], []⟩

/-- The world after the part of `fire` before the `await`. -/
def fired (reason : PublishReason) (fire : LabelSyncScheduler × Bool) : LabelSyncWorld :=
  { w with
    scheduler := fire.1,
    checks := if fire.2 then w.checks ++ [⟨reason, none⟩] else w.checks }

/-- The world after the part of `fire` behind the `await`. -/
def resumed (i : ℕ) (check : EnabledCheck) (enabled : Option Bool) (now : ℤ) : LabelSyncWorld :=
  let next := w.scheduler.resume check.reason enabled now
  { w with
    scheduler := next.1,
    checks := w.checks.eraseIdx i,
    requests := w.requests ++ next.2.toList.map fun batch =>
      ⟨w.scheduler.windowId, w.scheduler.unlocked, w.enabled, batch⟩,
    unpublished := if enabled = some false then [] else w.unpublished }

def step : LabelSyncWorld → LabelSyncAct → Option LabelSyncWorld
  | w, .noteLabelChange change now armNow =>
    match w.scheduler.noteLabelChange w.opts change now armNow with
    | .error _ => some w
    | .ok (s, _) => some { w with
        scheduler := s,
        unpublished := if w.scheduler.disposed then w.unpublished else w.unpublished ++ [now] }
  | w, .beginUnlockWindow now =>
    some { w with scheduler := w.scheduler.beginUnlockWindow w.opts now }
  | w, .endUnlockWindow => some { w with scheduler := w.scheduler.endUnlockWindow }
  | w, .timerFires => w.scheduler.timer.map fun reason => w.fired reason w.scheduler.fire
  | w, .flush => some (w.fired .flush w.scheduler.flush)
  | w, .readsSetting i => do
    let check ← w.checks[i]?
    if check.answer.isSome then none
    else some { w with checks := w.checks.set i { check with answer := some w.enabled } }
  | w, .answered i now => do
    let check ← w.checks[i]?
    let enabled ← check.answer
    some (w.resumed i check (some enabled) now)
  | w, .threw i => do
    let check ← w.checks[i]?
    some (w.resumed i check none 0)
  | w, .setEnabled enabled => some { w with enabled := enabled }
  | w, .markPublished =>
    some { w with
      scheduler := w.scheduler.markPublished,
      unpublished := if w.scheduler.disposed then w.unpublished else [] }
  | w, .clearPending => some { w with scheduler := w.scheduler.clearPending, unpublished := [] }
  | w, .dispose => some { w with scheduler := w.scheduler.dispose }

/-- **What the scheduler promises.** One request per unlock window, raised while the wallet is
unlocked and the sync enabled, and a due time within the maximum wait of the first edit that is not
published. -/
structure Kept : Prop where
  once : (w.requests.map PublishRequest.windowId).Nodup
  allowed : ∀ r ∈ w.requests, r.unlocked = true ∧ r.enabled = true
  due : ∀ dueAt, w.scheduler.dueAt = some dueAt →
    ∃ first, w.unpublished.head? = some first ∧ dueAt ≤ first + w.opts.maxWaitMs

/-- No check that answers that the sync is enabled was overtaken: its window is still open and not
consumed, and the setting has not changed since. -/
def NotOvertaken : LabelSyncAct → Prop
  | .answered i _ => ∀ check ∈ w.checks[i]?, check.answer = some true →
      w.scheduler.unlocked = true ∧ w.scheduler.attemptWindowId ≠ some w.scheduler.windowId ∧
        w.enabled = true
  | _ => True

instance (w : LabelSyncWorld) (a : LabelSyncAct) : Decidable (w.NotOvertaken a) := by
  cases a <;> unfold NotOvertaken <;> infer_instance

end LabelSyncWorld

end XchainWallet
