import XchainWallet.Js.Text

/-!
# The idle lock of a closed popup

The foreground arms the record, disarms it and reports activity. Its signals may arrive late and
in any order, and storage may refuse any write. From an arm on, a disarm that was issued before it
changes nothing, a later arm does not start the idle time again, and what storage refused is read
from memory. So without activity the deadline stays where it is (`deadline_kept`).
-/

namespace XchainWallet

def CLOCK_ROLLBACK_TOLERANCE_MS : ℚ := 5 * 60 * 1000

structure AutoLockState where
  armed : Bool
  idleMs : ℚ
  lastActivity : ℚ
  armedAt : Option ℚ := none

/-- A signal that reaches the worker at `now`, and what storage does then. -/
structure AutoLockSignal where
  armed : Bool
  idleMs : JsNumber
  activity : Bool
  issuedAt : JsNumber
  now : ℚ
  unread : Bool
  refused : Bool

def shouldAutoLock (state : Option AutoLockState) (now : ℚ) : Bool :=
  state.any fun s => s.armed ∧ 0 < s.idleMs ∧ 0 < s.lastActivity ∧
    -- a stamp far ahead means that the clock was set back
    (CLOCK_ROLLBACK_TOLERANCE_MS < s.lastActivity - now ∨ s.idleMs ≤ now - s.lastActivity)

/-- What storage holds, and the state that it last refused to take. -/
structure AutoLockStore where
  stored : Option AutoLockState := none
  unsavedState : Option (Option AutoLockState) := none

namespace AutoLockStore

/-- `none` where storage refuses the read. -/
def readAutoLockState (s : AutoLockStore) (unread : Bool) : Option (Option AutoLockState) :=
  s.unsavedState.or (if unread then none else some s.stored)

def writeAutoLockState (s : AutoLockStore) (next : AutoLockState) (refused : Bool) : AutoLockStore :=
  if refused then { s with unsavedState := some (some next) } else { stored := some next }

def idleOf (signal : AutoLockSignal) : ℚ := (signal.idleMs.filter fun ms => 0 < ms).getD 0

/-- The new state, and whether an arm was saved. -/
def applyAutoLockSignal (s : AutoLockStore) (signal : AutoLockSignal) : AutoLockStore × Bool :=
  -- an unreadable record reads as absent here
  let current := ((s.readAutoLockState signal.unread).join).filter AutoLockState.armed
  let priorArmedAt := current.bind AutoLockState.armedAt
  if signal.armed = false then
    if signal.issuedAt.any fun i => priorArmedAt.any fun t => i < t then (s, true)
    else (s.writeAutoLockState ⟨false, 0, signal.now, none⟩ signal.refused, true)
  else if signal.activity ∧ current = none then (s, true)
  else
    let kept := if signal.activity then none else current.filter fun c => 0 < c.lastActivity
    let issued := if signal.activity then none else signal.issuedAt
    let next : AutoLockState :=
      { armed := true
        idleMs := idleOf signal
        lastActivity := (kept.map AutoLockState.lastActivity).getD signal.now
        armedAt := issued.merge max priorArmedAt }
    (s.writeAutoLockState next signal.refused, !signal.refused || signal.activity)

def receive (s : AutoLockStore) (signal : AutoLockSignal) : AutoLockStore :=
  (s.applyAutoLockSignal signal).1

/-- What this worker reads where storage answers. -/
def held (s : AutoLockStore) : Option AutoLockState := s.unsavedState.getD s.stored

/-- The record is armed since `t` at least, with its last activity at `last`. -/
def Deadline (s : AutoLockStore) (last t idleMs : ℚ) : Prop :=
  ∃ c, s.held = some c ∧ c.armed = true ∧ c.lastActivity = last ∧ c.idleMs = idleMs ∧
    ∃ armedAt, c.armedAt = some armedAt ∧ t ≤ armedAt

/-- The signal reports no activity, and a disarm was issued before `t`. -/
structure Idle (t : ℚ) (signal : AutoLockSignal) : Prop where
  read : signal.unread = false
  arm : signal.armed = true → signal.activity = false
  disarm : signal.armed = false → ∃ i, signal.issuedAt = some i ∧ i < t

/-- The idle time after the signal. -/
def idleAfter (idleMs : ℚ) (signal : AutoLockSignal) : ℚ :=
  if signal.armed then idleOf signal else idleMs

variable {s : AutoLockStore} {last t idleMs : ℚ}

theorem held_write (next : AutoLockState) (refused : Bool) :
    (s.writeAutoLockState next refused).held = some next := by
  rw [writeAutoLockState]
  split <;> rfl

theorem Deadline.receive {signal : AutoLockSignal} (h : s.Deadline last t idleMs) (hlast : 0 < last)
    (hidle : Idle t signal) : (s.receive signal).Deadline last t (idleAfter idleMs signal) := by
  obtain ⟨c, hheld, harmed, rfl, rfl, armedAt, hat, ht⟩ := h
  have hread : s.readAutoLockState signal.unread = some (some c) := by
    rw [readAutoLockState, hidle.read, ← hheld, held]
    cases s.unsavedState <;> rfl
  simp only [AutoLockStore.receive, applyAutoLockSignal, hread, Option.join_some,
    Option.filter_some, harmed, if_true, Option.bind_some, hat, idleAfter]
  cases hsignal : signal.armed with
  | false =>
    -- the disarm is older than the arm on record
    obtain ⟨i, hi, hit⟩ := hidle.disarm hsignal
    have hold : i < armedAt := lt_of_lt_of_le hit ht
    simp only [hi, Option.any_some, hold, decide_true, if_true]
    exact ⟨c, hheld, harmed, rfl, rfl, armedAt, hat, ht⟩
  | true =>
    -- the arm keeps the activity on record, and moves its own stamp forward only
    simp only [hidle.arm hsignal]
    refine ⟨_, held_write _ _, rfl, by simp [hlast], rfl, ?_⟩
    cases signal.issuedAt with
    | none => exact ⟨armedAt, rfl, ht⟩
    | some i => exact ⟨max i armedAt, rfl, le_trans ht (le_max_right _ _)⟩

/-- **Only activity puts the idle lock off.** From an arm on, whatever signals arrive, in any order
and whether storage takes them or not, the lock is due once the idle time of the last arm has
passed since the last activity. -/
theorem deadline_kept {signals : List AutoLockSignal} (h : s.Deadline last t idleMs)
    (hlast : 0 < last) (hidle : ∀ signal ∈ signals, Idle t signal) (now : ℚ) :
    let idle := signals.foldl idleAfter idleMs
    shouldAutoLock (signals.foldl receive s).held now = true ↔
      0 < idle ∧ (CLOCK_ROLLBACK_TOLERANCE_MS < last - now ∨ idle ≤ now - last) := by
  induction signals generalizing s idleMs with
  | nil =>
    obtain ⟨c, hheld, harmed, rfl, rfl, -⟩ := h
    simp [shouldAutoLock, hheld, harmed, hlast]
  | cons signal signals ih =>
    obtain ⟨hfirst, hrest⟩ := List.forall_mem_cons.mp hidle
    exact ih (h.receive hlast hfirst) hrest

/-- A disarm arrives late, and storage refuses a shorter idle time. -/
theorem deadline_kept_late :
    let s : AutoLockStore := { stored := some ⟨true, 60000, 1000, some 10⟩ }
    let late : AutoLockSignal := ⟨false, none, false, some 9, 2000, false, false⟩
    let shorter : AutoLockSignal := ⟨true, some 30000, false, some 20, 3000, false, true⟩
    shouldAutoLock ([late, shorter].foldl receive s).held 31000 = true := by
  intro s late shorter
  have hs : s.Deadline 1000 10 60000 := ⟨_, rfl, rfl, rfl, rfl, 10, rfl, le_rfl⟩
  have hidle : ∀ signal ∈ [late, shorter], Idle 10 signal := by
    refine List.forall_mem_cons.mpr ⟨⟨rfl, nofun, fun _ => ⟨9, rfl, by norm_num⟩⟩, ?_⟩
    exact List.forall_mem_singleton.mpr ⟨rfl, fun _ => rfl, nofun⟩
  refine (deadline_kept hs (by norm_num) hidle _).mpr ?_
  norm_num [late, shorter, idleAfter, idleOf, Option.filter_some]

end AutoLockStore

end XchainWallet
