import XchainWallet.Queue.Journal
import XchainWallet.Transition.Run

/-!
# The journal flush as a transition system

A `FlushWorld` is one process with its live journal, the stored journal, and the vault with its
copy in memory and its copy on disk. `flushOwedSettlements` runs as a `Pass`: it copies the
journal, replays one record after the other, saves the vault and retires what it has settled. It
awaits at every read and every write of the vault and at the save, and between any two of them
the environment may record a write, run another pass, read the stored journal, lock the vault or
end the process; a `fault` is a vault that refuses. The vault takes a write as a whole: one that
its autosave does not bring to disk is rolled back and refused.

Saves of the journal are under way until they land or are refused, in any order.
-/

namespace XchainWallet

open Function

/-! ### A pass -/

/-- Where a pass awaits. -/
inductive PassPc
  | reading (owed : OwedObj) (stages : List Stage)
  | writing (owed : OwedObj) (rest : List Stage) (settling : Settling)
  | saving
  | retiring

/-- A pass of `flushOwedSettlements`: the records it has still to replay, and those it has
settled. `startedAt` is the first reference that was free when it began. -/
structure Pass where
  startedAt : ℕ
  todo : List OwedObj
  settled : List OwedObj := []
  pc : PassPc

namespace Pass

/-- The head of the loop over the records; a pass that has settled none ends after it. -/
def next (startedAt : ℕ) (settled : List OwedObj) : List OwedObj → Option Pass
  | [] => if settled.isEmpty then none else some { startedAt, todo := [], settled, pc := .saving }
  | owed :: todo => some { startedAt, todo, settled, pc := .reading owed owed.val.stages }

/-- The verdict on one vault access of the record. -/
def judge (pass : Pass) (owed : OwedObj) (rest : List Stage) (verdict : Verdict) : Option Pass :=
  if verdict = .unreachable then next pass.startedAt pass.settled pass.todo
  else if owed.val.goesOn verdict ∧ rest ≠ [] then some { pass with pc := .reading owed rest }
  else next pass.startedAt (pass.settled ++ [owed]) pass.todo

end Pass

/-! ### The world -/

/-- The stored `PendingTx` records, by id. -/
abbrev PendingTxs := String → Option PendingTx

/-- One process over one vault and one stored journal. -/
structure FlushWorld where
  memory : PendingTxs
  disk : PendingTxs
  autoSave : Bool
  owed : List OwedObj
  loaded : Bool
  journal : List OwedRecord
  saves : List (List OwedRecord)
  nextRef : ℕ
  passes : ℕ → Option Pass

/-- What can happen. `pass` is the index of a pass, and `now` a reading of the clock. -/
inductive FlushAct
  | load
  | record (record : OwedRecord)
  | journalLands (save : ℕ)
  | journalRefused (save : ℕ)
  | begin (pass : ℕ)
  | read (pass : ℕ) (now : String) (fault : Bool)
  | write (pass : ℕ) (fault : Bool)
  | save (pass : ℕ) (fault : Bool)
  | retire (pass : ℕ)
  | lock
  | crash

namespace FlushWorld

/-- The pass goes on, or ends. -/
def setPass (s : FlushWorld) (i : ℕ) (pass : Option Pass) : FlushWorld :=
  { s with passes := update s.passes i pass }

/-- `persistOwedSettlements()`, which a store that is not loaded skips. -/
def persistOwed (s : FlushWorld) : FlushWorld :=
  if s.loaded then { s with saves := s.saves ++ [s.owed.map OwedObj.val] } else s

/-- The journal half of a load that has read the key. -/
def load (s : FlushWorld) : Option FlushWorld :=
  if s.loaded then none
  else
    let merged := mergeOwedSettlements [] s.journal [] s.nextRef s.owed
    let s' := { s with owed := merged.1, nextRef := merged.2, loaded := true }
    some (if s.owed.isEmpty then s' else s'.persistOwed)

/-- A settlement writer records a write that the vault has refused. -/
def recordOwed (s : FlushWorld) (record : OwedRecord) : FlushWorld :=
  let owed := recordOneOwedSettlement s.nextRef s.owed record
  if owed = s.owed then s
  else { s with owed := owed, nextRef := s.nextRef + 1 }.persistOwed

/-- `flushOwedSettlements(vault)` up to its first `await`. -/
def begin (s : FlushWorld) (i : ℕ) : Option FlushWorld :=
  if s.passes i = none ∧ s.owed ≠ [] then some (s.setPass i (Pass.next s.nextRef [] s.owed))
  else none

/-- The vault answers the read of a stage. -/
def read (s : FlushWorld) (i : ℕ) (now : String) (fault : Bool) : Option FlushWorld :=
  match s.passes i with
  | some pass =>
    match pass.pc with
    | .reading owed (stage :: rest) =>
      if fault then some (s.setPass i (pass.judge owed rest .unreachable))
      else
        match stage.settle now (s.memory owed.pendingTxId) with
        | .closed => some (s.setPass i (pass.judge owed rest .closed))
        | .done => some (s.setPass i (pass.judge owed rest .settled))
        | settling => some (s.setPass i (some { pass with pc := .writing owed rest settling }))
    | _ => none
  | none => none

/-- The vault takes a write, or refuses it. -/
def write (s : FlushWorld) (i : ℕ) (fault : Bool) : Option FlushWorld :=
  match s.passes i with
  | some pass =>
    match pass.pc with
    | .writing owed rest settling =>
      if fault then some (s.setPass i (pass.judge owed rest .unreachable))
      else
        let existing := s.memory owed.pendingTxId
        let memory := update s.memory owed.pendingTxId (settling.result existing)
        let disk := if s.autoSave then memory else s.disk
        some ({ s with memory, disk }.setPass i (pass.judge owed rest .settled))
    | _ => none
  | none => none

/-- `await vault.save()`; a refused save ends the pass. -/
def save (s : FlushWorld) (i : ℕ) (fault : Bool) : Option FlushWorld :=
  match s.passes i with
  | some pass =>
    match pass.pc with
    | .saving =>
      if fault then some (s.setPass i none)
      else some ({ s with disk := s.memory }.setPass i (some { pass with pc := .retiring }))
    | _ => none
  | none => none

/-- The pass retires what it has settled, by identity. -/
def retire (s : FlushWorld) (i : ℕ) : Option FlushWorld :=
  match s.passes i with
  | some pass =>
    match pass.pc with
    | .retiring =>
      let owed := s.owed.filter fun o => ∀ x ∈ pass.settled, x.ref ≠ o.ref
      some (({ s with owed }.setPass i none).persistOwed)
    | _ => none
  | none => none

/-- A pass that has saved its vault retires even if the vault is locked meanwhile. -/
def Retires (pass : Pass) : Prop := pass.pc matches .retiring

instance (pass : Pass) : Decidable (Retires pass) :=
  inferInstanceAs (Decidable (_ = _))

/-- A lock drops what the vault has not saved, and every other pass gets refusals to its end. -/
def lock (s : FlushWorld) : FlushWorld :=
  { s with memory := s.disk, passes := fun i => (s.passes i).filter fun pass => Retires pass }

/-- The process ends; the next one opens the vault and has read no journal. -/
def crash (s : FlushWorld) : FlushWorld :=
  { s with memory := s.disk, owed := [], loaded := false, saves := [], passes := fun _ => none }

/-- One step. -/
def step (s : FlushWorld) : FlushAct → Option FlushWorld
  | .load => s.load
  | .record record => some (s.recordOwed record)
  | .journalLands k =>
    s.saves[k]?.map fun journal => { s with journal, saves := s.saves.eraseIdx k }
  | .journalRefused k => some { s with saves := s.saves.eraseIdx k }
  | .begin i => s.begin i
  | .read i now fault => s.read i now fault
  | .write i fault => s.write i fault
  | .save i fault => s.save i fault
  | .retire i => s.retire i
  | .lock => some s.lock
  | .crash => some s.crash

/-- A process that has just started, over a stored journal and a stored vault. -/
def boot (autoSave : Bool) (journal : List OwedRecord) (vault : PendingTxs) : FlushWorld :=
  { memory := vault, disk := vault, autoSave, owed := [], loaded := false, journal, saves := [],
    nextRef := 0, passes := fun _ => none }

/-- What is left to replay: the live journal, or the stored one that is still to be read. -/
def due (s : FlushWorld) : List OwedRecord :=
  if s.loaded then s.owed.map OwedObj.val else restoredJournal s.journal

end FlushWorld

/-! ### One complete flush -/

/-- One flush that nothing disturbs: the replay of every record of the journal, each at its own
reading of the clock. -/
def completeFlush (clock : OwedRecord → String) (journal : List OwedRecord) (vault : PendingTxs) :
    PendingTxs :=
  journal.foldl (fun v owed =>
    update v owed.pendingTxId (owed.replay (clock owed) (v owed.pendingTxId))) vault

section CompleteFlush

variable {clock : OwedRecord → String} {journal : List OwedRecord} {vault : PendingTxs}

theorem completeFlush_of_not_named {p : String} (h : ∀ owed ∈ journal, owed.pendingTxId ≠ p) :
    completeFlush clock journal vault p = vault p := by
  induction journal generalizing vault with
  | nil => rfl
  | cons owed journal ih =>
    rw [completeFlush, List.foldl_cons, ← completeFlush,
      ih fun o ho => h o (.tail _ ho),
      update_of_ne (h owed (.head _)).symm]

/-- With one record for each `PendingTx` each record meets the vault as it was. -/
theorem completeFlush_of_mem (hdistinct : Keyed.Distinct OwedRecord.pendingTxId journal)
    {owed : OwedRecord} (h : owed ∈ journal) :
    completeFlush clock journal vault owed.pendingTxId =
      owed.replay (clock owed) (vault owed.pendingTxId) := by
  induction journal generalizing vault with
  | nil => cases h
  | cons first journal ih =>
    obtain ⟨hne, hdistinct⟩ := hdistinct.cons
    rw [completeFlush, List.foldl_cons, ← completeFlush]
    rcases List.mem_cons.mp h with rfl | h
    · rw [completeFlush_of_not_named hne, update_self]
    · rw [ih hdistinct h, update_of_ne (hne owed h)]

end CompleteFlush

end XchainWallet
