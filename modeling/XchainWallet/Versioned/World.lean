import Mathlib.Data.List.Basic

/-!
# One record that is edited through copies of a versioned store

A store holds a record under a version, which every write makes anew. Handles keep a copy of the
record and the version that they have last seen, and write with a compare-and-swap on it. A handle
belongs to a context; a change of the record holds the lock of its context from its read to its end,
so the changes of one context run one at a time. Contexts that have the wide lock take it as well.

A change is a `Task`: what is left of it, with a question to the outside or a write at each of its
`await`s. The handle has other writes too. These leave the record alone; one that meets a conflict
loads the stored document anew, and may be tried again on top of it.
-/

namespace Versioned

/-- What is left of a change of a record. -/
inductive Task (ρ ε Q A : Type)
  | fail (err : ε)
  | done (result : ρ)
  | ask (question : Q) (k : A → Task ρ ε Q A)
  | put (next : ρ) (k : Task ρ ε Q A)

variable {ρ κ ε Q A : Type}

namespace Task

/-- Checks, and the task behind them. -/
def checked : Except ε (Task ρ ε Q A) → Task ρ ε Q A
  | .ok task => task
  | .error err => fail err

/-- What the task is allowed to do when the record is `base`: each write is an edit of the record
that is written over, and the result is the record as it then stands. -/
def Sound (E : ρ → ρ → Prop) (Post : ρ → Prop) : Option ρ → Task ρ ε Q A → Prop
  | _, fail _ => True
  | base, done result => base = some result ∧ Post result
  | base, ask _ k => ∀ answer, Sound E Post base (k answer)
  | base, put next k => (∃ r, base = some r ∧ E r next) ∧ Sound E Post (some next) k

end Task

/-- What the environment fixes: the context of each handle, which contexts have the wide lock, what
the store validates, and what each call does with the record that it reads. -/
structure System (ρ κ ε Q A : Type) where
  home : ℕ → ℕ
  wideLock : ℕ → Bool
  validates : ρ → Bool
  change : κ → Option ρ → Task ρ ε Q A

/-! ### The state -/

inductive HandleState
  | unopened
  | opened
  | closed
  deriving DecidableEq

/-- A write under way: the record in the document that it stores, the record before it, the version
that it expects, and whether it is the write of a change of the record. -/
structure Writing (ρ : Type) where
  document : Option ρ
  before : Option ρ
  expected : ℕ
  ofChange : Bool

/-- A handle, with the record of its document. -/
structure Handle (ρ : Type) where
  state : HandleState
  doc : Option ρ
  seen : ℕ
  writing : Option (Writing ρ)

/-- Where a change stands that holds the lock. `base` is the record it goes by. -/
inductive Phase (ρ ε Q A : Type)
  | reading
  | at (base : Option ρ) (task : Task ρ ε Q A)
  | saving (base : Option ρ) (next : ρ) (k : Task ρ ε Q A)

structure Running (ρ κ ε Q A : Type) where
  call : κ
  handle : ℕ
  phase : Phase ρ ε Q A

structure World (ρ κ ε Q A : Type) where
  stored : Option ρ
  version : ℕ
  handles : ℕ → Handle ρ
  waiting : ℕ → List (κ × ℕ)
  running : ℕ → Option (Running ρ κ ε Q A)
  holder : Option ℕ
  resolved : List (κ × ρ)

/-! ### Steps -/

/-- What becomes of a write that meets a conflict: the document is loaded anew, and the write
rejects or is tried again on top of it, or the load fails, or the handle closes. -/
inductive Reload
  | rejects
  | again
  | fails
  | closes
  deriving DecidableEq

/-- The backend's answer to a write: the compare-and-swap, an error, or an error after a
compare-and-swap that has gone through. -/
inductive Answer
  | settled (conflict : Reload)
  | failed
  | lost
  deriving DecidableEq

inductive Act (κ A : Type)
  | openHandle (h : ℕ)
  | close (h : ℕ)
  | request (h : ℕ) (call : κ)
  | acquire (c : ℕ)
  | read (c : ℕ)
  | answer (c : ℕ) (reply : A)
  | beginPut (c : ℕ)
  | settle (c : ℕ)
  | beginOther (h : ℕ)
  | saved (h : ℕ) (answer : Answer)

namespace Handle

/-- A write begins: the document is in memory before it is stored. -/
def begin (hd : Handle ρ) (document : Option ρ) (ofChange : Bool) : Handle ρ :=
  { hd with doc := document, writing := some ⟨document, hd.doc, hd.seen, ofChange⟩ }

/-- The write has gone through, and the handle has seen the version that it made. -/
def accept (hd : Handle ρ) (version : ℕ) : Handle ρ := { hd with seen := version, writing := none }

/-- The write has failed, and the document of an open handle is as before. -/
def rollBack (hd : Handle ρ) (wr : Writing ρ) : Handle ρ :=
  { hd with doc := if hd.state = .opened then wr.before else hd.doc, writing := none }

/-- The handle forgets its document. -/
def close (hd : Handle ρ) : Handle ρ := { hd with state := .closed, doc := none }

/-- The document is loaded anew, by a handle that is still open. -/
def reload (hd : Handle ρ) (stored : Option ρ) (version : ℕ) : Handle ρ :=
  if hd.state = .opened then { hd with doc := stored, seen := version, writing := none }
  else { hd with writing := none }

/-- The end of a write that met a conflict. Only a write that leaves the record alone is tried
again. -/
def conflict (hd : Handle ρ) (wr : Writing ρ) (stored : Option ρ) (version : ℕ) :
    Reload → Handle ρ
  | .rejects => hd.reload stored version
  | .again =>
    if hd.state = .opened ∧ wr.ofChange = false then
      (hd.reload stored version).begin stored false
    else hd.reload stored version
  | .fails => hd.rollBack wr
  | .closes => { hd.close with writing := none }

end Handle

namespace World

variable (S : System ρ κ ε Q A)

/-- The handle is as given. -/
def setHandle (w : World ρ κ ε Q A) (h : ℕ) (hd : Handle ρ) : World ρ κ ε Q A :=
  { w with handles := Function.update w.handles h hd }

/-- The change in the context goes on, or ends and gives the locks back. -/
def setRunning (w : World ρ κ ε Q A) (c : ℕ) (r : Option (Running ρ κ ε Q A)) :
    World ρ κ ε Q A :=
  { w with
    running := Function.update w.running c r,
    holder := if r.isNone ∧ w.holder = some c then none else w.holder }

section Fields

variable (w : World ρ κ ε Q A) (h c : ℕ) (hd : Handle ρ) (r : Option (Running ρ κ ε Q A))

@[simp]
theorem setHandle_self : (w.setHandle h hd).handles h = hd := Function.update_self ..

theorem setHandle_of_ne {h' : ℕ} (hne : h' ≠ h) : (w.setHandle h hd).handles h' = w.handles h' :=
  Function.update_of_ne hne ..

@[simp]
theorem setHandle_stored : (w.setHandle h hd).stored = w.stored := rfl

@[simp]
theorem setHandle_version : (w.setHandle h hd).version = w.version := rfl

@[simp]
theorem setHandle_running : (w.setHandle h hd).running = w.running := rfl

@[simp]
theorem setRunning_self : (w.setRunning c r).running c = r := Function.update_self ..

theorem setRunning_of_ne {c' : ℕ} (hne : c' ≠ c) : (w.setRunning c r).running c' = w.running c' :=
  Function.update_of_ne hne ..

@[simp]
theorem setRunning_stored : (w.setRunning c r).stored = w.stored := rfl

@[simp]
theorem setRunning_version : (w.setRunning c r).version = w.version := rfl

@[simp]
theorem setRunning_handles : (w.setRunning c r).handles = w.handles := rfl

end Fields

/-- The write of the handle goes into the store. -/
def store (w : World ρ κ ε Q A) (wr : Writing ρ) : World ρ κ ε Q A :=
  { w with stored := wr.document, version := w.version + 1 }

/-- What the end of a write means for the change that waits for it. -/
def resume (w : World ρ κ ε Q A) (c : ℕ) (accepted : Bool) : World ρ κ ε Q A :=
  match w.running c with
  | some ⟨call, h, .saving _ next k⟩ =>
    w.setRunning c (if accepted then some ⟨call, h, .at (some next) k⟩ else none)
  | _ => w

/-- The backend has answered a write. -/
def finish (w : World ρ κ ε Q A) (h : ℕ) (wr : Writing ρ) : Answer → World ρ κ ε Q A × Bool
  | .settled conflict =>
    if wr.expected = w.version then
      ((w.store wr).setHandle h ((w.handles h).accept (w.version + 1)), true)
    else
      (w.setHandle h ((w.handles h).conflict wr w.stored w.version conflict), false)
  | .failed => (w.setHandle h ((w.handles h).rollBack wr), false)
  | .lost =>
    ((if wr.expected = w.version then w.store wr else w).setHandle h ((w.handles h).rollBack wr),
      false)

/-- Whether the context may take the locks. -/
def mayAcquire (w : World ρ κ ε Q A) (c : ℕ) : Bool :=
  (w.running c).isNone ∧ (S.wideLock c → w.holder.isNone)

/-- One step. -/
def step (w : World ρ κ ε Q A) : Act κ A → Option (World ρ κ ε Q A)
  | .openHandle h =>
    if (w.handles h).state = .unopened then
      some (w.setHandle h ⟨.opened, w.stored, w.version, none⟩)
    else none
  | .close h => some (w.setHandle h (w.handles h).close)
  | .request h call =>
    some { w with waiting := Function.update w.waiting (S.home h) (w.waiting (S.home h) ++ [(call, h)]) }
  | .acquire c =>
    match w.waiting c with
    | [] => none
    | (call, h) :: rest =>
      if w.mayAcquire S c then
        some { w with
          waiting := Function.update w.waiting c rest,
          running := Function.update w.running c (some ⟨call, h, .reading⟩),
          holder := if S.wideLock c then some c else w.holder }
      else none
  | .read c =>
    match w.running c with
    | some ⟨call, h, .reading⟩ =>
      if (w.handles h).state = .opened then
        some (w.setRunning c
          (some ⟨call, h, .at (w.handles h).doc (S.change call (w.handles h).doc)⟩))
      else some (w.setRunning c none)
    | _ => none
  | .answer c reply =>
    match w.running c with
    | some ⟨call, h, .at base (.ask _ k)⟩ => some (w.setRunning c (some ⟨call, h, .at base (k reply)⟩))
    | _ => none
  | .beginPut c =>
    match w.running c with
    | some ⟨call, h, .at base (.put next k)⟩ =>
      if (w.handles h).state ≠ .opened ∨ S.validates next = false then some (w.setRunning c none)
      else if (w.handles h).writing.isSome then none
      else
        some ((w.setRunning c (some ⟨call, h, .saving base next k⟩)).setHandle h
          ((w.handles h).begin (some next) true))
    | _ => none
  | .settle c =>
    match w.running c with
    | some ⟨call, _, .at _ (.done result)⟩ =>
      some { w.setRunning c none with resolved := (call, result) :: w.resolved }
    | some ⟨_, _, .at _ (.fail _)⟩ => some (w.setRunning c none)
    | _ => none
  | .beginOther h =>
    if (w.handles h).state = .opened ∧ (w.handles h).writing.isNone then
      some (w.setHandle h ((w.handles h).begin (w.handles h).doc false))
    else none
  | .saved h answer =>
    match (w.handles h).writing with
    | none => none
    | some wr =>
      let (w', accepted) := w.finish h wr answer
      some (if wr.ofChange then w'.resume (S.home h) accepted else w')

end World

/-! ### Where a reload disturbs a change -/

/-- The handle loads the document anew in this answer to a write that leaves the record alone. -/
def Handle.reloads (hd : Handle ρ) (version : ℕ) : Answer → Bool
  | .settled conflict =>
    hd.state = .opened ∧ hd.writing.any (fun wr => wr.expected ≠ version ∧ wr.ofChange = false) ∧
      (conflict = .rejects ∨ conflict = .again)
  | .failed | .lost => false

/-- The change that runs over the handle has read nothing, or what is stored. -/
def World.ReadsStored [DecidableEq ρ] (S : System ρ κ ε Q A) (w : World ρ κ ε Q A) (h : ℕ) : Bool :=
  match w.running (S.home h) with
  | some ⟨_, h', .at base _⟩ => h' = h → base = w.stored
  | _ => true

/-- Every reload of a document leaves the change that runs over the handle with what is stored. -/
def Undisturbed [DecidableEq ρ] (S : System ρ κ ε Q A) (w : World ρ κ ε Q A) : Act κ A → Prop
  | .saved h answer => (w.handles h).reloads w.version answer → w.ReadsStored S h
  | _ => True

instance [DecidableEq ρ] (S : System ρ κ ε Q A) (w : World ρ κ ε Q A) (a : Act κ A) :
    Decidable (Undisturbed S w a) := by
  unfold Undisturbed
  split <;> infer_instance

end Versioned
