import Mathlib.Algebra.Order.Ring.Rat
import XchainWallet.Keyed.List
import XchainWallet.Shared.Objects
import XchainWallet.Transition.Run

/-!
# Coalescing of identical reads

`HostRateLimiter.request` around its sends: an idempotent read with a key is answered from the recent
answers, or waits for the same read in flight, or is sent. A step is what runs between two awaits: a call of
`request`, the end of a send with the continuations of the calls that wait for it, a change that a caller
makes to the response it received, or time going by. The objects of the responses live in one store, so that
what a caller sees depends on who else holds them.
-/

namespace XchainWallet.Coalescing

open Function

open Shared

variable {V : Type*}

/-! ### Responses -/

/-- An object by the call that brought it in, the property it was made for and a count. -/
structure Ref where
  maker : ℕ
  name : String
  count : ℕ
  deriving DecidableEq

abbrev Response (V : Type*) := Record String Ref V

/-- A response as it came in, or as its holder sees it. -/
abbrev Seen (V : Type*) := Record String V V

/-- `data` for the call `i`: a copy where `structuredClone` can copy it, the same object where it throws. -/
def cloneData (copies : V → Bool) (i : ℕ) (contents : Ref → V) :
    Property Ref V → Property Ref V × (Ref → V)
  | .plain v => (.plain v, contents)
  | .object r =>
    if copies (contents r) then
      (.object ⟨i, "data", 0⟩, update contents ⟨i, "data", 0⟩ (contents r))
    else (.object r, contents)

/-- `cloneResponse`: a new record with the properties of the old one, and `data` copied. -/
def cloneResponse (copies : V → Bool) (i : ℕ) (contents : Ref → V) :
    Response V → Response V × (Ref → V)
  | .value v => (.value v, contents)
  | .record props =>
    let cloned := cloneData copies i contents (props "data")
    (.record (update props "data" cloned.1), cloned.2)

/-- The response that the send of the call `s` brought in. -/
def received (s : ℕ) : Seen V → Response V
  | .value v => .value v
  | .record props => .record fun name =>
    match props name with
    | .plain v => .plain v
    | .object _ => .object ⟨s, name, 0⟩

/-- The store with the objects of that response. -/
def store (s : ℕ) (contents : Ref → V) : Seen V → Ref → V
  | .value _, r => contents r
  | .record props, r =>
    if r.maker = s ∧ r.count = 0 then
      match props r.name with
      | .plain _ => contents r
      | .object v => v
    else contents r

/-! ### Requests -/

/-- Where a call of `request` stands. -/
inductive Stage where
  | uncalled
  | sending
  /-- It waits for the send of another call. -/
  | joined (send : ℕ)
  /-- It was answered with the response of that send. -/
  | answered (send : ℕ)
  | failed
  deriving DecidableEq

/-- A call with its effective key, the calls that wait for its send, its response, how many objects its caller
put in, the response that its send brought in, and the changes that its caller made, the last one last. -/
structure Request (V : Type*) where
  key : Option String
  singleAttempt : Bool
  stage : Stage
  waiters : List ℕ
  response : Response V
  made : ℕ
  arrived : Seen V
  changes : List (Change String V)

/-- An entry of the recent answers. Its response is the one that the caller of the send received. -/
structure Recent where
  key : String
  atMs : ℚ
  send : ℕ
  deriving DecidableEq

structure Reads (V : Type*) where
  now : ℚ
  requests : ℕ → Request V
  contents : Ref → V
  inFlight : String → Option ℕ
  recent : List Recent

/-- The limiter before its first read. -/
def fresh (v : V) (now : ℚ) : Reads V where
  now := now
  requests _ :=
    { key := none, singleAttempt := false, stage := .uncalled, waiters := [], response := .value v,
      made := 0, arrived := .value v, changes := [] }
  contents _ := v
  inFlight _ := none
  recent := []

def singleAttemptMark : String := " single-attempt"

/-- The key a call is coalesced under: none for a signalled one, and its own for a single attempt. -/
def effectiveKey (key : Option String) (signalled singleAttempt : Bool) : Option String :=
  if signalled then none
  else
    match key with
    | none => none
    | some k => if k = "" then none else if singleAttempt then some (k ++ singleAttemptMark) else some k

namespace Reads

variable (copies : V → Bool) (reuse : ℚ)

/-- The entry can still answer a read. -/
def Live (w : Reads V) (e : Recent) : Prop := w.now - e.atMs ≤ reuse

instance (w : Reads V) (e : Recent) : Decidable (w.Live reuse e) := inferInstanceAs (Decidable (_ ≤ _))

def setRequest (w : Reads V) (i : ℕ) (q : Request V) : Reads V :=
  { w with requests := update w.requests i q }

/-- `pruneRecent`. -/
def pruneRecent (w : Reads V) : Reads V :=
  if w.recent.length < 64 then w
  else { w with recent := w.recent.filter fun e => w.now - reuse ≤ e.atMs }

/-- The call `i` is answered with a copy of the response of the send `s`. -/
def answerFrom (w : Reads V) (i s : ℕ) : Reads V :=
  let cloned := cloneResponse copies i w.contents (w.requests s).response
  { w.setRequest i { w.requests i with stage := .answered s, response := cloned.1 } with
    contents := cloned.2 }

/-- The call `i` with its key, before its first `await`. -/
def begin (w : Reads V) (i : ℕ) (key : Option String) (singleAttempt : Bool) : Reads V :=
  w.setRequest i { w.requests i with key := key, singleAttempt := singleAttempt }

/-- The call `i` starts a send of its own. -/
def startSend (w : Reads V) (i : ℕ) : Reads V :=
  { w.setRequest i { w.requests i with stage := .sending } with
    inFlight :=
      match (w.requests i).key with
      | none => w.inFlight
      | some k => update w.inFlight k (some i) }

/-- The call `i` waits for the send of the call `s`. -/
def join (w : Reads V) (i s : ℕ) : Reads V :=
  let w := w.setRequest i { w.requests i with stage := .joined s }
  w.setRequest s { w.requests s with waiters := (w.requests s).waiters ++ [i] }

/-- `request`, up to its first `await`. A signal of `some true` is aborted already. -/
def request (w : Reads V) (i : ℕ) (key : Option String) (signal : Option Bool) (singleAttempt : Bool) :
    Reads V :=
  if signal = some true then w.setRequest i { w.requests i with stage := .failed }
  else
    let key := effectiveKey key signal.isSome singleAttempt
    let w := w.begin i key singleAttempt
    match key with
    | none => w.startSend i
    | some k =>
      match (Keyed.find Recent.key k w.recent).filter fun e => w.Live reuse e with
      | some e => w.answerFrom copies i e.send
      | none =>
        match w.inFlight k with
        | some s => w.join i s
        | none => w.startSend i

/-- `inFlight.delete(key)`, and no call waits for the send any more. -/
def endSend (w : Reads V) (s : ℕ) : Reads V :=
  { w.setRequest s { w.requests s with waiters := [] } with
    inFlight :=
      match (w.requests s).key with
      | none => w.inFlight
      | some k => update w.inFlight k none }

/-- The caller of the send `s` receives its response, which stays with the recent answers. -/
def receive (w : Reads V) (s : ℕ) (arrived : Seen V) : Reads V :=
  let w :=
    { w.setRequest s { w.requests s with
        stage := .answered s, response := received s arrived, arrived := arrived } with
      contents := store s w.contents arrived }
  match (w.requests s).key with
  | none => w
  | some k => pruneRecent reuse { w with recent := Keyed.upsert Recent.key ⟨k, w.now, s⟩ w.recent }

/-- The send of the call `s` ends with a response: its own continuation runs, then a copy is made for each
call that waits for it. -/
def settle (w : Reads V) (s : ℕ) (arrived : Seen V) : Reads V :=
  (w.requests s).waiters.foldl (fun w i => w.answerFrom copies i s)
    ((w.receive reuse s arrived).endSend s)

/-- The send of the call `s` fails, and so do the calls that wait for it. -/
def fail (w : Reads V) (s : ℕ) : Reads V :=
  (w.requests s).waiters.foldl (fun w i => w.setRequest i { w.requests i with stage := .failed })
    ((w.setRequest s { w.requests s with stage := .failed }).endSend s)

/-- The caller of `i` sets a property of its response. An object that it puts in is a new one. -/
def setProperty (w : Reads V) (i : ℕ) (name : String) : Property V V → Reads V
  | .plain v => w.setRequest i { w.requests i with response := (w.requests i).response.set name (.plain v) }
  | .object v =>
    let r : Ref := ⟨i, name, (w.requests i).made + 1⟩
    { w.setRequest i { w.requests i with
        response := (w.requests i).response.set name (.object r), made := (w.requests i).made + 1 } with
      contents := update w.contents r v }

/-- The caller of `i` writes to the object in a property of its response. -/
def writeObject (w : Reads V) (i : ℕ) (name : String) (v : V) : Reads V :=
  match (w.requests i).response.object? name with
  | none => w
  | some r => { w with contents := update w.contents r v }

/-- The caller of `i` changes the response it received. -/
def change (w : Reads V) (i : ℕ) (c : Change String V) : Reads V :=
  let w := w.setRequest i { w.requests i with changes := (w.requests i).changes ++ [c] }
  match c with
  | .set name value => w.setProperty i name value
  | .write name v => w.writeObject i name v

end Reads

inductive Act (V : Type*) where
  | request (i : ℕ) (key : Option String) (signal : Option Bool) (singleAttempt : Bool)
  | settle (s : ℕ) (arrived : Seen V)
  | fail (s : ℕ)
  | change (i : ℕ) (c : Change String V)
  | tick (now : ℚ)

def step (copies : V → Bool) (reuse : ℚ) (w : Reads V) : Act V → Option (Reads V)
  | .request i key signal singleAttempt =>
    if (w.requests i).stage = .uncalled then some (w.request copies reuse i key signal singleAttempt)
    else none
  | .settle s arrived =>
    if (w.requests s).stage = .sending then some (w.settle copies reuse s arrived) else none
  | .fail s => if (w.requests s).stage = .sending then some (w.fail s) else none
  | .change i c =>
    match (w.requests i).stage with
    | .answered _ => some (w.change i c)
    | _ => none
  | .tick now => if w.now ≤ now then some { w with now := now } else none

end XchainWallet.Coalescing
