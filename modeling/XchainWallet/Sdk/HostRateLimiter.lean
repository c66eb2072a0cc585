import Mathlib.Data.Rat.Floor
import XchainWallet.Transition.Run

/-!
# The host rate limiter

One `HostRateLimiter` and one host of it: the state record of the source, the clock, and the requests
made to it, each at the `await` at which it stands. A step is what runs between two awaits: the start of a
request, a continuation, a timer, the answer to a send, the abort of a signal, or the listener of an
abort. Times are rational milliseconds; a sleep lasts at least as long as it was asked for.
-/

namespace XchainWallet.RateLimit

/-! ### Options and answers -/

structure LimiterOpts where
  maxConcurrency : ℚ
  maxRetries : ℕ
  maxWaitMs : ℚ
  maxTotalMs : ℚ
  baseBackoffMs : ℚ
  maxConcurrentRetries : ℚ
  lowWater : ℚ

def EXPLORER_RATE_LIMIT_DEFAULTS : LimiterOpts where
  maxConcurrency := 4
  maxRetries := 3
  maxWaitMs := 30000
  maxTotalMs := 60000
  baseBackoffMs := 2000
  maxConcurrentRetries := 2
  lowWater := 20

/-- `Math.max(1, Math.floor(value || 1))`. -/
def atLeastOne (value : ℚ) : ℕ := max 1 ⌊value⌋.toNat

/-- `Math.round`. -/
def round (x : ℚ) : ℤ := ⌊x + 1 / 2⌋

/-- What the limiter reads in the headers of a response, `none` where it cannot read it. -/
structure ResponseHeaders where
  remaining : Option ℤ
  resetMs : Option ℚ
  retryAfterMs : Option ℚ

def rateLimitWaitMs (headers : ResponseHeaders) : Option ℚ := headers.retryAfterMs.or headers.resetMs

/-- How a send ends. Whether a failure may be tried again is the verdict of `retryable`. -/
inductive Answer where
  | response (headers : ResponseHeaders)
  | failure (reply : Option (ℕ × ResponseHeaders)) (transient : Bool)

def Answer.headers : Answer → Option ResponseHeaders
  | .response headers => some headers
  | .failure reply _ => reply.map Prod.snd

/-- The reply is a 429. -/
def isLimited (reply : Option (ℕ × ResponseHeaders)) : Bool := reply.any fun res => res.1 = 429

/-! ### Requests -/

/-- Where a request stands. -/
inductive Stage where
  | unstarted
  /-- In the FIFO queue for a send slot. -/
  | waiting
  /-- With its slot, before the gate. -/
  | entered
  | paused (wakeAt : ℚ)
  | paced (wakeAt : ℚ)
  /-- Cleared by the gate. -/
  | cleared
  /-- Behind the trial of another request. -/
  | behindTrial (trial : ℕ)
  /-- In the queue for a retry slot. -/
  | retryWaiting
  | retryGranted
  | sending
  /-- What it awaited was rejected. -/
  | rejected
  | finished
  deriving DecidableEq

/-- The request has a send slot. -/
def Stage.holdsSlot : Stage → Bool
  | .unstarted | .waiting | .finished => false
  | _ => true

/-- A call of `attempt`, with the slot that the gate assigned to it last and the send slots it took and
gave back. -/
structure Request where
  singleAttempt : Bool
  signalled : Bool
  maxRetries : ℕ
  deadline : ℚ
  aborted : Bool
  retries : ℕ
  stage : Stage
  endTrial : Option ℕ
  releaseRetry : Bool
  sentAt : ℚ
  slot : ℚ
  acquired : ℕ
  released : ℕ

def Request.unstarted : Request where
  singleAttempt := false
  signalled := false
  maxRetries := 0
  deadline := 0
  aborted := false
  retries := 0
  stage := .unstarted
  endTrial := none
  releaseRetry := false
  sentAt := 0
  slot := 0
  acquired := 0
  released := 0

/-- A request that left for the host, and the slot that it had been assigned. -/
structure Departure where
  leftAt : ℚ
  slot : ℚ
  deriving DecidableEq

/-! ### The host -/

structure Host where
  now : ℚ
  blockedUntil : ℚ
  rateBlockedUntil : ℚ
  remaining : Option ℤ
  resetAt : Option ℚ
  nextSlotAt : ℚ
  strikes : ℕ
  lastStrikeAt : ℚ
  needsTrial : Bool
  trial : Option ℕ
  trials : ℕ
  active : ℕ
  waiters : List ℕ
  retryActive : ℕ
  retryQueue : List ℕ
  requests : ℕ → Request
  departures : List Departure

namespace Host

variable (opts : LimiterOpts) (w : Host)

def setRequest (r : ℕ) (f : Request → Request) : Host :=
  { w with requests := Function.update w.requests r (f (w.requests r)) }

def setStage (r : ℕ) (stage : Stage) : Host := w.setRequest r fun q => { q with stage := stage }

/-! ### Send slots -/

def maxActive : ℕ := atLeastOne opts.maxConcurrency

/-- The slot of `enter`. -/
def grantSlot (r : ℕ) : Host :=
  { w.setRequest r fun q => { q with stage := .entered, acquired := q.acquired + 1 } with
    active := w.active + 1 }

/-- The loop of `drain`: a waiter whose signal was aborted gives its turn to the next. -/
def drainFrom : List ℕ → Host → Host
  | [], w => { w with waiters := [] }
  | r :: rest, w =>
    if w.active < maxActive opts then
      if (w.requests r).aborted then drainFrom rest (w.setStage r .finished)
      else drainFrom rest (w.grantSlot r)
    else { w with waiters := r :: rest }

def drain : Host := drainFrom opts w.waiters w

def freeSlot (r : ℕ) : Host :=
  { w.setRequest r fun q => { q with stage := .finished, released := q.released + 1 } with
    active := w.active - 1 }

def releaseSlot (r : ℕ) : Host := drain opts (w.freeSlot r)

def acquire (r : ℕ) : Host :=
  if (w.requests r).aborted then w.setStage r .finished
  else if w.active < maxActive opts then w.grantSlot r
  else { w.setStage r .waiting with waiters := w.waiters ++ [r] }

/-! ### Retry slots and the trial -/

def maxRetrying : ℕ := atLeastOne opts.maxConcurrentRetries

def grantRetry (r : ℕ) : Host :=
  { w.setRequest r fun q => { q with stage := .retryGranted, releaseRetry := true } with
    retryActive := w.retryActive + 1 }

def retrySlot (r : ℕ) : Host :=
  if (w.requests r).aborted then w.setStage r .rejected
  else if w.retryActive < maxRetrying opts then w.grantRetry r
  else { w.setStage r .retryWaiting with retryQueue := w.retryQueue ++ [r] }

/-- The next of the queue for a retry slot. -/
def grantNextRetry : Host :=
  match w.retryQueue with
  | [] => w
  | next :: rest => { w with retryQueue := rest }.grantRetry next

def dropRetry (r : ℕ) : Host :=
  { w.setRequest r fun q => { q with releaseRetry := false } with retryActive := w.retryActive - 1 }

/-- `releaseRetry?.()`. -/
def giveBackRetry (r : ℕ) : Host :=
  if (w.requests r).releaseRetry then (w.dropRetry r).grantNextRetry else w

def finishTrial (r : ℕ) : Host :=
  match (w.requests r).endTrial with
  | some _ => { w.setRequest r fun q => { q with endTrial := none } with trial := none }
  | none => w

/-- The `finally` blocks around a send, inner to outer. -/
def leave (r : ℕ) : Host := releaseSlot opts (finishTrial (giveBackRetry w r) r) r

/-! ### Pauses and pacing -/

/-- Every queued single-attempt request fails once the host is paused. -/
def releasePausedWaiters : Host :=
  if w.blockedUntil ≤ w.now then w
  else
    { w with
      waiters := w.waiters.filter fun r => !(w.requests r).singleAttempt,
      requests := fun r =>
        if r ∈ w.waiters ∧ (w.requests r).singleAttempt = true then
          { w.requests r with stage := .finished }
        else w.requests r }

/-- A pause never shortens one. -/
def pauseUntil (resumeAt : ℚ) (rateLimited : Bool) : Host :=
  releasePausedWaiters { w with
    blockedUntil := max w.blockedUntil resumeAt,
    rateBlockedUntil := if rateLimited then max w.rateBlockedUntil resumeAt else w.rateBlockedUntil }

def setWindow (remaining : ℤ) (resetAt : ℚ) : Host :=
  { w with remaining := some remaining, resetAt := some resetAt }

def observe (headers : ResponseHeaders) : Host :=
  match headers.remaining, headers.resetMs with
  | some remaining, some resetMs =>
    let resetAt := w.now + resetMs
    if max 0 remaining = 0 then (w.setWindow (max 0 remaining) resetAt).pauseUntil resetAt true
    else w.setWindow (max 0 remaining) resetAt
  | _, _ => w

def block (waitMs : ℚ) (rateLimited : Bool) : Host := w.pauseUntil (w.now + max 0 waitMs) rateLimited

/-- A window that has rolled over says nothing about the new one. -/
def rollWindow : Host :=
  if w.resetAt.any (· ≤ w.now) then { w with remaining := none, resetAt := none } else w

/-- The window is spread evenly over the time that is left in it. -/
def spread (remaining : ℤ) (resetAt : ℚ) : Host × ℚ :=
  let spacing := (resetAt - w.now) / max 1 remaining
  let slot := max w.now w.nextSlotAt
  ({ w with nextSlotAt := slot + spacing, remaining := some (max 0 (remaining - 1)) }, slot)

/-- `pace` in a window: the host after it and the slot that it reserved. -/
def paceIn : Host × ℚ :=
  match w.remaining, w.resetAt with
  | some remaining, some resetAt =>
    if opts.lowWater < remaining then ({ w with remaining := some (remaining - 1) }, w.now)
    else w.spread remaining resetAt
  | _, _ => (w, w.now)

def pace : Host × ℚ := w.rollWindow.paceIn opts

/-- The rest of `gate`: the slot is reserved, and slept for up to `maxWaitMs`. -/
def awaitSlot (r : ℕ) : Host :=
  let slot := (pace opts w).2
  let w := (pace opts w).1.setRequest r fun q => { q with slot := slot }
  if w.now < slot then
    if (w.requests r).aborted then w.setStage r .rejected
    else w.setStage r (.paced (w.now + min (slot - w.now) opts.maxWaitMs))
  else w.setStage r .cleared

/-- A single attempt has a deadline of now. -/
def gateDeadline (q : Request) : ℚ := if q.singleAttempt then w.now else q.deadline

/-- `gate`, up to its first sleep. -/
def gate (r : ℕ) (random : ℚ) : Host :=
  let left := w.blockedUntil - w.now
  if (w.requests r).aborted then w.setStage r .rejected
  else if w.now < w.blockedUntil then
    if min opts.maxWaitMs (w.gateDeadline (w.requests r) - w.now) < left then w.setStage r .rejected
    else w.setStage r (.paused (w.now + (left + round (random * min 1000 (left * (1 / 5) + 100)))))
  else w.awaitSlot opts r

def backoffMs (random : ℚ) (attempt : ℕ) : ℚ :=
  min (round (opts.baseBackoffMs * 2 ^ attempt * (3 / 4 + random * (1 / 2)))) opts.maxWaitMs

/-! ### The send loop -/

def send (r : ℕ) : Host :=
  { w.setRequest r fun q => { q with stage := .sending, sentAt := w.now } with
    departures := w.departures ++ [⟨w.now, (w.requests r).slot⟩] }

/-- The top of the loop: a single attempt is refused before it takes a slot. -/
def enterLoop (r : ℕ) : Host :=
  if (w.requests r).singleAttempt ∧ w.now < w.blockedUntil then w.setStage r .finished
  else w.acquire opts r

/-- The request is the trial where one is needed. -/
def beginTrial (r : ℕ) : Host :=
  if w.needsTrial then
    { w.setRequest r fun q => { q with endTrial := some w.trials } with
      trial := some w.trials, trials := w.trials + 1 }
  else w

/-- What follows the gate: behind a trial, or on with the send. -/
def afterGate (r : ℕ) : Host :=
  match w.needsTrial, w.trial with
  | true, some trial => w.setStage r (.behindTrial trial)
  | _, _ =>
    let w := w.beginTrial r
    if 0 < (w.requests r).retries then w.retrySlot opts r else w.send r

/-- One strike a wave: requests that were in flight already share it. -/
def strike (r : ℕ) : Host :=
  if w.lastStrikeAt < (w.requests r).sentAt then
    { w with strikes := min (w.strikes + 1) 8, lastStrikeAt := w.now, needsTrial := true }
  else { w with needsTrial := true }

/-- The wait after a failure that may be tried again, or a 429. -/
def waitAfter (r : ℕ) (reply : Option (ℕ × ResponseHeaders)) (random : ℚ) : ℚ :=
  let named := if isLimited reply then reply.bind fun res => rateLimitWaitMs res.2 else none
  named.getD (backoffMs opts random (max (w.requests r).retries (w.strikes - 1)))

def tryAgain (r : ℕ) : Host :=
  ((w.setRequest r fun q => { q with retries := q.retries + 1 }).leave opts r).enterLoop opts r

/-- The host pauses, and the request tries again where it may. -/
def onTransient (r : ℕ) (reply : Option (ℕ × ResponseHeaders)) (random : ℚ) : Host :=
  let wait := (w.strike r).waitAfter opts r reply random
  let q := w.requests r
  if isLimited reply = true ∨ q.maxRetries ≤ q.retries ∨ opts.maxWaitMs < wait then
    ((w.strike r).block wait (isLimited reply)).leave opts r
  else ((w.strike r).block wait (isLimited reply)).tryAgain opts r

/-- A response ends the strikes and the trial. -/
def onResponse (r : ℕ) : Host := { w with strikes := 0, needsTrial := false }.leave opts r

/-- A failure that is final ends the trial if it was its. -/
def onFinal (r : ℕ) : Host :=
  { w with needsTrial := w.needsTrial && (w.requests r).endTrial.isNone }.leave opts r

def observed (answer : Answer) : Host := answer.headers.elim w w.observe

def onAnswer (r : ℕ) (answer : Answer) (random : ℚ) : Host :=
  match answer with
  | .response _ => (w.observed answer).onResponse opts r
  | .failure reply transient =>
    if isLimited reply = true ∨ transient = true then (w.observed answer).onTransient opts r reply random
    else (w.observed answer).onFinal opts r

end Host

/-! ### Steps -/

inductive LimiterAct where
  | start (r : ℕ) (singleAttempt signalled : Bool) (maxRetries : ℕ)
  | abort (r : ℕ)
  /-- The listener of an aborted signal. -/
  | cancel (r : ℕ)
  | wake (r : ℕ)
  /-- What follows an await that is settled. -/
  | resume (r : ℕ) (random : ℚ)
  | answer (r : ℕ) (answer : Answer) (random : ℚ)
  | tick (ms : ℚ)

namespace Host

variable (opts : LimiterOpts) (w : Host)

/-- `attempt`, up to its first await. -/
def start (r : ℕ) (singleAttempt signalled : Bool) (maxRetries : ℕ) : Host :=
  (w.setRequest r fun q =>
    { q with
      singleAttempt := singleAttempt,
      signalled := signalled,
      maxRetries := if singleAttempt then 0 else min opts.maxRetries maxRetries,
      deadline := w.now + opts.maxTotalMs }).enterLoop opts r

def cancel (r : ℕ) : Option Host :=
  if (w.requests r).aborted then
    match (w.requests r).stage with
    | .waiting => some { w.setStage r .finished with waiters := w.waiters.filter (· ≠ r) }
    | .paused _ | .paced _ => some (w.setStage r .rejected)
    | .retryWaiting => some { w.setStage r .rejected with retryQueue := w.retryQueue.filter (· ≠ r) }
    | _ => none
  else none

def wake (r : ℕ) : Option Host :=
  match (w.requests r).stage with
  | .paused wakeAt => if wakeAt ≤ w.now then some (w.awaitSlot opts r) else none
  | .paced wakeAt => if wakeAt ≤ w.now then some (w.setStage r .cleared) else none
  | _ => none

def resume (r : ℕ) (random : ℚ) : Option Host :=
  match (w.requests r).stage with
  | .entered => some (w.gate opts r random)
  | .cleared => some (w.afterGate opts r)
  | .behindTrial trial =>
    if w.trial = some trial then none else some ((w.leave opts r).enterLoop opts r)
  | .retryGranted => some (w.send r)
  | .rejected => some (w.leave opts r)
  | _ => none

/-- `Math.random` is in `[0, 1)`. -/
def IsRandom (random : ℚ) : Prop := 0 ≤ random ∧ random < 1

instance (random : ℚ) : Decidable (IsRandom random) := inferInstanceAs (Decidable (_ ∧ _))

def step : LimiterAct → Option Host
  | .start r singleAttempt signalled maxRetries =>
    if (w.requests r).stage = .unstarted then some (w.start opts r singleAttempt signalled maxRetries)
    else none
  | .abort r =>
    if (w.requests r).signalled then some (w.setRequest r fun q => { q with aborted := true }) else none
  | .cancel r => w.cancel r
  | .wake r => w.wake opts r
  | .resume r random => if IsRandom random then w.resume opts r random else none
  | .answer r answer random =>
    if IsRandom random ∧ (w.requests r).stage = .sending then some (w.onAnswer opts r answer random)
    else none
  | .tick ms => if 0 ≤ ms then some { w with now := w.now + ms } else none

/-- A host that no request was made to. -/
def fresh (now : ℚ) : Host where
  now := now
  blockedUntil := 0
  rateBlockedUntil := 0
  remaining := none
  resetAt := none
  nextSlotAt := 0
  strikes := 0
  lastStrikeAt := 0
  needsTrial := false
  trial := none
  trials := 0
  active := 0
  waiters := []
  retryActive := 0
  retryQueue := []
  requests := fun _ => .unstarted
  departures := []

end Host

end XchainWallet.RateLimit
