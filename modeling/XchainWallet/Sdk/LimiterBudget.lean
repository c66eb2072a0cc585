import XchainWallet.Sdk.LimiterSlots

/-!
# The budget of a window

A host whose last answer advertised `n` requests until `R`: how many leave before `R`, and whether each
leaves at the slot that the gate assigned to it. The gate sleeps for at most `maxWaitMs`, so a slot that
is further away is not kept (`not_budget_kept_long_wait`). Where no assigned slot is further away, and the
answer finds no request between the gate and its send, both promises hold (`budget_kept`).

A request counts against the budget from its reservation (`Budget`): the departures, the reservations
below `R` and the rest of the window never exceed `n`, and once the rest is nothing the next slot is at
`R` or later.
-/

namespace XchainWallet.RateLimit

open Function Transition

/-- Between the gate and the send. -/
def Stage.Reserved : Stage → Prop
  | .paced _ | .cleared | .retryWaiting | .retryGranted => True
  | _ => False

def Stage.isPaused : Stage → Bool
  | .paused _ => true
  | _ => false

/-- Neither a reservation nor a pause nor the send. -/
def Stage.Loose : Stage → Prop
  | .waiting | .entered | .behindTrial _ | .rejected | .finished => True
  | _ => False

/-- A request that is past the gate is not before its slot, and one that sleeps wakes at it. -/
def Request.OnTime (q : Request) (now : ℚ) : Prop :=
  match q.stage with
  | .paced wakeAt => q.slot ≤ wakeAt
  | .cleared | .retryWaiting | .retryGranted => q.slot ≤ now
  | _ => True

/-- The answer advertises a window: `n` requests for `resetMs`. -/
def Answer.Advertises (answer : Answer) (n : ℤ) (resetMs : ℚ) : Prop :=
  ∃ headers, answer.headers = some headers ∧ headers.remaining = some n ∧
    headers.resetMs = some resetMs

/-- The action is not an answer that advertises a window. -/
def LimiterAct.Silent : LimiterAct → Prop
  | .answer _ reply _ => ∀ n resetMs, ¬reply.Advertises n resetMs
  | _ => True

namespace Host

variable {opts : LimiterOpts} {w w' u : Host} {r : ℕ}

/-! ### Steps that reserve nothing -/

/-- What a step may do to a request without reserving or clearing a slot for it. -/
structure Nudged (q q' : Request) : Prop where
  slot : q'.slot = q.slot
  reserved : q'.stage.Reserved → q.stage.Reserved
  onTime : ∀ now, q.OnTime now → q'.OnTime now
  paused : ∀ wakeAt, q'.stage = .paused wakeAt → q.stage = .paused wakeAt

theorem Nudged.refl (q : Request) : Nudged q q := ⟨rfl, id, fun _ => id, fun _ => id⟩

theorem Nudged.trans {q q' q'' : Request} (h : Nudged q q') (h' : Nudged q' q'') : Nudged q q'' :=
  ⟨h'.slot.trans h.slot, fun hr => h.reserved (h'.reserved hr),
    fun now hq => h'.onTime now (h.onTime now hq), fun wakeAt hq => h.paused wakeAt (h'.paused wakeAt hq)⟩

theorem nudged_loose {q q' : Request} (hslot : q'.slot = q.slot) (hstage : q'.stage.Loose) :
    Nudged q q' := by
  cases hq : q'.stage
  all_goals
    rw [hq] at hstage
    simp only [Stage.Loose] at hstage
  all_goals
    refine ⟨hslot, fun hr => ?_, fun now _ => ?_, fun wakeAt hp => ?_⟩
    · rw [hq] at hr
      exact hr.elim
    · simp only [Request.OnTime, hq]
    · rw [hq] at hp
      cases hp

/-- No reservation, no departure, and the clock and the pause go forward only. -/
structure Quiet (w w' : Host) : Prop where
  now : w.now ≤ w'.now
  blocked : w.blockedUntil ≤ w'.blockedUntil
  departures : w'.departures = w.departures
  nudged : ∀ s, Nudged (w.requests s) (w'.requests s)

/-- Nothing of the window changes. -/
structure SameWindow (w w' : Host) : Prop where
  remaining : w'.remaining = w.remaining
  resetAt : w'.resetAt = w.resetAt
  nextSlotAt : w'.nextSlotAt = w.nextSlotAt

def Calm (w w' : Host) : Prop := Quiet w w' ∧ SameWindow w w'

theorem Quiet.trans (h : Quiet w w') (h' : Quiet w' u) : Quiet w u :=
  ⟨h.now.trans h'.now, h.blocked.trans h'.blocked, h'.departures.trans h.departures,
    fun s => (h.nudged s).trans (h'.nudged s)⟩

theorem SameWindow.trans (h : SameWindow w w') (h' : SameWindow w' u) : SameWindow w u :=
  ⟨h'.remaining.trans h.remaining, h'.resetAt.trans h.resetAt, h'.nextSlotAt.trans h.nextSlotAt⟩

theorem Calm.refl (w : Host) : Calm w w :=
  ⟨⟨le_refl _, le_refl _, rfl, fun _ => .refl _⟩, rfl, rfl, rfl⟩

theorem Calm.trans (h : Calm w w') (h' : Calm w' u) : Calm w u := ⟨h.1.trans h'.1, h.2.trans h'.2⟩

/-- The fields that a calm step is about. -/
structure SameClock (w w' : Host) : Prop where
  now : w'.now = w.now
  blocked : w'.blockedUntil = w.blockedUntil
  departures : w'.departures = w.departures
  window : SameWindow w w'

open SameClock

theorem SameClock.calm (h : SameClock w w') (hnudged : ∀ s, Nudged (w.requests s) (w'.requests s)) :
    Calm w w' :=
  ⟨⟨h.now.ge, h.blocked.ge, h.departures, hnudged⟩, h.window⟩

/-- One request is nudged. -/
theorem SameClock.calm_update (h : SameClock w w') {q' : Request}
    (hrequests : w'.requests = update w.requests r q') (hr : Nudged (w.requests r) q') :
    Calm w w' := by
  refine h.calm fun s => ?_
  rw [hrequests]
  by_cases hs : s = r
  · subst hs
    rw [update_self]
    exact hr
  · rw [update_of_ne hs]
    exact .refl _

theorem SameClock.calm_same (h : SameClock w w') (hrequests : w'.requests = w.requests) :
    Calm w w' :=
  h.calm fun s => by
    rw [hrequests]
    exact .refl _

theorem calm_setStage (r : ℕ) (stage : Stage) (h : stage.Loose) : Calm w (w.setStage r stage) :=
  calm_update ⟨rfl, rfl, rfl, rfl, rfl, rfl⟩ rfl (nudged_loose rfl h)

theorem calm_grantSlot (r : ℕ) : Calm w (w.grantSlot r) :=
  calm_update ⟨rfl, rfl, rfl, rfl, rfl, rfl⟩ rfl (nudged_loose rfl trivial)

theorem calm_drainFrom (queue : List ℕ) : Calm w (drainFrom opts queue w) := by
  induction queue generalizing w with
  | nil => exact calm_same ⟨rfl, rfl, rfl, rfl, rfl, rfl⟩ rfl
  | cons r rest ih =>
    rw [drainFrom]
    split
    · split
      · exact (calm_setStage r .finished trivial).trans ih
      · exact (calm_grantSlot r).trans ih
    · exact calm_same ⟨rfl, rfl, rfl, rfl, rfl, rfl⟩ rfl

theorem calm_freeSlot (r : ℕ) : Calm w (w.freeSlot r) :=
  calm_update ⟨rfl, rfl, rfl, rfl, rfl, rfl⟩ rfl (nudged_loose rfl trivial)

theorem calm_acquire (r : ℕ) : Calm w (w.acquire opts r) := by
  rw [acquire]
  split
  · exact calm_setStage r .finished trivial
  · split
    · exact calm_grantSlot r
    · exact calm_update ⟨rfl, rfl, rfl, rfl, rfl, rfl⟩ rfl (nudged_loose rfl trivial)

theorem calm_enterLoop (r : ℕ) : Calm w (w.enterLoop opts r) := by
  rw [enterLoop]
  split
  · exact calm_setStage r .finished trivial
  · exact calm_acquire r

/-- The first of the queue for a retry slot has its reservation already. -/
theorem calm_grantNextRetry (h : ∀ s ∈ w.retryQueue, (w.requests s).stage = .retryWaiting) :
    Calm w w.grantNextRetry := by
  rw [grantNextRetry]
  split
  · exact .refl _
  · next next rest hqueue =>
    have hstage := h next (by simp [hqueue])
    refine calm_update ⟨rfl, rfl, rfl, rfl, rfl, rfl⟩ rfl ⟨rfl, fun _ => ?_, fun now hq => ?_, by simp⟩
    · rw [hstage]
      trivial
    · simp only [Request.OnTime] at hq ⊢
      rw [hstage] at hq
      exact hq

theorem calm_giveBackRetry (h : ∀ s ∈ w.retryQueue, (w.requests s).stage = .retryWaiting)
    (hr : (w.requests r).stage ≠ .retryWaiting) : Calm w (w.giveBackRetry r) := by
  rw [giveBackRetry]
  split
  · have hdropped : Calm w (w.dropRetry r) :=
      calm_update ⟨rfl, rfl, rfl, rfl, rfl, rfl⟩ rfl ⟨rfl, id, fun _ => id, fun _ => id⟩
    refine hdropped.trans (calm_grantNextRetry fun s hs => ?_)
    have hstage := h s hs
    have hne : s ≠ r := by
      rintro rfl
      exact hr hstage
    have hsame : (w.dropRetry r).requests s = w.requests s := update_of_ne hne _ _
    rw [hsame]
    exact hstage
  · exact .refl _

theorem calm_finishTrial : Calm w (w.finishTrial r) := by
  rw [finishTrial]
  split
  · exact calm_update ⟨rfl, rfl, rfl, rfl, rfl, rfl⟩ rfl ⟨rfl, id, fun _ => id, fun _ => id⟩
  · exact .refl _

theorem calm_leave (h : Sound opts w) (hr : (w.requests r).stage ≠ .retryWaiting) :
    Calm w (w.leave opts r) := by
  have hqueue : ∀ s ∈ w.retryQueue, (w.requests s).stage = .retryWaiting := by
    obtain ⟨c, hkept, -⟩ := h
    exact fun s hs => (hkept.standing s).retryWaiting.mp hs
  exact (calm_giveBackRetry hqueue hr).trans
    (calm_finishTrial.trans ((calm_freeSlot r).trans (calm_drainFrom _)))

theorem calm_releasePausedWaiters : Calm w w.releasePausedWaiters := by
  rw [releasePausedWaiters]
  split
  · exact .refl _
  · refine calm ⟨rfl, rfl, rfl, rfl, rfl, rfl⟩ fun s => ?_
    simp only
    split
    · exact nudged_loose rfl trivial
    · exact .refl _

theorem calm_pauseUntil (resumeAt : ℚ) (rateLimited : Bool) :
    Calm w (w.pauseUntil resumeAt rateLimited) := by
  have hraised : Calm w
      { w with
        blockedUntil := max w.blockedUntil resumeAt,
        rateBlockedUntil :=
          if rateLimited then max w.rateBlockedUntil resumeAt else w.rateBlockedUntil } :=
    ⟨⟨le_refl _, le_max_left _ _, rfl, fun _ => .refl _⟩, rfl, rfl, rfl⟩
  exact hraised.trans calm_releasePausedWaiters

theorem blockedUntil_releasePausedWaiters : w.releasePausedWaiters.blockedUntil = w.blockedUntil := by
  rw [releasePausedWaiters]
  split
  · rfl
  · rfl

theorem blockedUntil_pauseUntil (resumeAt : ℚ) (rateLimited : Bool) :
    (w.pauseUntil resumeAt rateLimited).blockedUntil = max w.blockedUntil resumeAt :=
  blockedUntil_releasePausedWaiters

theorem calm_strike : Calm w (w.strike r) := by
  rw [strike]
  split
  all_goals exact calm_same ⟨rfl, rfl, rfl, rfl, rfl, rfl⟩ rfl

/-! ### Answers -/

/-- **What an answer advertises** is the window, and an empty one is a pause. -/
theorem quiet_observed (answer : Answer) : Quiet w (w.observed answer) ∧
    ((∀ n resetMs, ¬answer.Advertises n resetMs) → w.observed answer = w) ∧
    ∀ n resetMs, answer.Advertises n resetMs → (w.observed answer).remaining = some (max 0 n) ∧
      (w.observed answer).resetAt = some (w.now + resetMs) ∧
      (n ≤ 0 → w.now + resetMs ≤ (w.observed answer).blockedUntil) := by
  have hwindow : ∀ remaining resetAt, Quiet w (w.setWindow remaining resetAt) := fun _ _ =>
    ⟨le_refl _, le_refl _, rfl, fun _ => .refl _⟩
  rw [observed]
  cases hheaders : answer.headers with
  | none =>
    refine ⟨(Calm.refl w).1, fun _ => rfl, fun n resetMs hadv => ?_⟩
    obtain ⟨headers, hsome, -⟩ := hadv
    rw [hheaders] at hsome
    cases hsome
  | some headers =>
    simp only [Option.elim_some, observe]
    split
    · next n resetMs hn hreset =>
      have hadv : answer.Advertises n resetMs := ⟨headers, hheaders, hn, hreset⟩
      have hunique : ∀ n' resetMs', answer.Advertises n' resetMs' → n' = n ∧ resetMs' = resetMs := by
        rintro n' resetMs' ⟨headers', hsome, hn', hreset'⟩
        rw [hheaders] at hsome
        cases hsome
        rw [hn] at hn'
        rw [hreset] at hreset'
        cases hn'
        cases hreset'
        exact ⟨rfl, rfl⟩
      have hpaused := calm_pauseUntil (w := w.setWindow (max 0 n) (w.now + resetMs)) (w.now + resetMs) true
      refine ⟨?_, fun hsilent => (hsilent n resetMs hadv).elim, fun n' resetMs' hadv' => ?_⟩
      · split
        · exact (hwindow _ _).trans hpaused.1
        · exact hwindow _ _
      · obtain ⟨rfl, rfl⟩ := hunique n' resetMs' hadv'
        split
        · refine ⟨hpaused.2.remaining, hpaused.2.resetAt, fun _ => ?_⟩
          rw [blockedUntil_pauseUntil]
          exact le_max_right _ _
        · next hpos => exact ⟨rfl, rfl, fun hle => absurd (max_eq_left hle) hpos⟩
    · next hnone =>
      refine ⟨(Calm.refl w).1, fun _ => rfl, fun n resetMs hadv => ?_⟩
      obtain ⟨headers', hsome, hn, hreset⟩ := hadv
      rw [hheaders] at hsome
      cases hsome
      exact (hnone n resetMs hn hreset).elim

theorem calm_tryAgain (h : Sound opts w) (hr : (w.requests r).stage = .sending) :
    Calm w (w.tryAgain opts r) := by
  have hcounted : Calm w (w.setRequest r fun q => { q with retries := q.retries + 1 }) :=
    calm_update ⟨rfl, rfl, rfl, rfl, rfl, rfl⟩ rfl ⟨rfl, id, fun _ => id, fun _ => id⟩
  have hsound := h.setRequest (r := r) (fun q => { q with retries := q.retries + 1 })
    fun _ => ⟨rfl, rfl, rfl, rfl, rfl⟩
  have hstage : ((w.setRequest r fun q => { q with retries := q.retries + 1 }).requests r).stage ≠
      .retryWaiting := by
    simp [setRequest, hr]
  exact hcounted.trans ((calm_leave hsound hstage).trans (calm_enterLoop r))

theorem calm_onTransient (h : Sound opts w) (hr : (w.requests r).stage = .sending)
    (reply : Option (ℕ × ResponseHeaders)) (random : ℚ) :
    Calm w (w.onTransient opts r reply random) := by
  have hblocked : ∀ waitMs rateLimited, Calm w ((w.strike r).block waitMs rateLimited) :=
    fun _ _ => calm_strike.trans (calm_pauseUntil _ _)
  have hsound : ∀ waitMs rateLimited, Sound opts ((w.strike r).block waitMs rateLimited) ∧
      (((w.strike r).block waitMs rateLimited).requests r).stage = .sending := fun _ _ =>
    h.struck_block hr _ _
  simp only [onTransient]
  split
  · refine (hblocked _ _).trans (calm_leave (hsound _ _).1 ?_)
    rw [(hsound _ _).2]
    simp
  · exact (hblocked _ _).trans (calm_tryAgain (hsound _ _).1 (hsound _ _).2)

/-- An answer reserves nothing, and of the window it changes what `observe` does. -/
theorem calm_onAnswer (h : Sound opts w) (hr : (w.requests r).stage = .sending) (answer : Answer)
    (random : ℚ) : Calm (w.observed answer) (w.onAnswer opts r answer random) := by
  obtain ⟨hsound, hstage⟩ := h.observed hr answer
  have hne : ((w.observed answer).requests r).stage ≠ .retryWaiting := by
    rw [hstage]
    simp
  have hleaves : ∀ u : Host, SamePools (w.observed answer) u → SameClock (w.observed answer) u →
      u.requests = (w.observed answer).requests → Calm (w.observed answer) (u.leave opts r) := by
    intro u hpools hclock hrequests
    refine (hclock.calm_same hrequests).trans (calm_leave (hsound.frame hpools hrequests) ?_)
    rw [hrequests]
    exact hne
  cases answer with
  | response headers => exact hleaves _ ⟨rfl, rfl, rfl, rfl, rfl⟩ ⟨rfl, rfl, rfl, rfl, rfl, rfl⟩ rfl
  | failure reply transient =>
    simp only [onAnswer]
    split
    · exact calm_onTransient hsound hstage _ _
    · exact hleaves _ ⟨rfl, rfl, rfl, rfl, rfl⟩ ⟨rfl, rfl, rfl, rfl, rfl, rfl⟩ rfl

/-! ### Reservations -/

/-- The three ways to pace: outside a window, in a full window, and in one that runs low. -/
theorem pace_cases (opts : LimiterOpts) (w : Host) :
    (∃ remaining resetAt, w.pace opts = ({ w with remaining := remaining, resetAt := resetAt }, w.now) ∧
        ∀ k reset, w.remaining = some k → w.resetAt = some reset → reset ≤ w.now) ∨
      ∃ k reset, w.remaining = some k ∧ w.resetAt = some reset ∧ w.now < reset ∧
        ((opts.lowWater < k ∧ w.pace opts = ({ w with remaining := some (k - 1) }, w.now)) ∨
          (k ≤ opts.lowWater ∧ w.pace opts = w.spread k reset)) := by
  rw [pace, rollWindow]
  split
  · next hrolled =>
    refine .inl ⟨none, none, rfl, fun k reset _ hreset => ?_⟩
    simpa [hreset] using hrolled
  · next hopen =>
    rw [paceIn]
    split
    · next k reset hk hreset =>
      refine .inr ⟨k, reset, hk, hreset, by simpa [hreset] using hopen, ?_⟩
      split
      · next hfull => exact .inl ⟨hfull, rfl⟩
      · next hlow => exact .inr ⟨not_lt.mp hlow, rfl⟩
    · next hnone =>
      exact .inl ⟨w.remaining, w.resetAt, rfl, fun k reset hk hreset => (hnone k reset hk hreset).elim⟩

/-- A reservation leaves the requests, the clock, the pause and the departures as they are. -/
theorem quiet_pace (opts : LimiterOpts) (w : Host) : Quiet w (w.pace opts).1 ∧ (w.pace opts).1.now = w.now ∧
    (w.pace opts).1.requests = w.requests ∧ (w.pace opts).1.blockedUntil = w.blockedUntil := by
  have hquiet : ∀ remaining resetAt nextSlotAt, Quiet w
      { w with remaining := remaining, resetAt := resetAt, nextSlotAt := nextSlotAt } := fun _ _ _ =>
    ⟨le_refl _, le_refl _, rfl, fun _ => .refl _⟩
  rcases pace_cases opts w with ⟨_, _, hpace, -⟩ | ⟨_, _, -, -, -, ⟨-, hpace⟩ | ⟨-, hpace⟩⟩
  · rw [hpace]
    exact ⟨hquiet _ _ _, rfl, rfl, rfl⟩
  · rw [hpace]
    exact ⟨hquiet _ _ _, rfl, rfl, rfl⟩
  · rw [hpace]
    exact ⟨hquiet _ _ _, rfl, rfl, rfl⟩

theorem now_le_pace : w.now ≤ (w.pace opts).2 := by
  rcases pace_cases opts w with ⟨_, _, hpace, -⟩ | ⟨_, _, -, -, -, ⟨-, hpace⟩ | ⟨-, hpace⟩⟩
  · rw [hpace]
  · rw [hpace]
  · rw [hpace]
    exact le_max_left _ _

/-- The next slot of a window that runs low is not further away than a sleep may be. -/
def SlotWithin (opts : LimiterOpts) (w : Host) : Prop :=
  ∀ k ∈ w.remaining, ∀ reset ∈ w.resetAt, w.now < reset → (k : ℚ) ≤ opts.lowWater →
    w.nextSlotAt ≤ w.now + opts.maxWaitMs

instance (opts : LimiterOpts) (w : Host) : Decidable (SlotWithin opts w) :=
  inferInstanceAs (Decidable (∀ k ∈ w.remaining, ∀ reset ∈ w.resetAt, _ → _ → _))

theorem SlotWithin.pace (h : SlotWithin opts w) (hlater : w.now < (w.pace opts).2) :
    (w.pace opts).2 - w.now ≤ opts.maxWaitMs := by
  rcases pace_cases opts w with ⟨_, _, hpace, -⟩ | ⟨k, reset, hk, hreset, hopen, ⟨-, hpace⟩ | ⟨hlow, hpace⟩⟩
  · rw [hpace] at hlater
    exact absurd hlater (lt_irrefl _)
  · rw [hpace] at hlater
    exact absurd hlater (lt_irrefl _)
  · have hwithin := h k hk reset hreset hopen hlow
    rw [hpace, spread] at hlater ⊢
    rcases le_total w.now w.nextSlotAt with hle | hle
    · simp only [max_eq_right hle] at hlater ⊢
      linarith
    · simp only [max_eq_left hle] at hlater
      exact absurd hlater (lt_irrefl _)

/-- Where a reservation leaves its request: at its slot, asleep, or rejected. -/
theorem requests_awaitSlot (opts : LimiterOpts) (w : Host) (r : ℕ) :
    ∃ stage, (w.awaitSlot opts r).requests =
        update w.requests r { w.requests r with slot := (w.pace opts).2, stage := stage } ∧
      ((stage = .cleared ∧ (w.pace opts).2 ≤ w.now) ∨ stage = .rejected ∨
        (stage = .paced (w.now + min ((w.pace opts).2 - w.now) opts.maxWaitMs) ∧
          w.now < (w.pace opts).2)) := by
  obtain ⟨-, hnow, hrequests, -⟩ := quiet_pace opts w
  have hset : ∀ stage, (((w.pace opts).1.setRequest r fun q =>
      { q with slot := (w.pace opts).2 }).setStage r stage).requests =
        update w.requests r { w.requests r with slot := (w.pace opts).2, stage := stage } := by
    intro stage
    simp only [setStage, setRequest, update_self, update_idem, hrequests]
  simp only [awaitSlot]
  split
  · next hlater =>
    split
    · exact ⟨.rejected, hset _, .inr (.inl rfl)⟩
    · refine ⟨_, hset _, .inr (.inr ⟨?_, ?_⟩)⟩
      · simp only [setRequest, hnow]
      · simpa [setRequest, hnow] using hlater
  · next hdue =>
    refine ⟨.cleared, hset _, .inl ⟨rfl, ?_⟩⟩
    simpa [setRequest, hnow] using hdue

theorem clock_awaitSlot (opts : LimiterOpts) (w : Host) (r : ℕ) : (w.awaitSlot opts r).now = w.now ∧
    (w.awaitSlot opts r).blockedUntil = w.blockedUntil ∧
    (w.awaitSlot opts r).departures = w.departures ∧
    SameWindow (w.pace opts).1 (w.awaitSlot opts r) := by
  obtain ⟨hquiet, hnow, -, hblocked⟩ := quiet_pace opts w
  have hdepartures := hquiet.departures
  simp only [awaitSlot]
  generalize pace opts w = paced at hnow hblocked hdepartures
  split
  · split
    · exact ⟨hnow, hblocked, hdepartures, rfl, rfl, rfl⟩
    · exact ⟨hnow, hblocked, hdepartures, rfl, rfl, rfl⟩
  · exact ⟨hnow, hblocked, hdepartures, rfl, rfl, rfl⟩

/-! ### What a step does to the reservations -/

/-- The slot of a reservation that the step makes is within a sleep. -/
def KeepsSlot (opts : LimiterOpts) (w : Host) : LimiterAct → Prop
  | .wake r => (w.requests r).stage.isPaused = true → SlotWithin opts w
  | .resume r _ => (w.requests r).stage = .entered → (w.requests r).aborted = false →
      w.blockedUntil ≤ w.now → SlotWithin opts w
  | _ => True

instance (opts : LimiterOpts) (w : Host) : ∀ a, Decidable (KeepsSlot opts w a)
  | .wake r => inferInstanceAs (Decidable ((w.requests r).stage.isPaused = true → SlotWithin opts w))
  | .resume r _ => inferInstanceAs (Decidable ((w.requests r).stage = .entered →
      (w.requests r).aborted = false → w.blockedUntil ≤ w.now → SlotWithin opts w))
  | .start .. | .abort _ | .cancel _ | .answer .. | .tick _ => isTrue trivial

/-- A step moves at most one request over the gate. -/
inductive Moved (opts : LimiterOpts) (w : Host) : Host → Prop
  | calm {w' : Host} (h : Calm w w') : Moved opts w w'
  | paused (r : ℕ) (wakeAt : ℚ) (h : w.blockedUntil ≤ wakeAt) :
    Moved opts w (w.setStage r (.paused wakeAt))
  | reserved (r : ℕ) (hwithin : SlotWithin opts w)
    (h : w.blockedUntil ≤ w.now ∨
      ∃ wakeAt, (w.requests r).stage = .paused wakeAt ∧ wakeAt ≤ w.now) :
    Moved opts w (w.awaitSlot opts r)
  | cleared (r : ℕ) (wakeAt : ℚ) (hstage : (w.requests r).stage = .paced wakeAt)
    (h : wakeAt ≤ w.now) : Moved opts w (w.setStage r .cleared)
  | sent {u : Host} (r : ℕ) (hcalm : Calm w u) (hnow : u.now = w.now)
    (hstage : (u.requests r).stage = .cleared ∨ (u.requests r).stage = .retryGranted) :
    Moved opts w (u.send r)

theorem moved_gate {random : ℚ} (hrandom : IsRandom random)
    (hkeeps : (w.requests r).aborted = false → w.blockedUntil ≤ w.now → SlotWithin opts w) :
    Moved opts w (w.gate opts r random) := by
  simp only [gate]
  split
  · exact .calm (calm_setStage r .rejected trivial)
  · next halive =>
    split
    · next hblocked =>
      split
      · exact .calm (calm_setStage r .rejected trivial)
      · -- the jitter is not negative, so the pause is slept out
        refine .paused r _ ?_
        have hleft : 0 ≤ w.blockedUntil - w.now := by linarith
        have hspan : 0 ≤ random * min 1000 ((w.blockedUntil - w.now) * (1 / 5) + 100) :=
          mul_nonneg hrandom.1 (le_min (by norm_num) (by linarith))
        have hjitter : (0 : ℚ) ≤ round (random * min 1000 ((w.blockedUntil - w.now) * (1 / 5) + 100)) := by
          exact_mod_cast Int.floor_nonneg.mpr (by linarith)
        linarith
    · next hclear =>
      have hfree := not_lt.mp hclear
      exact .reserved r (hkeeps (by simpa using halive) hfree) (.inl hfree)

theorem calm_beginTrial : Calm w (w.beginTrial r) ∧ (w.beginTrial r).now = w.now := by
  rw [beginTrial]
  split
  · exact ⟨calm_update ⟨rfl, rfl, rfl, rfl, rfl, rfl⟩ rfl
      ⟨rfl, id, fun _ => id, fun _ => id⟩, rfl⟩
  · exact ⟨.refl _, rfl⟩

/-- At the gate's end a reservation is kept: it waits for a retry slot or leaves. -/
theorem moved_afterGate (hr : (w.requests r).stage = .cleared) : Moved opts w (w.afterGate opts r) := by
  rw [afterGate]
  split
  · exact .calm (calm_setStage r (.behindTrial _) trivial)
  · have hbegun := calm_beginTrial (w := w) (r := r)
    have hstage : ((w.beginTrial r).requests r).stage = .cleared := request_beginTrial.1.trans hr
    simp only
    split
    · have hkept : ∀ q' : Request, q'.slot = ((w.beginTrial r).requests r).slot →
          q'.stage = .retryGranted ∨ q'.stage = .retryWaiting →
          Nudged ((w.beginTrial r).requests r) q' := by
        intro q' hslot hq
        refine ⟨hslot, fun _ => by rw [hstage]; trivial, fun now hon => ?_, fun wakeAt hp => ?_⟩
        · simp only [Request.OnTime, hstage] at hon
          rcases hq with hq | hq
          · simpa only [Request.OnTime, hq, hslot] using hon
          · simpa only [Request.OnTime, hq, hslot] using hon
        · rcases hq with hq | hq
          · rw [hq] at hp
            cases hp
          · rw [hq] at hp
            cases hp
      rw [retrySlot]
      split
      · exact .calm (hbegun.1.trans (calm_setStage r .rejected trivial))
      · split
        · exact .calm (hbegun.1.trans (calm_update ⟨rfl, rfl, rfl, rfl, rfl, rfl⟩ rfl
            (hkept _ rfl (.inl rfl))))
        · exact .calm (hbegun.1.trans (calm_update ⟨rfl, rfl, rfl, rfl, rfl, rfl⟩ rfl
            (hkept _ rfl (.inr rfl))))
    · exact .sent r hbegun.1 hbegun.2 (.inl hstage)

theorem moved_resume (h : Sound opts w) {random : ℚ} (hrandom : IsRandom random)
    (hkeeps : KeepsSlot opts w (.resume r random)) (hstep : w.resume opts r random = some w') :
    Moved opts w w' := by
  rw [resume] at hstep
  split at hstep
  · next hr =>
    obtain ⟨⟩ := hstep
    exact moved_gate hrandom (hkeeps hr)
  · next hr =>
    obtain ⟨⟩ := hstep
    exact moved_afterGate hr
  · next hr =>
    split at hstep
    · cases hstep
    · obtain ⟨⟩ := hstep
      exact .calm ((calm_leave h (by simp [hr])).trans (calm_enterLoop r))
  · next hr =>
    obtain ⟨⟩ := hstep
    exact .sent r (.refl w) rfl (.inr hr)
  · next hr =>
    obtain ⟨⟩ := hstep
    exact .calm (calm_leave h (by simp [hr]))
  · cases hstep

theorem moved_wake (hkeeps : KeepsSlot opts w (.wake r)) (hstep : w.wake opts r = some w') :
    Moved opts w w' := by
  rw [wake] at hstep
  split at hstep
  · next wakeAt hr =>
    split at hstep
    · next hdue =>
      obtain ⟨⟩ := hstep
      exact .reserved r (hkeeps (by rw [hr]; rfl)) (.inr ⟨wakeAt, hr, hdue⟩)
    · cases hstep
  · next wakeAt hr =>
    split at hstep
    · next hdue =>
      obtain ⟨⟩ := hstep
      exact .cleared r wakeAt hr hdue
    · cases hstep
  · cases hstep

theorem calm_cancel (hstep : w.cancel r = some w') : Calm w w' := by
  rw [cancel] at hstep
  split at hstep
  · split at hstep
    · obtain ⟨⟩ := hstep
      exact calm_update ⟨rfl, rfl, rfl, rfl, rfl, rfl⟩ rfl (nudged_loose rfl trivial)
    · obtain ⟨⟩ := hstep
      exact calm_setStage r .rejected trivial
    · obtain ⟨⟩ := hstep
      exact calm_setStage r .rejected trivial
    · obtain ⟨⟩ := hstep
      exact calm_update ⟨rfl, rfl, rfl, rfl, rfl, rfl⟩ rfl (nudged_loose rfl trivial)
    · cases hstep
  · cases hstep

/-- Every request but the answered ones moves as `Moved` says, and an answer that advertises a window
moves no request. -/
theorem moved_step (h : Sound opts w) {a : LimiterAct} (hkeeps : KeepsSlot opts w a)
    (hstep : w.step opts a = some w') : Moved opts w w' ∨ (¬a.Silent ∧ Quiet w w') := by
  cases a with
  | start r singleAttempt signalled maxRetries =>
    simp only [step] at hstep
    split at hstep
    · obtain ⟨⟩ := hstep
      have hset : Calm w (w.setRequest r fun q =>
          { q with
            singleAttempt := singleAttempt,
            signalled := signalled,
            maxRetries := if singleAttempt then 0 else min opts.maxRetries maxRetries,
            deadline := w.now + opts.maxTotalMs }) :=
        calm_update ⟨rfl, rfl, rfl, rfl, rfl, rfl⟩ rfl ⟨rfl, id, fun _ => id, fun _ => id⟩
      exact .inl (.calm (hset.trans (calm_enterLoop r)))
    · cases hstep
  | abort r =>
    simp only [step] at hstep
    split at hstep
    · obtain ⟨⟩ := hstep
      exact .inl (.calm (calm_update ⟨rfl, rfl, rfl, rfl, rfl, rfl⟩ rfl
        ⟨rfl, id, fun _ => id, fun _ => id⟩))
    · cases hstep
  | cancel r => exact .inl (.calm (calm_cancel hstep))
  | wake r => exact .inl (moved_wake hkeeps hstep)
  | resume r random =>
    simp only [step] at hstep
    split at hstep
    · next hrandom => exact .inl (moved_resume h hrandom hkeeps hstep)
    · cases hstep
  | answer r answer random =>
    simp only [step] at hstep
    split at hstep
    · next hr =>
      obtain ⟨⟩ := hstep
      have hcalm := calm_onAnswer h hr.2 answer random
      obtain ⟨hquiet, hsame, -⟩ := quiet_observed (w := w) answer
      by_cases hsilent : ∀ n resetMs, ¬answer.Advertises n resetMs
      · rw [hsame hsilent] at hcalm
        exact .inl (.calm hcalm)
      · exact .inr ⟨hsilent, hquiet.trans hcalm.1⟩
    · cases hstep
  | tick ms =>
    simp only [step] at hstep
    split at hstep
    · next hms =>
      obtain ⟨⟩ := hstep
      exact .inl (.calm ⟨⟨by simpa using hms, le_refl _, rfl, fun _ => .refl _⟩, rfl, rfl, rfl⟩)
    · cases hstep

/-! ### Every request leaves at its slot -/

theorem onTime_mono {q : Request} {now now' : ℚ} (h : q.OnTime now) (hle : now ≤ now') :
    q.OnTime now' := by
  simp only [Request.OnTime] at h ⊢
  split at h
  · exact h
  · exact h.trans hle
  · exact h.trans hle
  · exact h.trans hle
  · trivial

structure Timely (w : Host) : Prop where
  requests : ∀ s, (w.requests s).OnTime w.now
  departures : ∀ d ∈ w.departures, d.slot ≤ d.leftAt

theorem Timely.quiet (h : Timely w) (hquiet : Quiet w w') : Timely w' where
  requests s := onTime_mono ((hquiet.nudged s).onTime _ (h.requests s)) hquiet.now
  departures := by
    rw [hquiet.departures]
    exact h.departures

/-- One request moves. -/
theorem Timely.update (h : Timely w) {q' : Request}
    (hrequests : w'.requests = update w.requests r q') (hnow : w'.now = w.now)
    (hr : q'.OnTime w.now) (hdepartures : ∀ d ∈ w'.departures, d.slot ≤ d.leftAt) : Timely w' where
  requests s := by
    rw [hrequests, hnow]
    by_cases hs : s = r
    · subst hs
      rw [update_self]
      exact hr
    · rw [update_of_ne hs]
      exact h.requests s
  departures := hdepartures

theorem Timely.moved (h : Timely w) (hmoved : Moved opts w w') : Timely w' := by
  cases hmoved with
  | calm hcalm => exact h.quiet hcalm.1
  | paused r wakeAt hblocked => exact h.update rfl rfl trivial h.departures
  | reserved r hwithin hdue =>
    obtain ⟨hnow, -, hdepartures, -⟩ := clock_awaitSlot opts w r
    obtain ⟨stage, hrequests, hstage⟩ := requests_awaitSlot opts w r
    refine h.update hrequests hnow ?_ (by rw [hdepartures]; exact h.departures)
    simp only [Request.OnTime]
    rcases hstage with ⟨rfl, hdue⟩ | rfl | ⟨rfl, hlater⟩
    · exact hdue
    · trivial
    · -- the sleep is not cut off, so it ends at the slot
      rw [min_eq_left (hwithin.pace hlater)]
      exact (add_sub_cancel _ _).ge
  | cleared r wakeAt hstage hdue =>
    refine h.update rfl rfl ?_ h.departures
    have hr := h.requests r
    simp only [Request.OnTime, hstage] at hr
    exact hr.trans hdue
  | @sent u r hcalm hnow hstage =>
    have hu := h.quiet hcalm.1
    refine hu.update rfl rfl trivial fun d hd => ?_
    rcases List.mem_append.mp hd with hd | hd
    · exact hu.departures d hd
    · rw [List.mem_singleton] at hd
      subst hd
      have hr := hu.requests r
      simp only [Request.OnTime] at hr
      rcases hstage with hs | hs
      · rw [hs] at hr
        exact hr
      · rw [hs] at hr
        exact hr

theorem timely_fresh (now : ℚ) : Timely (fresh now) :=
  ⟨fun _ => trivial, fun _ hd => absurd hd List.not_mem_nil⟩

/-! ### The budget -/

/-- How many of the departures are before `reset`. -/
def leftBefore (reset : ℚ) (departures : List Departure) : ℕ :=
  departures.countP fun d => d.leftAt < reset

/-- While the window is open: the departures before `reset`, the reservations and the rest of the window
are within `n`, and once the rest is nothing the next slot, or the pause, is at `reset` or later. -/
structure Open (reset : ℚ) (n : ℕ) (left reservations : ℕ) (w : Host) (k : ℤ) : Prop where
  remaining : w.remaining = some k
  resetAt : w.resetAt = some reset
  nonneg : 0 ≤ k
  within : left + reservations + k ≤ n
  empty : k = 0 → reset ≤ w.nextSlotAt ∨ (reset ≤ w.blockedUntil ∧
    ∀ s wakeAt, (w.requests s).stage = .paused wakeAt → reset ≤ wakeAt)

/-- The budget of a window after the departures `base`: `holders` are the requests that may leave before
`reset`. -/
structure Budget (reset : ℚ) (n : ℕ) (base later : List Departure) (holders : Finset ℕ) (w : Host) :
    Prop where
  departures : w.departures = base ++ later
  reserved : ∀ s, (w.requests s).stage.Reserved → (w.requests s).slot < reset → s ∈ holders
  left : leftBefore reset later ≤ n
  isOpen : w.now < reset → ∃ k, Open reset n (leftBefore reset later) holders.card w k

section
variable {reset : ℚ} {n : ℕ} {base later : List Departure} {holders : Finset ℕ}

theorem Budget.calm (h : Budget reset n base later holders w) (hcalm : Calm w w') :
    Budget reset n base later holders w' where
  departures := hcalm.1.departures.trans h.departures
  reserved s hs hslot := by
    have hnudged := hcalm.1.nudged s
    rw [hnudged.slot] at hslot
    exact h.reserved s (hnudged.reserved hs) hslot
  left := h.left
  isOpen hlt := by
    obtain ⟨k, hopen⟩ := h.isOpen (hcalm.1.now.trans_lt hlt)
    refine ⟨k, hcalm.2.remaining.trans hopen.remaining, hcalm.2.resetAt.trans hopen.resetAt,
      hopen.nonneg, hopen.within, fun hk => ?_⟩
    rcases hopen.empty hk with hnext | ⟨hblocked, hpaused⟩
    · exact .inl (hcalm.2.nextSlotAt ▸ hnext)
    · exact .inr ⟨hblocked.trans hcalm.1.blocked, fun s wakeAt hs =>
        hpaused s wakeAt ((hcalm.1.nudged s).paused wakeAt hs)⟩

/-- The stage of one request changes; nothing else does. -/
theorem Budget.setStage (h : Budget reset n base later holders w) {stage : Stage}
    (hreserved : stage.Reserved → (w.requests r).stage.Reserved)
    (hpaused : ∀ wakeAt, stage = .paused wakeAt → w.blockedUntil ≤ wakeAt) :
    Budget reset n base later holders (w.setStage r stage) where
  departures := h.departures
  reserved s hs hslot := by
    by_cases hsr : s = r
    · subst hsr
      simp only [Host.setStage, setRequest, update_self] at hs hslot
      exact h.reserved s (hreserved hs) hslot
    · simp only [Host.setStage, setRequest, update_of_ne hsr] at hs hslot
      exact h.reserved s hs hslot
  left := h.left
  isOpen hlt := by
    obtain ⟨k, hopen⟩ := h.isOpen hlt
    refine ⟨k, hopen.remaining, hopen.resetAt, hopen.nonneg, hopen.within, fun hk => ?_⟩
    rcases hopen.empty hk with hnext | ⟨hblocked, hothers⟩
    · exact .inl hnext
    · refine .inr ⟨hblocked, fun s wakeAt hs => ?_⟩
      by_cases hsr : s = r
      · subst hsr
        simp only [Host.setStage, setRequest, update_self] at hs
        exact hblocked.trans (hpaused wakeAt hs)
      · simp only [Host.setStage, setRequest, update_of_ne hsr] at hs
        exact hothers s wakeAt hs

theorem leftBefore_append (departures : List Departure) (d : Departure) :
    leftBefore reset (departures ++ [d]) =
      leftBefore reset departures + if d.leftAt < reset then 1 else 0 := by
  simp [leftBefore, List.countP_append, List.countP_singleton]

/-- **A departure** uses its reservation up, where it is before `reset`. -/
theorem Budget.send (h : Budget reset n base later holders w) (htimely : Timely w)
    (hstage : (w.requests r).stage = .cleared ∨ (w.requests r).stage = .retryGranted) :
    ∃ later' holders', Budget reset n base later' holders' (w.send r) := by
  have hslot : (w.requests r).slot ≤ w.now := by
    have hr := htimely.requests r
    simp only [Request.OnTime] at hr
    rcases hstage with hs | hs
    · rw [hs] at hr
      exact hr
    · rw [hs] at hr
      exact hr
  have hisReserved : (w.requests r).stage.Reserved := by
    rcases hstage with hs | hs
    · rw [hs]
      trivial
    · rw [hs]
      trivial
  have hothers : ∀ s, ((w.send r).requests s).stage.Reserved → ((w.send r).requests s).slot < reset →
      s ∈ holders.erase r := by
    intro s hs hlt
    by_cases hsr : s = r
    · subst hsr
      simp only [Host.send, setRequest, update_self] at hs
      exact hs.elim
    · simp only [Host.send, setRequest, update_of_ne hsr] at hs hlt
      exact Finset.mem_erase.mpr ⟨hsr, h.reserved s hs hlt⟩
  refine ⟨later ++ [⟨w.now, (w.requests r).slot⟩], holders.erase r, ?_, hothers, ?_, ?_⟩
  · rw [← List.append_assoc, ← h.departures]
    rfl
  · rw [leftBefore_append]
    split
    · next hlt =>
      obtain ⟨k, hopen⟩ := h.isOpen hlt
      have hmem := h.reserved r hisReserved (hslot.trans_lt hlt)
      have hcard := Finset.card_pos.mpr ⟨r, hmem⟩
      have hwithin := hopen.within
      have hnonneg := hopen.nonneg
      omega
    · exact h.left
  · intro (hlt : w.now < reset)
    obtain ⟨k, hopen⟩ := h.isOpen hlt
    have hmem := h.reserved r hisReserved (hslot.trans_lt hlt)
    have hcard := Finset.card_erase_of_mem hmem
    have hpos := Finset.card_pos.mpr ⟨r, hmem⟩
    refine ⟨k, hopen.remaining, hopen.resetAt, hopen.nonneg, ?_, fun hk => ?_⟩
    · have hwithin := hopen.within
      rw [leftBefore_append, if_pos hlt, hcard]
      omega
    · refine (hopen.empty hk).imp id fun hblocked => ⟨hblocked.1, fun s wakeAt hs => ?_⟩
      by_cases hsr : s = r
      · subst hsr
        simp only [Host.send, setRequest, update_self] at hs
        cases hs
      · simp only [Host.send, setRequest, update_of_ne hsr] at hs
        exact hblocked.2 s wakeAt hs

/-- **A reservation** in the window takes one from its rest; one beyond the window takes nothing. -/
theorem Budget.awaitSlot (h : Budget reset n base later holders w) (hlow : 1 ≤ opts.lowWater)
    (hdue : w.blockedUntil ≤ w.now ∨
      ∃ wakeAt, (w.requests r).stage = .paused wakeAt ∧ wakeAt ≤ w.now) :
    ∃ holders', Budget reset n base later holders' (w.awaitSlot opts r) := by
  obtain ⟨hnow, hblocked, hdepartures, hwindow⟩ := clock_awaitSlot opts w r
  obtain ⟨stage, hrequests, hstage⟩ := requests_awaitSlot opts w r
  have hothers : ∀ s, s ≠ r → ((w.awaitSlot opts r).requests s) = w.requests s := fun s hs => by
    rw [hrequests, update_of_ne hs]
  have hself : ((w.awaitSlot opts r).requests r).slot = (w.pace opts).2 := by
    rw [hrequests, update_self]
  have hnotPaused : ∀ wakeAt, ((w.awaitSlot opts r).requests r).stage ≠ .paused wakeAt := by
    rw [hrequests, update_self]
    rcases hstage with ⟨rfl, -⟩ | rfl | ⟨rfl, -⟩
    · simp
    · simp
    · simp
  -- with enough holders it is enough to look at the window
  have hplaced : ∀ holders' : Finset ℕ, holders ⊆ holders' →
      ((w.pace opts).2 < reset → r ∈ holders') →
      (w.now < reset → ∃ k, Open reset n (leftBefore reset later) holders'.card
        (w.awaitSlot opts r) k) → Budget reset n base later holders' (w.awaitSlot opts r) := by
    intro holders' hsub hmem hopen
    refine ⟨hdepartures.trans h.departures, fun s hs hslot => ?_, h.left, by rw [hnow]; exact hopen⟩
    by_cases hsr : s = r
    · subst hsr
      exact hmem (hself ▸ hslot)
    · rw [hothers s hsr] at hs hslot
      exact hsub (h.reserved s hs hslot)
  rcases lt_or_ge w.now reset with hlt | hle
  · obtain ⟨k, hopen⟩ := h.isOpen hlt
    have hwithin := hopen.within
    have hnonneg := hopen.nonneg
    -- an empty window was left by the pause or has its next slot at the reset
    have hempty : k = 0 → reset ≤ w.nextSlotAt := by
      intro hk
      rcases hopen.empty hk with hnext | ⟨hpause, hpaused⟩
      · exact hnext
      · rcases hdue with hfree | ⟨wakeAt, hs, hwake⟩
        · exact absurd (hpause.trans hfree) (not_le.mpr hlt)
        · exact absurd ((hpaused r wakeAt hs).trans hwake) (not_le.mpr hlt)
    rcases pace_cases opts w with ⟨_, _, -, hclosed⟩ |
        ⟨k', reset', hk', hreset', -, ⟨hfull, hpace⟩ | ⟨hrest, hpace⟩⟩
    · exact absurd (hclosed k reset hopen.remaining hopen.resetAt) (not_le.mpr hlt)
    · obtain rfl := Option.some.inj (hk'.symm.trans hopen.remaining)
      have htwo : (2 : ℤ) ≤ k' := by
        have hgt : (1 : ℚ) < k' := hlow.trans_lt hfull
        exact_mod_cast hgt
      refine ⟨insert r holders, hplaced _ (Finset.subset_insert r _)
        (fun _ => Finset.mem_insert_self r _) fun _ => ⟨k' - 1, ?_, ?_, by omega, ?_, by omega⟩⟩
      · rw [hwindow.remaining, hpace]
      · rw [hwindow.resetAt, hpace]
        exact hopen.resetAt
      · have hcard := Finset.card_insert_le r holders
        omega
    · obtain rfl := Option.some.inj (hk'.symm.trans hopen.remaining)
      obtain rfl := Option.some.inj (hreset'.symm.trans hopen.resetAt)
      have hspan : 0 < reset' - w.now := by linarith
      have hremaining : (w.awaitSlot opts r).remaining = some (max 0 (k' - 1)) := by
        rw [hwindow.remaining, hpace]
        rfl
      have hresetAt : (w.awaitSlot opts r).resetAt = some reset' := by
        rw [hwindow.resetAt, hpace]
        exact hopen.resetAt
      have hnext : (w.awaitSlot opts r).nextSlotAt =
          max w.now w.nextSlotAt + (reset' - w.now) / max 1 k' := by
        rw [hwindow.nextSlotAt, hpace]
        rfl
      have hslot : (w.pace opts).2 = max w.now w.nextSlotAt := by
        rw [hpace]
        rfl
      by_cases hk : k' = 0
      · have hbeyond := hempty hk
        refine ⟨holders, hplaced _ (Finset.Subset.refl _) (fun hs => ?_) fun _ =>
          ⟨0, ?_, hresetAt, le_refl _, by omega, fun _ => .inl ?_⟩⟩
        · rw [hslot] at hs
          exact absurd ((le_max_right _ _).trans_lt hs) (not_lt.mpr hbeyond)
        · rw [hremaining, hk]
          rfl
        · rw [hnext, hk]
          have hmax := le_max_right w.now w.nextSlotAt
          norm_num
          linarith
      · refine ⟨insert r holders, hplaced _ (Finset.subset_insert r _)
          (fun _ => Finset.mem_insert_self r _) fun _ => ⟨k' - 1, ?_, hresetAt, by omega, ?_, ?_⟩⟩
        · rw [hremaining, max_eq_right (by omega)]
        · have hcard := Finset.card_insert_le r holders
          omega
        · intro hlast
          obtain rfl : k' = 1 := by omega
          refine .inl ?_
          rw [hnext]
          have hmax := le_max_left w.now w.nextSlotAt
          norm_num
          linarith
  · refine ⟨holders, hplaced _ (Finset.Subset.refl _) (fun hs => ?_) fun hlt => ?_⟩
    · exact absurd (now_le_pace.trans_lt hs) (not_lt.mpr hle)
    · exact absurd hlt (not_lt.mpr hle)

theorem Budget.moved (h : Budget reset n base later holders w) (htimely : Timely w)
    (hlow : 1 ≤ opts.lowWater) (hmoved : Moved opts w w') :
    ∃ later' holders', Budget reset n base later' holders' w' := by
  cases hmoved with
  | calm hcalm => exact ⟨later, holders, h.calm hcalm⟩
  | paused r wakeAt hblocked =>
    exact ⟨later, holders, h.setStage (fun hs => hs.elim) fun wakeAt' hs => by
      cases hs
      exact hblocked⟩
  | reserved r hwithin hdue =>
    obtain ⟨holders', h'⟩ := h.awaitSlot hlow hdue
    exact ⟨later, holders', h'⟩
  | cleared r wakeAt hstage hdue =>
    exact ⟨later, holders, h.setStage (fun _ => by rw [hstage]; trivial) nofun⟩
  | sent r hcalm hnow hstage => exact (h.calm hcalm).send (htimely.quiet hcalm.1) hstage

end

/-! ### Runs -/

/-- An answer with `n` requests until `reset` finds no request between the gate and its send, and where
`n` is nothing none that sleeps out a pause which ends before `reset`. -/
structure Counted (w : Host) (n : ℤ) (reset : ℚ) : Prop where
  reserved : ∀ s, ¬(w.requests s).stage.Reserved
  paused : n ≤ 0 → ∀ s wakeAt, (w.requests s).stage = .paused wakeAt → reset ≤ wakeAt

/-- From `w` to `w'` at most `n` requests left before `reset`, and none left before its slot. -/
def BudgetKept (w w' : Host) (n : ℤ) (reset : ℚ) : Prop :=
  ∃ later, w'.departures = w.departures ++ later ∧ leftBefore reset later ≤ n.toNat ∧
    ∀ d ∈ w'.departures, d.slot ≤ d.leftAt

/-- The budget that an answer opens. -/
theorem budget_of_answer (h : Sound opts w) {answer : Answer} {random : ℚ}
    (hstep : w.step opts (.answer r answer random) = some w') {n : ℤ} {resetMs : ℚ}
    (hadvertised : answer.Advertises n resetMs) (hcounted : Counted w n (w.now + resetMs)) :
    Budget (w.now + resetMs) n.toNat w'.departures [] ∅ w' := by
  simp only [step] at hstep
  split at hstep
  · next hr =>
    obtain ⟨⟩ := hstep
    have hcalm := calm_onAnswer h hr.2 answer random
    obtain ⟨hquiet, -, hobserved⟩ := quiet_observed (w := w) answer
    obtain ⟨hremaining, hresetAt, hblocked⟩ := hobserved n resetMs hadvertised
    have hnudged := (hquiet.trans hcalm.1).nudged
    refine ⟨(List.append_nil _).symm, fun s hs _ => ?_, Nat.zero_le _, fun _ => ⟨max 0 n, ?_⟩⟩
    · exact (hcounted.reserved s ((hnudged s).reserved hs)).elim
    · refine ⟨hcalm.2.remaining.trans hremaining, hcalm.2.resetAt.trans hresetAt, le_max_left _ _, ?_,
        fun hk => .inr ⟨?_, fun s wakeAt hs => ?_⟩⟩
      · simp only [leftBefore, List.countP_nil, Finset.card_empty]
        omega
      · exact (hblocked (by omega)).trans hcalm.1.blocked
      · exact hcounted.paused (by omega) s wakeAt ((hnudged s).paused wakeAt hs)
  · cases hstep

theorem Timely.step (h : Timely w) (hsound : Sound opts w) {a : LimiterAct}
    (hkeeps : KeepsSlot opts w a) (hstep : w.step opts a = some w') : Timely w' := by
  rcases moved_step hsound hkeeps hstep with hmoved | ⟨-, hquiet⟩
  · exact h.moved hmoved
  · exact h.quiet hquiet

/-- **The budget of a window is kept.** After an answer with `n` requests until `R`, with no newer one,
at most `n` requests leave before `R`, and every request leaves at its slot or later: where pacing starts
with one request left at the latest, the answer finds every request counted, and no slot is further away
than a sleep may be. -/
theorem budget_kept {now : ℚ} {as bs : List LimiterAct} {w₁ w₂ : Host} {answer : Answer} {random : ℚ}
    {n : ℤ} {resetMs : ℚ} (hbefore : run (step opts) (fresh now) as = some w)
    (hanswer : w.step opts (.answer r answer random) = some w₁)
    (hadvertised : answer.Advertises n resetMs)
    (hafter : run (step opts) w₁ bs = some w₂) (hsilent : ∀ b ∈ bs, b.Silent)
    (hlow : 1 ≤ opts.lowWater) (hcounted : Counted w n (w.now + resetMs))
    (hkeeps : Transition.Under (KeepsSlot opts) (step opts) (fresh now)
      (as ++ .answer r answer random :: bs)) :
    BudgetKept w₁ w₂ n (w.now + resetMs) := by
  have hstep : ∀ (s : Host) (a : LimiterAct) (t : Host), Sound opts s ∧ Timely s →
      KeepsSlot opts s a → s.step opts a = some t → Sound opts t ∧ Timely t :=
    fun s a t h hG ht => ⟨h.1.step ht, h.2.step h.1 hG ht⟩
  have hfirst : Transition.Under (KeepsSlot opts) (step opts) (fresh now) as := hkeeps.left
  obtain ⟨hsound, htimely⟩ := run_invariant_of_under hstep
    ⟨sound_fresh opts now, timely_fresh now⟩ hfirst hbefore
  have hrest := hkeeps.append hbefore
  obtain ⟨hsound₁, htimely₁⟩ := hstep w _ w₁ ⟨hsound, htimely⟩ hrest.1 hanswer
  have hbudget := budget_of_answer hsound hanswer hadvertised hcounted
  have hguard : Transition.Under (fun s a => KeepsSlot opts s a ∧ a.Silent) (step opts) w₁ bs :=
    (hrest.2 w₁ hanswer).and (under_of_forall_mem hsilent)
  obtain ⟨-, htimely₂, later, holders, hbudget₂⟩ := run_invariant_of_under
    (I := fun s => Sound opts s ∧ Timely s ∧ ∃ later holders,
      Budget (w.now + resetMs) n.toNat w₁.departures later holders s)
    (fun s a t h hG ht => by
      obtain ⟨hs, htime, later, holders, hb⟩ := h
      refine ⟨hs.step ht, htime.step hs hG.1 ht, ?_⟩
      rcases moved_step hs hG.1 ht with hmoved | ⟨hloud, -⟩
      · exact hb.moved htime hlow hmoved
      · exact (hloud hG.2).elim)
    ⟨hsound₁, htimely₁, [], ∅, hbudget⟩ hguard hafter
  exact ⟨later, hbudget₂.departures, hbudget₂.left, htimely₂.departures⟩

/-- One request, sent. -/
private def firstSend : List LimiterAct := [.start 0 false false 3, .resume 0 0, .resume 0 0]

/-- An answer with `n` requests until `resetMs`. -/
private def advertising (n : ℤ) (resetMs : ℚ) : Answer := .response ⟨some n, some resetMs, none⟩

/-- Two more requests, the second of which sleeps `ms`. -/
private def twoMore (ms : ℚ) : List LimiterAct :=
  [.start 1 false false 3, .resume 1 0, .resume 1 0, .start 2 false false 3, .resume 2 0, .tick ms,
    .wake 2, .resume 2 0]

private theorem silent_twoMore (ms : ℚ) : ∀ b ∈ twoMore ms, b.Silent := by
  simp [twoMore, LimiterAct.Silent]

private theorem advertises_advertising (n : ℤ) (resetMs : ℚ) :
    (advertising n resetMs).Advertises n resetMs := ⟨_, rfl, rfl, rfl⟩

private theorem isSome_firstSend :
    (run (step EXPLORER_RATE_LIMIT_DEFAULTS) (fresh 0) firstSend).isSome := by
  decide

private def sentHost : Host :=
  (run (step EXPLORER_RATE_LIMIT_DEFAULTS) (fresh 0) firstSend).get isSome_firstSend

private theorem isSome_answered (n : ℤ) (resetMs : ℚ) :
    (sentHost.step EXPLORER_RATE_LIMIT_DEFAULTS (.answer 0 (advertising n resetMs) 0)).isSome := by
  have hsending : (sentHost.requests 0).stage = .sending := by decide
  simp [step, hsending, IsRandom]

private def answeredHost (n : ℤ) (resetMs : ℚ) : Host :=
  (sentHost.step EXPLORER_RATE_LIMIT_DEFAULTS (.answer 0 (advertising n resetMs) 0)).get
    (isSome_answered n resetMs)

private theorem run_firstSend : run (step EXPLORER_RATE_LIMIT_DEFAULTS) (fresh 0) firstSend =
    some sentHost :=
  (Option.some_get isSome_firstSend).symm

private theorem step_answered (n : ℤ) (resetMs : ℚ) :
    sentHost.step EXPLORER_RATE_LIMIT_DEFAULTS (.answer 0 (advertising n resetMs) 0) =
      some (answeredHost n resetMs) :=
  (Option.some_get (isSome_answered n resetMs)).symm

/-- The one request is at its send. -/
private theorem counted_sentHost (n : ℤ) (reset : ℚ) : Counted sentHost n reset := by
  have hsound : Sound EXPLORER_RATE_LIMIT_DEFAULTS sentHost :=
    run_invariant (fun _ _ _ h hstep => h.step hstep)
      (sound_fresh EXPLORER_RATE_LIMIT_DEFAULTS 0) run_firstSend
  have hsending : (sentHost.requests 0).stage = .sending := by decide
  have hzero : ∀ s, (sentHost.requests s).stage.holdsSlot = true →
      (sentHost.requests s).stage = .sending := by
    intro s hs
    rw [hsound.eq_of_holds (r := 0) (by decide) (by rw [hsending]; rfl) hs, hsending]
  refine ⟨fun s hs => ?_, fun _ s wakeAt hs => ?_⟩
  · have hstage : (sentHost.requests s).stage = .sending := hzero s (by
      cases hq : (sentHost.requests s).stage
      all_goals
        rw [hq] at hs
        first
        | exact hs.elim
        | rfl)
    rw [hstage] at hs
    exact hs
  · have hstage := hzero s (by rw [hs]; rfl)
    rw [hs] at hstage
    cases hstage

private theorem isSome_spread : (run (step EXPLORER_RATE_LIMIT_DEFAULTS)
    (answeredHost 5 1000) (twoMore 200)).isSome := by
  decide +kernel

theorem budget_kept_spread : BudgetKept (answeredHost 5 1000)
    ((run (step EXPLORER_RATE_LIMIT_DEFAULTS) (answeredHost 5 1000) (twoMore 200)).get
      isSome_spread) 5 (sentHost.now + 1000) :=
  budget_kept run_firstSend (step_answered 5 1000) (advertises_advertising 5 1000)
    (Option.some_get isSome_spread).symm (silent_twoMore 200) (by decide)
    (counted_sentHost 5 _) (by decide +kernel)

private theorem departures_cutOff : (run (step EXPLORER_RATE_LIMIT_DEFAULTS)
    (answeredHost 1 120000) (twoMore 30000)).map (fun w => w.departures) =
      some [⟨0, 0⟩, ⟨0, 0⟩, ⟨30000, 120000⟩] := by
  decide +kernel

/-- One request until a reset in two minutes: of two that ask at once the second is given the slot at the
reset, and it leaves after the thirty seconds that a sleep may be. -/
theorem not_budget_kept_long_wait :
    ¬∀ (opts : LimiterOpts) (now : ℚ) (as bs : List LimiterAct) (w w₁ w₂ : Host) (r : ℕ)
      (answer : Answer) (random : ℚ) (n : ℤ) (resetMs : ℚ),
      run (step opts) (fresh now) as = some w →
      w.step opts (.answer r answer random) = some w₁ → answer.Advertises n resetMs →
      run (step opts) w₁ bs = some w₂ → (∀ b ∈ bs, b.Silent) →
      BudgetKept w₁ w₂ n (w.now + resetMs) := by
  intro h
  obtain ⟨w₂, hrun, hdepartures⟩ := Option.map_eq_some_iff.mp departures_cutOff
  obtain ⟨later, hlater, hleft, -⟩ := h _ 0 _ _ sentHost _ w₂ 0 _ 0 1 120000 run_firstSend
    (step_answered 1 120000) (advertises_advertising 1 120000) hrun (silent_twoMore 30000)
  have hfirst : (answeredHost 1 120000).departures = [⟨0, 0⟩] := by decide
  have hnow : sentHost.now = 0 := by decide
  rw [hdepartures, hfirst] at hlater
  obtain rfl := List.cons.inj hlater |>.2
  rw [hnow] at hleft
  exact absurd hleft (by decide +kernel)

end Host

end XchainWallet.RateLimit
