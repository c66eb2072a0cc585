import XchainWallet.Pool.Slots
import XchainWallet.Sdk.HostRateLimiter

/-!
# The slots of a host

Over every run of a host, whatever starts, fails, is aborted or wakes: the send slots and the retry
slots are two bounded pools with their queues (`Pool.Ok`, `Pool.Full`), every slot that a request took is
given back once, and at most one request is the trial. `Kept` is the invariant over a census of who
holds what; each operation of the limiter moves the census.
-/

namespace XchainWallet.RateLimit

open Function Transition

/-- A stage of a holder that is in no queue. -/
def Stage.Plain (stage : Stage) : Prop := stage.holdsSlot = true ∧ stage ≠ .retryWaiting

/-- A stage of a request that neither holds a slot nor queues for one. -/
def Stage.Idle (stage : Stage) : Prop := stage.holdsSlot = false ∧ stage ≠ .waiting

theorem Stage.Plain.ne_waiting {stage : Stage} (h : stage.Plain) : stage ≠ .waiting := by
  rintro rfl
  cases h.1

theorem Stage.ne_retryWaiting {stage : Stage} (h : stage.holdsSlot = false) : stage ≠ .retryWaiting := by
  rintro rfl
  cases h

namespace Host

variable {opts : LimiterOpts} {w w' : Host} {r : ℕ}

/-! ### The invariant -/

/-- Who holds a send slot, who holds a retry slot, and who is the trial. -/
structure Census where
  holding : Finset ℕ
  retrying : Finset ℕ
  owner : Option ℕ

/-- What a census says of one request, and the ledger of the request. -/
structure Standing (c : Census) (w : Host) (r : ℕ) (q : Request) : Prop where
  holding : r ∈ c.holding ↔ q.stage.holdsSlot = true
  waiting : r ∈ w.waiters ↔ q.stage = .waiting
  retrying : r ∈ c.retrying ↔ q.releaseRetry = true
  retryWaiting : r ∈ w.retryQueue ↔ q.stage = .retryWaiting
  retryStage : q.releaseRetry = true → q.stage = .retryGranted ∨ q.stage = .sending
  owner : c.owner = some r ↔ q.endTrial.isSome = true
  trial : q.endTrial.isSome = true → q.stage.holdsSlot = true ∧ w.trial = q.endTrial
  ledger : q.acquired = q.released + q.stage.holdsSlot.toNat

structure Kept (opts : LimiterOpts) (c : Census) (w : Host) : Prop where
  slots : Pool.Ok (maxActive opts) w.active c.holding w.waiters
  retries : Pool.Ok (maxRetrying opts) w.retryActive c.retrying w.retryQueue
  trial : w.trial.isSome = c.owner.isSome
  standing : ∀ r, Standing c w r (w.requests r)

/-- Nobody queues while a slot is free. -/
structure Full (opts : LimiterOpts) (w : Host) : Prop where
  slots : Pool.Full (maxActive opts) w.active w.waiters
  retries : Pool.Full (maxRetrying opts) w.retryActive w.retryQueue

/-- The same pools, queues and trial. -/
structure SamePools (w w' : Host) : Prop where
  active : w'.active = w.active
  waiters : w'.waiters = w.waiters
  retryActive : w'.retryActive = w.retryActive
  retryQueue : w'.retryQueue = w.retryQueue
  trial : w'.trial = w.trial

theorem SamePools.full (h : SamePools w w') (hfull : Full opts w) : Full opts w' := by
  refine ⟨?_, ?_⟩
  · rw [h.active, h.waiters]
    exact hfull.slots
  · rw [h.retryActive, h.retryQueue]
    exact hfull.retries

/-! ### One request moves -/

/-- **A move of one request.** The census changes for it alone, and the pools are right after it. -/
theorem Kept.move {c c' : Census} (h : Kept opts c w) {q' : Request}
    (hrequests : w'.requests = update w.requests r q')
    (hslots : Pool.Ok (maxActive opts) w'.active c'.holding w'.waiters)
    (hretries : Pool.Ok (maxRetrying opts) w'.retryActive c'.retrying w'.retryQueue)
    (htrial : w'.trial.isSome = c'.owner.isSome)
    (hothers : ∀ s, s ≠ r → Standing c w s (w.requests s) → Standing c' w' s (w.requests s))
    (hself : Standing c' w' r q') : Kept opts c' w' where
  slots := hslots
  retries := hretries
  trial := htrial
  standing s := by
    rw [hrequests]
    by_cases hs : s = r
    · subst hs
      rw [update_self]
      exact hself
    · rw [update_of_ne hs]
      exact hothers s hs (h.standing s)

variable {c : Census}

/-- Nothing moves in the pools: the request stays a holder and a stranger to the queues. -/
theorem Kept.stay (h : Kept opts c w) (hpools : SamePools w w') {q' : Request}
    (hrequests : w'.requests = update w.requests r q')
    (hself : Standing c w r (w.requests r) → Standing c w r q') : Kept opts c w' := by
  have hstanding : ∀ s q, Standing c w s q → Standing c w' s q := fun s q hs =>
    { hs with
      waiting := hpools.waiters ▸ hs.waiting
      retryWaiting := hpools.retryQueue ▸ hs.retryWaiting
      trial := hpools.trial ▸ hs.trial }
  refine h.move hrequests ?_ ?_ ?_ (fun s _ => hstanding s _) (hstanding r _ (hself (h.standing r)))
  · rw [hpools.active, hpools.waiters]
    exact h.slots
  · rw [hpools.retryActive, hpools.retryQueue]
    exact h.retries
  · rw [hpools.trial]
    exact h.trial

/-- A request that nothing was moved for keeps its standing. -/
theorem Standing.of_same {c c' : Census} {s : ℕ} {q : Request} (h : Standing c w s q)
    (hholding : s ∈ c'.holding ↔ s ∈ c.holding) (hwaiting : s ∈ w'.waiters ↔ s ∈ w.waiters)
    (hretrying : s ∈ c'.retrying ↔ s ∈ c.retrying)
    (hretryWaiting : s ∈ w'.retryQueue ↔ s ∈ w.retryQueue)
    (howner : c'.owner = some s ↔ c.owner = some s)
    (htrial : q.endTrial.isSome = true → w'.trial = w.trial) : Standing c' w' s q :=
  { h with
    holding := hholding.trans h.holding
    waiting := hwaiting.trans h.waiting
    retrying := hretrying.trans h.retrying
    retryWaiting := hretryWaiting.trans h.retryWaiting
    owner := howner.trans h.owner
    trial := fun hsome => ⟨(h.trial hsome).1, (htrial hsome).trans (h.trial hsome).2⟩ }

/-- A holder without a retry slot goes on to another stage. -/
theorem Standing.setStage {q : Request} (h : Standing c w r q) (hold : q.stage.Plain)
    (stage : Stage) (hnew : stage.Plain) (hretry : q.releaseRetry = true → stage = .sending) :
    Standing c w r { q with stage := stage } where
  holding := h.holding.trans (iff_of_true hold.1 hnew.1)
  waiting := h.waiting.trans (iff_of_false hold.ne_waiting hnew.ne_waiting)
  retrying := h.retrying
  retryWaiting := h.retryWaiting.trans (iff_of_false hold.2 hnew.2)
  retryStage hrelease := .inr (hretry hrelease)
  owner := h.owner
  trial htrial := ⟨hnew.1, (h.trial htrial).2⟩
  ledger := by
    have hledger := h.ledger
    rw [hold.1] at hledger
    rw [hnew.1]
    exact hledger

theorem Kept.setStage (h : Kept opts c w) (hold : (w.requests r).stage.Plain) (stage : Stage)
    (hnew : stage.Plain) (hretry : (w.requests r).releaseRetry = true → stage = .sending) :
    Kept opts c (w.setStage r stage) :=
  h.stay ⟨rfl, rfl, rfl, rfl, rfl⟩ rfl fun hstanding => hstanding.setStage hold stage hnew hretry

/-- Who is without a slot has no retry slot and is not the trial. -/
theorem Standing.bare {q : Request} (h : Standing c w r q) (hidle : q.stage.holdsSlot = false) :
    q.releaseRetry = false ∧ q.endTrial = none := by
  constructor
  · by_contra hrelease
    rcases h.retryStage (by simpa using hrelease) with hstage | hstage
    · rw [hstage] at hidle
      cases hidle
    · rw [hstage] at hidle
      cases hidle
  · by_contra hend
    have hsome := (h.trial (Option.isSome_iff_ne_none.mpr hend)).1
    rw [hidle] at hsome
    cases hsome

/-- Who has no slot goes to another stage without one. -/
theorem Standing.setIdle {q : Request} (h : Standing c w r q) (hidle : q.stage.holdsSlot = false)
    {stage : Stage} (hnew : stage.holdsSlot = false) (hwaiting : r ∈ w'.waiters ↔ stage = .waiting)
    (hqueue : w'.retryQueue = w.retryQueue) :
    Standing c w' r { q with stage := stage } where
  holding := h.holding.trans (by rw [hidle, hnew])
  waiting := hwaiting
  retrying := h.retrying
  retryWaiting := hqueue ▸ h.retryWaiting.trans
    (iff_of_false (Stage.ne_retryWaiting hidle) (Stage.ne_retryWaiting hnew))
  retryStage hrelease := absurd hrelease (by simp [(h.bare hidle).1])
  owner := h.owner
  trial hsome := absurd hsome (by simp [(h.bare hidle).2])
  ledger := by
    have hledger := h.ledger
    rw [hidle] at hledger
    rw [hnew]
    exact hledger

/-! ### Taking a send slot -/

variable {queue : List ℕ}

/-- Who has no slot takes one, out of the queue or without queueing. -/
theorem Kept.grantSlot (h : Kept opts c w) (hidle : (w.requests r).stage.holdsSlot = false)
    (hfree : w.active < maxActive opts) (hok : Pool.Ok (maxActive opts) w.active c.holding queue)
    (hnot : r ∉ queue) (hqueue : ∀ s, s ≠ r → (s ∈ queue ↔ s ∈ w.waiters)) :
    Kept opts { c with holding := insert r c.holding } { w.grantSlot r with waiters := queue } := by
  have hr := h.standing r
  have hbare := hr.bare hidle
  have hnothold : r ∉ c.holding := by
    rw [hr.holding, hidle]
    exact Bool.false_ne_true
  refine h.move rfl (hok.grant hfree hnothold hnot) h.retries h.trial (fun s hs hstanding => ?_) ?_
  · exact hstanding.of_same (by simp [hs]) (hqueue s hs) .rfl .rfl .rfl fun _ => rfl
  · exact
      { holding := iff_of_true (Finset.mem_insert_self r _) rfl
        waiting := iff_of_false hnot (by simp)
        retrying := hr.retrying
        retryWaiting := hr.retryWaiting.trans
          (iff_of_false (Stage.ne_retryWaiting hidle) (by simp))
        retryStage := fun hrelease => absurd hrelease (by simp [hbare.1])
        owner := hr.owner
        trial := fun hsome => absurd hsome (by simp [hbare.2])
        ledger := by
          have hledger := hr.ledger
          rw [hidle] at hledger
          simpa [Stage.holdsSlot] using hledger }

/-- Who has no slot ends, and leaves the queue if it stood there. -/
theorem Kept.finishIdle (h : Kept opts c w) (hidle : (w.requests r).stage.holdsSlot = false)
    (hok : Pool.Ok (maxActive opts) w.active c.holding queue) (hnot : r ∉ queue)
    (hqueue : ∀ s, s ≠ r → (s ∈ queue ↔ s ∈ w.waiters)) :
    Kept opts c { w.setStage r .finished with waiters := queue } := by
  refine h.move rfl hok h.retries h.trial (fun s hs hstanding => ?_) ?_
  · exact hstanding.of_same .rfl (hqueue s hs) .rfl .rfl .rfl fun _ => rfl
  · exact (h.standing r).setIdle hidle rfl (iff_of_false hnot (by simp)) rfl

theorem Kept.enqueue (h : Kept opts c w) (hidle : (w.requests r).stage.Idle) :
    Kept opts c { w.setStage r .waiting with waiters := w.waiters ++ [r] } := by
  have hr := h.standing r
  have hnothold : r ∉ c.holding := by
    rw [hr.holding, hidle.1]
    exact Bool.false_ne_true
  have hnot : r ∉ w.waiters := fun hmem => hidle.2 (hr.waiting.mp hmem)
  refine h.move rfl (h.slots.enqueue hnothold hnot) h.retries h.trial (fun s hs hstanding => ?_) ?_
  · exact hstanding.of_same .rfl (by simp [hs]) .rfl .rfl .rfl fun _ => rfl
  · exact hr.setIdle hidle.1 rfl (iff_of_true (by simp) rfl) rfl

/-- **The queue is drained.** Each turn goes to the first waiter, or past one whose signal was aborted,
until a slot is missing or the queue is empty. -/
theorem Kept.drainFrom {c : Census} (queue : List ℕ)
    (h : Kept opts c { w with waiters := queue }) (hretries : Pool.Full (maxRetrying opts) w.retryActive w.retryQueue) :
    ∃ c', Kept opts c' (drainFrom opts queue w) ∧ Full opts (drainFrom opts queue w) := by
  induction queue generalizing w c with
  | nil => exact ⟨c, h, Pool.full_nil, hretries⟩
  | cons r rest ih =>
    obtain ⟨hok, -, hnot⟩ := h.slots.next
    have hstage : (w.requests r).stage = .waiting := (h.standing r).waiting.mp List.mem_cons_self
    have hidle : (w.requests r).stage.holdsSlot = false := by
      rw [hstage]
      rfl
    have hqueue : ∀ s, s ≠ r → (s ∈ rest ↔ s ∈ r :: rest) := fun s hs => by simp [hs]
    rw [Host.drainFrom]
    split
    · next hfree =>
      split
      · exact ih (h.finishIdle hidle hok hnot hqueue) hretries
      · exact ih (h.grantSlot hidle hfree hok hnot hqueue) hretries
    · next htaken =>
      exact ⟨c, h, h.slots.full_of_le (not_lt.mp htaken) _, hretries⟩

theorem Kept.frame (h : Kept opts c w) (hpools : SamePools w w')
    (hrequests : w'.requests = w.requests) : Kept opts c w' :=
  h.stay hpools (r := 0) (by rw [hrequests, update_eq_self]) id

/-- The invariant with its census. -/
def Sound (opts : LimiterOpts) (w : Host) : Prop := ∃ c, Kept opts c w ∧ Full opts w

theorem Sound.frame (h : Sound opts w) (hpools : SamePools w w')
    (hrequests : w'.requests = w.requests) : Sound opts w' := by
  obtain ⟨c, hkept, hfull⟩ := h
  exact ⟨c, hkept.frame hpools hrequests, hpools.full hfull⟩

theorem Sound.setStage (h : Sound opts w) (hold : (w.requests r).stage.Plain) (stage : Stage)
    (hnew : stage.Plain) (hretry : (w.requests r).releaseRetry = true → stage = .sending) :
    Sound opts (w.setStage r stage) := by
  obtain ⟨c, hkept, hfull⟩ := h
  exact ⟨c, hkept.setStage hold stage hnew hretry, hfull.slots, hfull.retries⟩

/-- Who neither holds a slot nor queues ends. -/
theorem Sound.finish (h : Sound opts w) (hidle : (w.requests r).stage.Idle) :
    Sound opts (w.setStage r .finished) := by
  obtain ⟨c, hkept, hfull⟩ := h
  have hnot : r ∉ w.waiters := fun hmem => hidle.2 ((hkept.standing r).waiting.mp hmem)
  exact ⟨c, hkept.finishIdle hidle.1 hkept.slots hnot fun _ _ => .rfl, hfull.slots, hfull.retries⟩

theorem Sound.acquire (h : Sound opts w) (hidle : (w.requests r).stage.Idle) :
    Sound opts (w.acquire opts r) := by
  have hfinish := h.finish hidle
  obtain ⟨c, hkept, hfull⟩ := h
  have hnot : r ∉ w.waiters := fun hmem => hidle.2 ((hkept.standing r).waiting.mp hmem)
  rw [Host.acquire]
  split
  · exact hfinish
  · split
    · next hfree =>
      refine ⟨_, hkept.grantSlot hidle.1 hfree hkept.slots hnot fun _ _ => .rfl, ?_, hfull.retries⟩
      intro hne
      exact absurd (hfull.slots.nil_of_lt hfree) hne
    · next htaken =>
      have hqueued := hkept.enqueue hidle
      exact ⟨c, hqueued, hqueued.slots.full_of_le (not_lt.mp htaken) _, hfull.retries⟩

theorem Sound.enterLoop (h : Sound opts w) (hidle : (w.requests r).stage.Idle) :
    Sound opts (w.enterLoop opts r) := by
  rw [Host.enterLoop]
  split
  · exact h.finish hidle
  · exact h.acquire hidle

/-! ### Giving back -/

/-- Who waits for nothing is passed over by the queue. -/
theorem requests_drainFrom (h : r ∉ queue) :
    (drainFrom opts queue w).requests r = w.requests r := by
  induction queue generalizing w with
  | nil => rfl
  | cons s rest ih =>
    obtain ⟨hrs, hrest⟩ := not_or.mp (List.mem_cons.not.mp h)
    rw [Host.drainFrom]
    split
    · split
      · rw [ih hrest]
        exact update_of_ne hrs _ _
      · rw [ih hrest]
        exact update_of_ne hrs _ _
    · rfl

/-- A holder without a retry slot that is not the trial gives its slot back, and the queue moves on. -/
theorem Kept.releaseSlot (h : Kept opts c w) (hfull : Full opts w)
    (hplain : (w.requests r).stage.Plain) (hretry : (w.requests r).releaseRetry = false)
    (htrial : (w.requests r).endTrial = none) :
    Sound opts (w.releaseSlot opts r) ∧ ((w.releaseSlot opts r).requests r).stage = .finished := by
  have hr := h.standing r
  have hhold : r ∈ c.holding := hr.holding.mpr hplain.1
  have hnot : r ∉ w.waiters := fun hmem => hplain.ne_waiting (hr.waiting.mp hmem)
  have hbefore : Kept opts { c with holding := c.holding.erase r }
      (w.freeSlot r) := by
    refine h.move rfl (h.slots.giveBack hhold) h.retries h.trial (fun s hs hstanding => ?_) ?_
    · exact hstanding.of_same (by simp [hs]) .rfl .rfl .rfl .rfl fun _ => rfl
    · exact
        { holding := iff_of_false (Finset.notMem_erase r _) (by simp [Stage.holdsSlot])
          waiting := iff_of_false hnot (by simp)
          retrying := hr.retrying
          retryWaiting := hr.retryWaiting.trans (iff_of_false hplain.2 (by simp))
          retryStage := fun hrelease => absurd hrelease (by simp [hretry])
          owner := hr.owner
          trial := fun hsome => absurd hsome (by simp [htrial])
          ledger := by
            have hledger := hr.ledger
            rw [hplain.1] at hledger
            simpa [Stage.holdsSlot] using hledger }
  refine ⟨hbefore.drainFrom _ hfull.retries, ?_⟩
  have hsame : ((w.freeSlot r).drain opts).requests r = (w.freeSlot r).requests r :=
    requests_drainFrom hnot
  rw [Host.releaseSlot, hsame]
  simp [freeSlot, setRequest]

/-- A holder that is in no queue takes a retry slot, out of the queue or without queueing. -/
theorem Kept.grantRetry (h : Kept opts c w) (hold : (w.requests r).stage.holdsSlot = true)
    (hretry : (w.requests r).releaseRetry = false) (hfree : w.retryActive < maxRetrying opts)
    (hok : Pool.Ok (maxRetrying opts) w.retryActive c.retrying queue) (hnot : r ∉ queue)
    (hqueue : ∀ s, s ≠ r → (s ∈ queue ↔ s ∈ w.retryQueue)) :
    Kept opts { c with retrying := insert r c.retrying }
      ({ w with retryQueue := queue }.grantRetry r) := by
  have hr := h.standing r
  have hnothold : r ∉ c.retrying := by
    rw [hr.retrying, hretry]
    exact Bool.false_ne_true
  have hstage : (w.requests r).stage ≠ .waiting := by
    intro hw
    rw [hw] at hold
    cases hold
  refine h.move rfl h.slots (hok.grant hfree hnothold hnot) h.trial (fun s hs hstanding => ?_) ?_
  · exact hstanding.of_same .rfl .rfl (by simp [hs]) (hqueue s hs) .rfl fun _ => rfl
  · exact
      { holding := hr.holding.trans (iff_of_true hold rfl)
        waiting := hr.waiting.trans (iff_of_false hstage (by simp))
        retrying := iff_of_true (Finset.mem_insert_self r _) rfl
        retryWaiting := iff_of_false hnot (by simp)
        retryStage := fun _ => .inl rfl
        owner := hr.owner
        trial := fun hsome => ⟨rfl, (hr.trial hsome).2⟩
        ledger := by
          have hledger := hr.ledger
          rw [hold] at hledger
          exact hledger }

/-- The next of the queue takes a retry slot that was freed. -/
theorem Kept.grantNextRetry (h : Kept opts c w)
    (hfreed : w.retryQueue ≠ [] → w.retryActive + 1 = maxRetrying opts) :
    ∃ c', Kept opts c' w.grantNextRetry ∧
      Pool.Full (maxRetrying opts) w.grantNextRetry.retryActive w.grantNextRetry.retryQueue := by
  rw [Host.grantNextRetry]
  split
  · next hqueue =>
    exact ⟨c, h, hqueue ▸ Pool.full_nil⟩
  · next next rest hqueue =>
    have hretries := h.retries
    rw [hqueue] at hretries
    obtain ⟨hok, -, hnot⟩ := hretries.next
    have hstage : (w.requests next).stage = .retryWaiting :=
      (h.standing next).retryWaiting.mp (by simp [hqueue])
    have hretry : (w.requests next).releaseRetry = false := by
      by_contra hrelease
      rcases (h.standing next).retryStage (by simpa using hrelease) with hs | hs
      · rw [hstage] at hs
        cases hs
      · rw [hstage] at hs
        cases hs
    have hcap : w.retryActive + 1 = maxRetrying opts := hfreed (by simp [hqueue])
    have hhold : (w.requests next).stage.holdsSlot = true := by
      rw [hstage]
      rfl
    refine ⟨_, h.grantRetry hhold hretry (by omega) hok hnot fun s hs => by simp [hqueue, hs], ?_⟩
    exact fun _ => hcap

theorem requests_grantNextRetry (h : r ∉ w.retryQueue) :
    w.grantNextRetry.requests r = w.requests r := by
  rw [Host.grantNextRetry]
  split
  · rfl
  · next next rest hqueue =>
    refine update_of_ne ?_ _ _
    rintro rfl
    exact h (by simp [hqueue])

/-- **A retry slot is given back**, and goes to the first of its queue. -/
theorem Kept.giveBackRetry (h : Kept opts c w) (hfull : Full opts w)
    (hplain : (w.requests r).stage.Plain) :
    ∃ c', Kept opts c' (w.giveBackRetry r) ∧ Full opts (w.giveBackRetry r) ∧
      (w.giveBackRetry r).requests r = { w.requests r with releaseRetry := false } := by
  have hr := h.standing r
  rw [Host.giveBackRetry]
  split
  · next hretry =>
    have hmem : r ∈ c.retrying := hr.retrying.mpr hretry
    have hdropped : Kept opts { c with retrying := c.retrying.erase r } (w.dropRetry r) := by
      refine h.move rfl h.slots (h.retries.giveBack hmem) h.trial (fun s hs hstanding => ?_) ?_
      · exact hstanding.of_same .rfl .rfl (by simp [hs]) .rfl .rfl fun _ => rfl
      · exact
          { hr with
            retrying := iff_of_false (Finset.notMem_erase r _) (by simp)
            retryStage := fun hrelease => absurd hrelease (by simp) }
    have hpos := h.retries.pos hmem
    have hfreed : (w.dropRetry r).retryQueue ≠ [] →
        (w.dropRetry r).retryActive + 1 = maxRetrying opts := by
      intro hne
      have hcap := hfull.retries hne
      change w.retryActive - 1 + 1 = _
      omega
    obtain ⟨c', hkept, hretries⟩ := hdropped.grantNextRetry hfreed
    have hnot : r ∉ (w.dropRetry r).retryQueue := fun hmem => hplain.2 (hr.retryWaiting.mp hmem)
    refine ⟨c', hkept, ⟨?_, hretries⟩, ?_⟩
    · rw [Host.grantNextRetry]
      split
      · exact hfull.slots
      · simpa only [Host.dropRetry, setRequest, Host.grantRetry] using hfull.slots
    · rw [requests_grantNextRetry hnot]
      exact update_self r _ _
  · next hretry =>
    have hfalse : (w.requests r).releaseRetry = false := by simpa using hretry
    refine ⟨c, h, hfull, ?_⟩
    rw [← hfalse]

/-- The trial ends with its request. -/
theorem Kept.finishTrial (h : Kept opts c w) :
    ∃ c', Kept opts c' (w.finishTrial r) ∧ (w.finishTrial r).requests r =
      { w.requests r with endTrial := none } := by
  have hr := h.standing r
  rw [Host.finishTrial]
  split
  · next trial hend =>
    have howner : c.owner = some r := hr.owner.mpr (by simp [hend])
    refine ⟨{ c with owner := none }, ?_, update_self r _ _⟩
    refine h.move rfl h.slots h.retries rfl (fun s hs hstanding => ?_) ?_
    · have hnone : (w.requests s).endTrial.isSome = false := by
        by_contra hsome
        have hs' := hstanding.owner.mpr (Bool.eq_true_of_not_eq_false hsome)
        exact hs (Option.some.inj (hs'.symm.trans howner))
      refine { hstanding with owner := ?_, trial := fun hsome => ?_ }
      · simp [hnone]
      · rw [hnone] at hsome
        cases hsome
    · exact { hr with
        owner := by simp
        trial := fun hsome => absurd hsome (by simp) }
  · next hend =>
    refine ⟨c, h, ?_⟩
    rw [← hend]

theorem full_finishTrial (hfull : Full opts w) : Full opts (w.finishTrial r) := by
  rw [Host.finishTrial]
  split
  · exact ⟨hfull.slots, hfull.retries⟩
  · exact hfull

/-- **A request leaves**: it gives back its retry slot, ends its trial and gives back its send slot. -/
theorem Sound.leave (h : Sound opts w) (hplain : (w.requests r).stage.Plain) :
    Sound opts (w.leave opts r) ∧ ((w.leave opts r).requests r).stage = .finished := by
  obtain ⟨c, hkept, hfull⟩ := h
  obtain ⟨c₁, hkept₁, hfull₁, hreq₁⟩ := hkept.giveBackRetry hfull hplain
  obtain ⟨c₂, hkept₂, hreq₂⟩ := hkept₁.finishTrial (r := r)
  rw [hreq₁] at hreq₂
  refine hkept₂.releaseSlot (full_finishTrial hfull₁) ?_ ?_ ?_
  · rw [hreq₂]
    exact hplain
  · rw [hreq₂]
  · rw [hreq₂]

/-! ### Pauses -/

/-- **A pause lets the queued single attempts go**; every other request stands as it did. -/
theorem Sound.releasePausedWaiters (h : Sound opts w) : Sound opts w.releasePausedWaiters := by
  rw [Host.releasePausedWaiters]
  split
  · exact h
  · obtain ⟨c, hkept, hfull⟩ := h
    refine ⟨c, ⟨hkept.slots.withdraw _, hkept.retries, hkept.trial, fun r => ?_⟩,
      hfull.slots.withdraw _, hfull.retries⟩
    have hr := hkept.standing r
    by_cases hleaves : r ∈ w.waiters ∧ (w.requests r).singleAttempt = true
    · simp only [if_pos hleaves]
      have hidle : (w.requests r).stage.holdsSlot = false := by
        rw [hr.waiting.mp hleaves.1]
        rfl
      exact hr.setIdle hidle rfl (iff_of_false (by simp [hleaves]) (by simp)) rfl
    · simp only [if_neg hleaves]
      refine hr.of_same .rfl ?_ .rfl .rfl .rfl fun _ => rfl
      simp only [List.mem_filter, Bool.not_eq_true']
      exact ⟨And.left, fun hmem => ⟨hmem, Bool.eq_false_iff.mpr fun hone => hleaves ⟨hmem, hone⟩⟩⟩

/-- A request that does not wait is left alone by a pause. -/
theorem requests_releasePausedWaiters (h : r ∉ w.waiters) :
    w.releasePausedWaiters.requests r = w.requests r := by
  rw [Host.releasePausedWaiters]
  split
  · rfl
  · exact if_neg fun hmem => h hmem.1

theorem Sound.pauseUntil (h : Sound opts w) (resumeAt : ℚ) (rateLimited : Bool) :
    Sound opts (w.pauseUntil resumeAt rateLimited) :=
  Sound.releasePausedWaiters (h.frame ⟨rfl, rfl, rfl, rfl, rfl⟩ rfl)

theorem Sound.observe (h : Sound opts w) (headers : ResponseHeaders) :
    Sound opts (w.observe headers) := by
  have hwindow : ∀ remaining resetAt, Sound opts (w.setWindow remaining resetAt) := fun _ _ =>
    h.frame ⟨rfl, rfl, rfl, rfl, rfl⟩ rfl
  rw [Host.observe]
  split
  · simp only
    split
    · exact (hwindow _ _).pauseUntil _ _
    · exact hwindow _ _
  · exact h

theorem requests_observe (h : r ∉ w.waiters) (headers : ResponseHeaders) :
    (w.observe headers).requests r = w.requests r := by
  rw [Host.observe]
  split
  · simp only
    split
    · exact requests_releasePausedWaiters h
    · rfl
  · rfl

theorem Sound.strike (h : Sound opts w) : Sound opts (w.strike r) := by
  rw [Host.strike]
  split
  · exact h.frame ⟨rfl, rfl, rfl, rfl, rfl⟩ rfl
  · exact h.frame ⟨rfl, rfl, rfl, rfl, rfl⟩ rfl

theorem requests_strike : (w.strike r).requests = w.requests := by
  rw [Host.strike]
  split
  · rfl
  · rfl

/-! ### The gate -/

theorem samePools_rollWindow : SamePools w w.rollWindow ∧ w.rollWindow.requests = w.requests := by
  rw [rollWindow]
  split
  · exact ⟨⟨rfl, rfl, rfl, rfl, rfl⟩, rfl⟩
  · exact ⟨⟨rfl, rfl, rfl, rfl, rfl⟩, rfl⟩

theorem samePools_paceIn :
    SamePools w (w.paceIn opts).1 ∧ (w.paceIn opts).1.requests = w.requests := by
  rw [paceIn]
  split
  · split
    · exact ⟨⟨rfl, rfl, rfl, rfl, rfl⟩, rfl⟩
    · exact ⟨⟨rfl, rfl, rfl, rfl, rfl⟩, rfl⟩
  · exact ⟨⟨rfl, rfl, rfl, rfl, rfl⟩, rfl⟩

theorem Sound.pace (h : Sound opts w) : Sound opts (w.pace opts).1 :=
  (h.frame samePools_rollWindow.1 samePools_rollWindow.2).frame samePools_paceIn.1 samePools_paceIn.2

theorem requests_pace : (w.pace opts).1.requests = w.requests :=
  samePools_paceIn.2.trans samePools_rollWindow.2

/-- The stages of a request at the gate. -/
structure AtGate (q : Request) : Prop where
  plain : q.stage.Plain
  noRetry : q.releaseRetry = false

theorem Sound.toStage (h : Sound opts w) (hr : AtGate (w.requests r)) (stage : Stage)
    (hnew : stage.Plain) : Sound opts (w.setStage r stage) :=
  h.setStage hr.plain stage hnew fun hretry => absurd hretry (by simp [hr.noRetry])

theorem Sound.awaitSlot (h : Sound opts w) (hr : AtGate (w.requests r)) :
    Sound opts (w.awaitSlot opts r) := by
  have hslot : Sound opts ((w.pace opts).1.setRequest r fun q => { q with slot := (w.pace opts).2 }) := by
    obtain ⟨c, hkept, hfull⟩ := h.pace
    refine ⟨c, hkept.stay ⟨rfl, rfl, rfl, rfl, rfl⟩ rfl fun hstanding => ?_, hfull.slots, hfull.retries⟩
    exact { hstanding with }
  have hgate : AtGate (((w.pace opts).1.setRequest r fun q =>
      { q with slot := (w.pace opts).2 }).requests r) := by
    simp only [setRequest, update_self, requests_pace]
    exact ⟨hr.plain, hr.noRetry⟩
  simp only [Host.awaitSlot]
  split
  · split
    · exact hslot.toStage hgate _ ⟨rfl, nofun⟩
    · exact hslot.toStage hgate _ ⟨rfl, nofun⟩
  · exact hslot.toStage hgate _ ⟨rfl, nofun⟩

theorem Sound.gate (h : Sound opts w) (hr : AtGate (w.requests r)) (random : ℚ) :
    Sound opts (w.gate opts r random) := by
  simp only [Host.gate]
  split
  · exact h.toStage hr _ ⟨rfl, nofun⟩
  · split
    · split
      · exact h.toStage hr _ ⟨rfl, nofun⟩
      · exact h.toStage hr _ ⟨rfl, nofun⟩
    · exact h.awaitSlot hr

/-! ### The send loop -/

theorem Sound.send (h : Sound opts w) (hold : (w.requests r).stage.Plain) :
    Sound opts (w.send r) := by
  obtain ⟨c, hkept, hfull⟩ := h
  refine ⟨c, hkept.stay ⟨rfl, rfl, rfl, rfl, rfl⟩ rfl fun hstanding => ?_, hfull.slots, hfull.retries⟩
  exact { hstanding.setStage hold .sending ⟨rfl, nofun⟩ fun _ => rfl with }

/-- One trial at a time: it begins where there is none. -/
theorem Sound.beginTrial (h : Sound opts w) (hnone : w.needsTrial = true → w.trial = none)
    (hhold : (w.requests r).stage.holdsSlot = true) : Sound opts (w.beginTrial r) := by
  rw [Host.beginTrial]
  split
  · next hneeds =>
    obtain ⟨c, hkept, hfull⟩ := h
    have hr := hkept.standing r
    have hfree : c.owner = none := by
      have htrial := hkept.trial
      rw [hnone hneeds] at htrial
      exact Option.not_isSome_iff_eq_none.mp (by simp [← htrial])
    refine ⟨{ c with owner := some r }, ?_, hfull.slots, hfull.retries⟩
    refine hkept.move rfl hkept.slots hkept.retries rfl (fun s hs hstanding => ?_) ?_
    · have hend : (w.requests s).endTrial.isSome = false := by
        by_contra hsome
        have howner := hstanding.owner.mpr (Bool.eq_true_of_not_eq_false hsome)
        rw [hfree] at howner
        cases howner
      refine { hstanding with owner := ?_, trial := fun hsome => ?_ }
      · simp [hend, hs.symm]
      · rw [hend] at hsome
        cases hsome
    · exact { hr with
        owner := by simp
        trial := fun _ => ⟨hhold, rfl⟩ }
  · exact h

theorem request_beginTrial : ((w.beginTrial r).requests r).stage = (w.requests r).stage ∧
    ((w.beginTrial r).requests r).releaseRetry = (w.requests r).releaseRetry := by
  rw [Host.beginTrial]
  split
  · simp [setRequest]
  · exact ⟨rfl, rfl⟩

theorem Sound.retrySlot (h : Sound opts w) (hr : AtGate (w.requests r)) :
    Sound opts (w.retrySlot opts r) := by
  have hrejected := h.toStage hr .rejected ⟨rfl, nofun⟩
  obtain ⟨c, hkept, hfull⟩ := h
  have hstanding := hkept.standing r
  have hnot : r ∉ w.retryQueue := fun hmem => hr.plain.2 (hstanding.retryWaiting.mp hmem)
  have hnothold : r ∉ c.retrying := by
    rw [hstanding.retrying, hr.noRetry]
    exact Bool.false_ne_true
  rw [Host.retrySlot]
  split
  · exact hrejected
  · split
    · next hfree =>
      refine ⟨_, hkept.grantRetry hr.plain.1 hr.noRetry hfree hkept.retries hnot fun _ _ => .rfl,
        hfull.slots, ?_⟩
      intro hne
      exact absurd (hfull.retries.nil_of_lt hfree) hne
    · next htaken =>
      refine ⟨c, hkept.move rfl hkept.slots (hkept.retries.enqueue hnothold hnot) hkept.trial
        (fun s hs hothers => ?_) ?_, hfull.slots, hkept.retries.full_of_le (not_lt.mp htaken) _⟩
      · exact hothers.of_same .rfl .rfl .rfl (by simp [hs]) .rfl fun _ => rfl
      · exact
          { hstanding with
            holding := hstanding.holding.trans (iff_of_true hr.plain.1 rfl)
            waiting := hstanding.waiting.trans (iff_of_false hr.plain.ne_waiting (by simp))
            retryWaiting := iff_of_true (by simp) rfl
            retryStage := fun hrelease => absurd hrelease (by simp [hr.noRetry])
            trial := fun hsome => ⟨rfl, (hstanding.trial hsome).2⟩
            ledger := by
              have hledger := hstanding.ledger
              rw [hr.plain.1] at hledger
              exact hledger }

theorem Sound.afterGate (h : Sound opts w) (hr : AtGate (w.requests r)) :
    Sound opts (w.afterGate opts r) := by
  rw [Host.afterGate]
  split
  · exact h.toStage hr _ ⟨rfl, nofun⟩
  · next hnone =>
    have hbegun : Sound opts (w.beginTrial r) := by
      refine h.beginTrial (fun hneeds => ?_) hr.plain.1
      cases htrial : w.trial with
      | none => rfl
      | some trial => exact (hnone trial hneeds htrial).elim
    obtain ⟨hstage, hretry⟩ := request_beginTrial (w := w) (r := r)
    have hgate : AtGate ((w.beginTrial r).requests r) := ⟨hstage ▸ hr.plain, hretry ▸ hr.noRetry⟩
    simp only
    split
    · exact hbegun.retrySlot hgate
    · exact hbegun.send hgate.plain

/-! ### Answers -/

theorem Sound.notMem_waiters (h : Sound opts w) (hstage : (w.requests r).stage ≠ .waiting) :
    r ∉ w.waiters := by
  obtain ⟨c, hkept, -⟩ := h
  exact fun hmem => hstage ((hkept.standing r).waiting.mp hmem)

theorem plain_sending : Stage.Plain .sending := ⟨rfl, nofun⟩

theorem Sound.sent_leave (h : Sound opts w) (hr : (w.requests r).stage = .sending) :
    Sound opts (w.leave opts r) :=
  (h.leave (hr ▸ plain_sending)).1

theorem Sound.tryAgain (h : Sound opts w) (hr : (w.requests r).stage = .sending) :
    Sound opts (w.tryAgain opts r) := by
  have hcounted : Sound opts (w.setRequest r fun q => { q with retries := q.retries + 1 }) := by
    obtain ⟨c, hkept, hfull⟩ := h
    refine ⟨c, hkept.stay ⟨rfl, rfl, rfl, rfl, rfl⟩ rfl fun hstanding => ?_, hfull.slots, hfull.retries⟩
    exact { hstanding with }
  obtain ⟨hleft, hfinished⟩ := hcounted.leave (r := r) (by
    simp only [setRequest, update_self, hr]
    exact plain_sending)
  exact hleft.enterLoop ⟨by rw [hfinished]; rfl, by rw [hfinished]; exact nofun⟩

/-- The host pauses while the request is still at its send. -/
theorem Sound.struck_block (h : Sound opts w) (hr : (w.requests r).stage = .sending) (waitMs : ℚ)
    (rateLimited : Bool) : Sound opts ((w.strike r).block waitMs rateLimited) ∧
      (((w.strike r).block waitMs rateLimited).requests r).stage = .sending := by
  have hstruck := h.strike (r := r)
  have hstage : ((w.strike r).requests r).stage = .sending := by
    rw [requests_strike]
    exact hr
  have hnot := hstruck.notMem_waiters (by rw [hstage]; exact nofun)
  refine ⟨hstruck.pauseUntil _ _, ?_⟩
  rw [← hstage]
  exact congrArg Request.stage (requests_releasePausedWaiters hnot)

theorem Sound.onTransient (h : Sound opts w) (hr : (w.requests r).stage = .sending)
    (reply : Option (ℕ × ResponseHeaders)) (random : ℚ) :
    Sound opts (w.onTransient opts r reply random) := by
  simp only [Host.onTransient]
  split
  · exact (h.struck_block hr _ _).1.sent_leave (h.struck_block hr _ _).2
  · exact (h.struck_block hr _ _).1.tryAgain (h.struck_block hr _ _).2

theorem Sound.observed (h : Sound opts w) (hr : (w.requests r).stage = .sending) (answer : Answer) :
    Sound opts (w.observed answer) ∧ ((w.observed answer).requests r).stage = .sending := by
  rw [Host.observed]
  cases answer.headers with
  | none => exact ⟨h, hr⟩
  | some headers =>
    refine ⟨h.observe headers, ?_⟩
    have hnot := h.notMem_waiters (r := r) (by rw [hr]; exact nofun)
    exact (congrArg Request.stage (requests_observe hnot headers)).trans hr

theorem Sound.onAnswer (h : Sound opts w) (hr : (w.requests r).stage = .sending) (answer : Answer)
    (random : ℚ) : Sound opts (w.onAnswer opts r answer random) := by
  obtain ⟨hsound, hstage⟩ := h.observed hr answer
  cases answer with
  | response headers =>
    exact Sound.sent_leave (hsound.frame ⟨rfl, rfl, rfl, rfl, rfl⟩ rfl) hstage
  | failure reply transient =>
    simp only [Host.onAnswer]
    split
    · exact hsound.onTransient hstage _ _
    · exact Sound.sent_leave (hsound.frame ⟨rfl, rfl, rfl, rfl, rfl⟩ rfl) hstage

/-! ### Steps and runs -/

theorem Sound.setRequest (h : Sound opts w) (f : Request → Request)
    (hsame : ∀ q, (f q).stage = q.stage ∧ (f q).endTrial = q.endTrial ∧
      (f q).releaseRetry = q.releaseRetry ∧ (f q).acquired = q.acquired ∧ (f q).released = q.released) :
    Sound opts (w.setRequest r f) := by
  obtain ⟨c, hkept, hfull⟩ := h
  refine ⟨c, hkept.stay ⟨rfl, rfl, rfl, rfl, rfl⟩ rfl fun hstanding => ?_, hfull.slots, hfull.retries⟩
  obtain ⟨hstage, hend, hretry, hacquired, hreleased⟩ := hsame (w.requests r)
  constructor
  · rw [hstage]
    exact hstanding.holding
  · rw [hstage]
    exact hstanding.waiting
  · rw [hretry]
    exact hstanding.retrying
  · rw [hstage]
    exact hstanding.retryWaiting
  · rw [hretry, hstage]
    exact hstanding.retryStage
  · rw [hend]
    exact hstanding.owner
  · rw [hend, hstage]
    exact hstanding.trial
  · rw [hacquired, hreleased, hstage]
    exact hstanding.ledger

theorem Sound.start (h : Sound opts w) (hunstarted : (w.requests r).stage = .unstarted)
    (singleAttempt signalled : Bool) (maxRetries : ℕ) :
    Sound opts (w.start opts r singleAttempt signalled maxRetries) := by
  rw [Host.start]
  refine Sound.enterLoop (h.setRequest _ ?_) ?_
  · exact fun q => ⟨rfl, rfl, rfl, rfl, rfl⟩
  · simp only [Host.setRequest, update_self, hunstarted]
    exact ⟨rfl, nofun⟩

/-- A retry that is cancelled leaves the queue. -/
theorem Sound.cancelRetry (h : Sound opts w) (hr : (w.requests r).stage = .retryWaiting) :
    Sound opts { w.setStage r .rejected with retryQueue := w.retryQueue.filter (· ≠ r) } := by
  obtain ⟨c, hkept, hfull⟩ := h
  have hstanding := hkept.standing r
  refine ⟨c, hkept.move rfl hkept.slots (hkept.retries.withdraw _) hkept.trial
    (fun s hs hothers => ?_) ?_, hfull.slots, hfull.retries.withdraw _⟩
  · exact hothers.of_same .rfl .rfl .rfl (by simp [hs]) .rfl fun _ => rfl
  · have hnoretry : (w.requests r).releaseRetry = false := by
      by_contra hrelease
      rcases hstanding.retryStage (Bool.eq_true_of_not_eq_false hrelease) with hs | hs
      · rw [hr] at hs
        cases hs
      · rw [hr] at hs
        cases hs
    have hledger := hstanding.ledger
    have hholding := hstanding.holding
    have hwaiting := hstanding.waiting
    rw [hr] at hledger hholding hwaiting
    exact
      { hstanding with
        holding := hholding.trans (iff_of_true rfl rfl)
        waiting := hwaiting.trans (iff_of_false nofun nofun)
        retryWaiting := iff_of_false (by simp) nofun
        retryStage := fun hrelease => absurd hrelease (by simp [hnoretry])
        trial := fun hsome => ⟨rfl, (hstanding.trial hsome).2⟩
        ledger := hledger }

/-- A waiter that is cancelled leaves the queue. -/
theorem Sound.cancelWaiter (h : Sound opts w) (hr : (w.requests r).stage = .waiting) :
    Sound opts { w.setStage r .finished with waiters := w.waiters.filter (· ≠ r) } := by
  obtain ⟨c, hkept, hfull⟩ := h
  have hidle : (w.requests r).stage.holdsSlot = false := by
    rw [hr]
    rfl
  exact ⟨c, hkept.finishIdle hidle (hkept.slots.withdraw _) (by simp) fun s hs => by simp [hs],
    hfull.slots.withdraw _, hfull.retries⟩

/-- Only a request with a retry slot is at its grant or at its send. -/
theorem Sound.noRetry (h : Sound opts w) (hgranted : (w.requests r).stage ≠ .retryGranted)
    (hsending : (w.requests r).stage ≠ .sending) : (w.requests r).releaseRetry = false := by
  obtain ⟨c, hkept, -⟩ := h
  by_contra hrelease
  rcases (hkept.standing r).retryStage (Bool.eq_true_of_not_eq_false hrelease) with hs | hs
  · exact hgranted hs
  · exact hsending hs

theorem Sound.cancel (h : Sound opts w) (hstep : w.cancel r = some w') : Sound opts w' := by
  rw [Host.cancel] at hstep
  split at hstep
  · have hretry := h.noRetry (r := r)
    split at hstep
    · next hr =>
      obtain ⟨⟩ := hstep
      exact h.cancelWaiter hr
    · next hr =>
      obtain ⟨⟩ := hstep
      rw [hr] at hretry
      exact h.toStage ⟨hr ▸ ⟨rfl, nofun⟩, hretry nofun nofun⟩ _ ⟨rfl, nofun⟩
    · next hr =>
      obtain ⟨⟩ := hstep
      rw [hr] at hretry
      exact h.toStage ⟨hr ▸ ⟨rfl, nofun⟩, hretry nofun nofun⟩ _ ⟨rfl, nofun⟩
    · next hr =>
      obtain ⟨⟩ := hstep
      exact h.cancelRetry hr
    · cases hstep
  · cases hstep

theorem Sound.wake (h : Sound opts w) (hstep : w.wake opts r = some w') : Sound opts w' := by
  have hretry := h.noRetry (r := r)
  rw [Host.wake] at hstep
  split at hstep
  · next hr =>
    rw [hr] at hretry
    split at hstep
    · obtain ⟨⟩ := hstep
      exact h.awaitSlot ⟨hr ▸ ⟨rfl, nofun⟩, hretry nofun nofun⟩
    · cases hstep
  · next hr =>
    rw [hr] at hretry
    split at hstep
    · obtain ⟨⟩ := hstep
      exact h.toStage ⟨hr ▸ ⟨rfl, nofun⟩, hretry nofun nofun⟩ _ ⟨rfl, nofun⟩
    · cases hstep
  · cases hstep

theorem Sound.resume (h : Sound opts w) {random : ℚ} (hstep : w.resume opts r random = some w') :
    Sound opts w' := by
  have hretry := h.noRetry (r := r)
  rw [Host.resume] at hstep
  split at hstep
  · next hr =>
    rw [hr] at hretry
    obtain ⟨⟩ := hstep
    exact h.gate ⟨hr ▸ ⟨rfl, nofun⟩, hretry nofun nofun⟩ random
  · next hr =>
    rw [hr] at hretry
    obtain ⟨⟩ := hstep
    exact h.afterGate ⟨hr ▸ ⟨rfl, nofun⟩, hretry nofun nofun⟩
  · next hr =>
    split at hstep
    · cases hstep
    · obtain ⟨⟩ := hstep
      obtain ⟨hleft, hfinished⟩ := h.leave (r := r) (hr ▸ ⟨rfl, nofun⟩)
      exact hleft.enterLoop ⟨by rw [hfinished]; rfl, by rw [hfinished]; exact nofun⟩
  · next hr =>
    obtain ⟨⟩ := hstep
    exact h.send (hr ▸ ⟨rfl, nofun⟩)
  · next hr =>
    obtain ⟨⟩ := hstep
    exact (h.leave (hr ▸ ⟨rfl, nofun⟩)).1
  · cases hstep

theorem Sound.step (h : Sound opts w) {a : LimiterAct} (hstep : w.step opts a = some w') :
    Sound opts w' := by
  cases a with
  | start r singleAttempt signalled maxRetries =>
    simp only [Host.step] at hstep
    split at hstep
    · next hr =>
      obtain ⟨⟩ := hstep
      exact h.start hr _ _ _
    · cases hstep
  | abort r =>
    simp only [Host.step] at hstep
    split at hstep
    · obtain ⟨⟩ := hstep
      exact h.setRequest _ fun q => ⟨rfl, rfl, rfl, rfl, rfl⟩
    · cases hstep
  | cancel r => exact h.cancel hstep
  | wake r => exact h.wake hstep
  | resume r random =>
    simp only [Host.step] at hstep
    split at hstep
    · exact h.resume hstep
    · cases hstep
  | answer r answer random =>
    simp only [Host.step] at hstep
    split at hstep
    · next hr =>
      obtain ⟨⟩ := hstep
      exact h.onAnswer hr.2 answer random
    · cases hstep
  | tick ms =>
    simp only [Host.step] at hstep
    split at hstep
    · obtain ⟨⟩ := hstep
      exact h.frame ⟨rfl, rfl, rfl, rfl, rfl⟩ rfl
    · cases hstep

theorem sound_fresh (opts : LimiterOpts) (now : ℚ) : Sound opts (fresh now) := by
  refine ⟨⟨∅, ∅, none⟩, ⟨Pool.ok_empty, Pool.ok_empty, rfl, fun r => ?_⟩, Pool.full_nil, Pool.full_nil⟩
  constructor
  all_goals simp [fresh, Request.unstarted, Stage.holdsSlot]

/-- What holds of a host at any time. -/
structure Orderly (opts : LimiterOpts) (w : Host) : Prop where
  sends : ∀ S : Finset ℕ, (∀ r ∈ S, (w.requests r).stage.holdsSlot = true) →
    S.card ≤ atLeastOne opts.maxConcurrency
  retries : ∀ R : Finset ℕ, (∀ r ∈ R, (w.requests r).releaseRetry = true) →
    R.card ≤ atLeastOne opts.maxConcurrentRetries
  /-- What a request took it gave back once, but for the slot that it has. -/
  released : ∀ r, (w.requests r).acquired =
    (w.requests r).released + (w.requests r).stage.holdsSlot.toNat
  waiting : ∀ r, (w.requests r).stage = .waiting → w.active = atLeastOne opts.maxConcurrency
  /-- Where nothing is active, nothing waits for a send slot, a retry slot or a trial. -/
  noneLost : w.active = 0 → ∀ r, (w.requests r).stage ≠ .waiting ∧
    (w.requests r).stage ≠ .retryWaiting ∧ ∀ trial, (w.requests r).stage ≠ .behindTrial trial
  oneTrial : ∀ r s, (w.requests r).endTrial.isSome = true → (w.requests s).endTrial.isSome = true →
    r = s

theorem Sound.orderly (h : Sound opts w) : Orderly opts w := by
  obtain ⟨c, hkept, hfull⟩ := h
  have hwaiting : ∀ r, (w.requests r).stage = .waiting → w.active = maxActive opts := fun r hr =>
    hfull.slots (List.ne_nil_of_mem ((hkept.standing r).waiting.mpr hr))
  refine ⟨fun S hS => ?_, fun R hR => ?_, fun r => (hkept.standing r).ledger, hwaiting, ?_, ?_⟩
  · have hsub : S ⊆ c.holding := fun r hr => (hkept.standing r).holding.mpr (hS r hr)
    exact (Finset.card_le_card hsub).trans (hkept.slots.counted.trans_le hkept.slots.within)
  · have hsub : R ⊆ c.retrying := fun r hr => (hkept.standing r).retrying.mpr (hR r hr)
    exact (Finset.card_le_card hsub).trans (hkept.retries.counted.trans_le hkept.retries.within)
  · intro hidle r
    -- who holds a slot is counted, and with a count of nothing nobody holds one
    have hnone : ∀ stage, (w.requests r).stage = stage → stage.holdsSlot = false := by
      rintro stage rfl
      by_contra hhold
      have hmem := (hkept.standing r).holding.mpr (Bool.eq_true_of_not_eq_false hhold)
      exact absurd (hkept.slots.pos hmem) (by omega)
    refine ⟨fun hr => ?_, fun hr => ?_, fun trial hr => ?_⟩
    · have hcap := hwaiting r hr
      have hone : 1 ≤ maxActive opts := le_max_left _ _
      omega
    · cases hnone _ hr
    · cases hnone _ hr
  · intro r s hr hs
    have howner := (hkept.standing r).owner.mpr hr
    exact Option.some.inj (howner.symm.trans ((hkept.standing s).owner.mpr hs))

/-- Where one slot is taken, one request has it. -/
theorem Sound.eq_of_holds (h : Sound opts w) (hactive : w.active = 1)
    (hr : (w.requests r).stage.holdsSlot = true) {s : ℕ}
    (hs : (w.requests s).stage.holdsSlot = true) : s = r := by
  obtain ⟨c, hkept, -⟩ := h
  obtain ⟨t, ht⟩ := Finset.card_eq_one.mp (hkept.slots.counted.trans hactive)
  have hmem : ∀ u, (w.requests u).stage.holdsSlot = true → u = t := fun u hu =>
    Finset.mem_singleton.mp (ht ▸ (hkept.standing u).holding.mpr hu)
  exact (hmem s hs).trans (hmem r hr).symm

/-- **A host stays in order.** Over every run the active sends and the retries stay within their caps,
every slot that was taken is given back once, nobody waits where nothing is active, and at most one
request is the trial. -/
theorem orderly_of_run {now : ℚ} {as : List LimiterAct}
    (hrun : run (step opts) (fresh now) as = some w) : Orderly opts w :=
  (run_invariant (fun _ _ _ h hstep => h.step hstep) (sound_fresh opts now) hrun).orderly

/-- Two requests: the first fails and tries again as the trial, and the second stands behind it. -/
private def secondBehindTrial : List LimiterAct :=
  [.start 0 false false 3, .start 1 false false 3, .resume 0 0, .resume 0 0,
    .answer 0 (.failure none true) 0, .resume 0 0, .tick 1500, .wake 0, .resume 0 0, .resume 0 0,
    .resume 1 0, .resume 1 0]

private theorem isSome_secondBehindTrial :
    (run (step EXPLORER_RATE_LIMIT_DEFAULTS) (fresh 1) secondBehindTrial).isSome := by
  decide +kernel

private def trialHost : Host :=
  (run (step EXPLORER_RATE_LIMIT_DEFAULTS) (fresh 1) secondBehindTrial).get
    isSome_secondBehindTrial

theorem orderly_secondBehindTrial : Orderly EXPLORER_RATE_LIMIT_DEFAULTS trialHost ∧
    (trialHost.requests 0).stage = .sending ∧ (trialHost.requests 1).stage = .behindTrial 0 :=
  ⟨orderly_of_run (Option.some_get isSome_secondBehindTrial).symm, by decide +kernel,
    by decide +kernel⟩

private theorem sending_unlimited :
    (run (step { EXPLORER_RATE_LIMIT_DEFAULTS with maxConcurrency := 0 }) (fresh 0)
      [.start 0 false false 3, .resume 0 0, .resume 0 0]).map
        (fun w => (w.requests 0).stage) = some .sending := by
  decide

/-- A concurrency of zero lets one request through: the limiter counts it as one. -/
theorem not_sends_le_maxConcurrency :
    ¬∀ (opts : LimiterOpts) (now : ℚ) (as : List LimiterAct) (w : Host),
      run (step opts) (fresh now) as = some w →
      ∀ S : Finset ℕ, (∀ r ∈ S, (w.requests r).stage = .sending) →
        (S.card : ℚ) ≤ opts.maxConcurrency := by
  intro h
  obtain ⟨w, hrun, hsending⟩ := Option.map_eq_some_iff.mp sending_unlimited
  have hle := h _ _ _ w hrun {0} (by simpa using hsending)
  norm_num at hle

end Host

end XchainWallet.RateLimit
