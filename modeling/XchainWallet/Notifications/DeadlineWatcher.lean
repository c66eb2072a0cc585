import XchainWallet.Keyed.List
import XchainWallet.Notifications.DeadlineRows
import XchainWallet.Transition.Run

/-!
# The watcher of deadlines

`DeadlineWatcher` polls for the deadlines of the user's items and announces each once. It remembers
the announced keys of each chain, forgets those that a tick no longer finds due, and stores the
rest, so that a restart does not announce them again. `stop` clears what it remembers and starts a
new generation; a tick delivers nothing once the generation is no longer that of its beginning.

A `DeadlineWorld` is the watcher at one of its awaits, with what it has stored. It also keeps what
the claims of the watcher are about and the watcher does not see: which items are near, open and
inside the warning window, what has been delivered of those that have stayed near since, and whether
a poll has delivered after a stop.
-/

namespace XchainWallet

/-! ### The watcher -/

/-- `SEEN_CAP_PER_CHAIN`. -/
def SEEN_CAP_PER_CHAIN : ℕ := 500

/-- `MAX_NOTIFICATIONS_PER_TICK`. -/
def MAX_NOTIFICATIONS_PER_TICK : ℕ := 5

/-- The announced keys of each chain. -/
abbrev SeenKeys := String → Option (List DeadlineKey)

/-- The announced keys of a chain, none where it has no entry. -/
def SeenKeys.at (seen : SeenKeys) (chainId : String) : List DeadlineKey := (seen chainId).getD []

def SeenKeys.set (seen : SeenKeys) (chainId : String) (keys : List DeadlineKey) : SeenKeys :=
  Function.update seen chainId (some keys)

/-- An active address, as the vault lists it. -/
structure WatchedAddress where
  chainId : String
  address : String
deriving DecidableEq

/-- The addresses of each chain, in the order in which the chains first appear. -/
def groupByChain (addresses : List WatchedAddress) : List (String × List String) :=
  (addresses.filter fun a => a.chainId ≠ "" ∧ a.address ≠ "").foldl
    (fun byChain a => Keyed.upsert Prod.fst
      (a.chainId, ((Keyed.find Prod.fst a.chainId byChain).map Prod.snd).getD [] ++ [a.address])
      byChain) []

/-- The tick of a chain, with the generation that it has begun in. -/
structure ChainTick where
  chainId : String
  addrs : List String
  generation : ℕ

/-- Where a poll stands. `stayed` are the items that have been near since the tick began. `accepted`
is whether the notification of the keys was delivered. -/
inductive PollPhase
  | settings
  | addresses
  | loading
  | between
  | reading (tick : ChainTick) (stayed : List NearItem)
  | notifying (tick : ChainTick) (fresh : List Deadline)
  | posting (tick : ChainTick) (keys : List DeadlineKey) (accepted : Bool) (rest : List Deadline)
  | saving (out : SeenKeys)

/-- A poll: the generation that it has begun in, the chains still to tick, and whether the announced
keys have changed. -/
structure DeadlinePoll where
  generation : ℕ
  pending : List (String × List String)
  changed : Bool
  phase : PollPhase

structure DeadlineWorld where
  near : String → List NearItem
  stored : SeenKeys
  generation : ℕ
  seen : SeenKeys
  seenLoaded : Bool
  seenDirty : Bool
  poll : Option DeadlinePoll
  delivered : List (String × DeadlineKey)
  late : Bool

/-- The watcher before its first poll. -/
def DeadlineWorld.start (near : String → List NearItem) (stored : SeenKeys) : DeadlineWorld where
  near := near
  stored := stored
  generation := 0
  seen := fun _ => none
  seenLoaded := false
  seenDirty := false
  poll := none
  delivered := []
  late := false

/-! ### What a tick does with what is due -/

/-- The announced keys that are still due. -/
def prune (due : List Deadline) (seen : List DeadlineKey) : List DeadlineKey :=
  seen.filter fun key => key ∈ due.map Deadline.key

/-- What is to be announced: the soonest that are not yet, as many as can still be recorded. -/
def freshDeadlines (due : List Deadline) (seen : List DeadlineKey) : List Deadline :=
  ((due.filter fun d => d.key ∉ seen).mergeSort fun a b => a.remaining ≤ b.remaining).take
    (SEEN_CAP_PER_CHAIN - seen.length)

/-- What the next notification is about: one item, or all where there are too many. -/
def nextNotification (fresh : List Deadline) : List Deadline × List Deadline :=
  if MAX_NOTIFICATIONS_PER_TICK < fresh.length then (fresh, []) else fresh.splitAt 1

/-- The delivered keys are added, as many as there is room for. A single key is added without asking
for room, which was asked for before its notification. -/
def recordKeys (seen keys : List DeadlineKey) : List DeadlineKey :=
  keys.foldl
    (fun seen key => if SEEN_CAP_PER_CHAIN ≤ seen.length ∨ key ∈ seen then seen else seen ++ [key])
    seen

namespace DeadlinePoll

/-- The poll goes on to the next chain. -/
def goOn (poll : DeadlinePoll) : DeadlinePoll := { poll with phase := .between }

/-- The items that are near now are the only ones to have stayed so. -/
def restay (poll : DeadlinePoll) (near : String → List NearItem) : DeadlinePoll :=
  { poll with
    phase :=
      match poll.phase with
      | .reading tick stayed => .reading tick (stayed.filter (· ∈ near tick.chainId))
      | phase => phase }

end DeadlinePoll

/-! ### Steps -/

/-- What can happen: items become near and cease to be, `pollOnce` and `stop` are called, and what
the watcher waits for arrives. `none` is a failure. -/
inductive DeadlineAct
  | become (near : String → List NearItem)
  | poll
  | stop
  | settings (featureOn : Option Bool)
  | addresses (listed : Option (List WatchedAddress))
  | loaded (ok : Bool)
  | next (hasSdk : Bool)
  | collect (answers : TickAnswers)
  | notify (accepted : Bool)
  | posted
  | saved (ok : Bool)

namespace DeadlineWorld

def setPoll (w : DeadlineWorld) (poll : Option DeadlinePoll) : DeadlineWorld :=
  { w with poll := poll }

/-- The keys that are near on a chain. -/
def nearKeys (near : String → List NearItem) (chainId : String) : List DeadlineKey :=
  (near chainId).map NearItem.key

/-- The end of `pollOnce`: a poll of an earlier generation saves nothing. -/
def finish (w : DeadlineWorld) (poll : DeadlinePoll) : DeadlineWorld :=
  if poll.generation ≠ w.generation then w.setPoll none
  else if w.seenDirty || poll.changed then
    { w with seenDirty := true, poll := some { poll with phase := .saving w.seen } }
  else w.setPoll none

/-- The chains to tick, where there are active addresses: the stored keys are read first, if they
have not been. -/
def listChains (w : DeadlineWorld) (poll : DeadlinePoll) :
    Option (List (String × List String)) → DeadlineWorld
  | none => w.setPoll none
  | some pending =>
    { w with
      seenLoaded := true
      poll := some { poll with
        pending := pending
        phase := if w.seenLoaded then .between else .loading } }

/-- The tick of the next chain, or the end of the poll. -/
def nextChain (w : DeadlineWorld) (poll : DeadlinePoll) (hasSdk : Bool) : DeadlineWorld :=
  match poll.pending with
  | [] => w.finish poll
  | (chainId, addrs) :: pending =>
    w.setPoll <| some { poll with
      pending := pending
      phase :=
        if hasSdk then .reading ⟨chainId, addrs, w.generation⟩ (w.near chainId) else .between }

/-- `_tickChain`, once all its reads are done or have failed. -/
def collectChain (setup : DeadlineSetup) (w : DeadlineWorld) (poll : DeadlinePoll)
    (tick : ChainTick) (answers : TickAnswers) : DeadlineWorld :=
  let due := collectDeadlines setup tick.chainId answers tick.addrs
  let before := w.seen.at tick.chainId
  let seen := prune due before
  let fresh := freshDeadlines due seen
  { w with
    seen := w.seen.set tick.chainId seen
    poll := some { poll with
      changed := poll.changed || decide (seen ≠ before)
      phase := if fresh = [] then .between else .notifying tick fresh } }

/-- What a notification delivers of the items that are near. -/
def shown (w : DeadlineWorld) (chainId : String) (keys : List DeadlineKey) (accepted : Bool) :
    List (String × DeadlineKey) :=
  if accepted then (keys.filter (· ∈ nearKeys w.near chainId)).map (Prod.mk chainId) else []

/-- `notify` is called for some items. -/
def announce (w : DeadlineWorld) (poll : DeadlinePoll) (tick : ChainTick)
    (keys : List DeadlineKey) (rest : List Deadline) (accepted : Bool) : DeadlineWorld :=
  { w with
    poll := some { poll with phase := .posting tick keys accepted rest }
    delivered := w.shown tick.chainId keys accepted ++ w.delivered
    late := w.late || (accepted && decide (poll.generation ≠ w.generation)) }

/-- A notification, where the tick's generation has not ended. The room for a summary is not asked
for again: what is fresh fits. -/
def notifyNext (w : DeadlineWorld) (poll : DeadlinePoll) (tick : ChainTick) (fresh : List Deadline)
    (accepted : Bool) : DeadlineWorld :=
  if fresh = [] ∨ tick.generation ≠ w.generation ∨
      SEEN_CAP_PER_CHAIN ≤ (w.seen.at tick.chainId).length then
    w.setPoll (some poll.goOn)
  else
    w.announce poll tick ((nextNotification fresh).1.map Deadline.key) (nextNotification fresh).2
      accepted

/-- A notification has been delivered or has not. The keys of a stopped tick are recorded in a set
that nothing reads any more. -/
def record (w : DeadlineWorld) (poll : DeadlinePoll) (tick : ChainTick) (keys : List DeadlineKey)
    (accepted : Bool) (rest : List Deadline) : DeadlineWorld :=
  { w with
    seen :=
      if accepted ∧ tick.generation = w.generation then
        w.seen.set tick.chainId (recordKeys (w.seen.at tick.chainId) keys)
      else w.seen
    poll := some { poll with
      changed := poll.changed || accepted
      phase := .notifying tick rest } }

/-- One step. `pollOnce` does nothing while a poll is under way. -/
def step (setup : DeadlineSetup) (w : DeadlineWorld) : DeadlineAct → Option DeadlineWorld
  | .become near => some { w with
      near := near
      poll := w.poll.map (·.restay near)
      delivered := w.delivered.filter fun d => d.2 ∈ nearKeys near d.1 }
  | .poll =>
    some (if w.poll.isSome then w else w.setPoll (some ⟨w.generation, [], false, .settings⟩))
  | .stop => some { w with
      generation := w.generation + 1
      seen := fun _ => none
      seenLoaded := false
      seenDirty := false }
  | .settings featureOn =>
    w.poll.bind fun poll =>
      match poll.phase with
      | .settings => some <| w.setPoll <|
          if featureOn = some true then some { poll with phase := .addresses } else none
      | _ => none
  | .addresses listed =>
    w.poll.bind fun poll =>
      match poll.phase with
      | .addresses => some (w.listChains poll ((listed.filter (· ≠ [])).map groupByChain))
      | _ => none
  | .loaded ok =>
    w.poll.bind fun poll =>
      match poll.phase with
      | .loading => some { w with
          seen := if ok then fun chainId => (w.stored chainId).or (w.seen chainId) else w.seen
          poll := some poll.goOn }
      | _ => none
  | .next hasSdk =>
    w.poll.bind fun poll =>
      match poll.phase with
      | .between => some (w.nextChain poll hasSdk)
      | _ => none
  | .collect answers =>
    w.poll.bind fun poll =>
      match poll.phase with
      | .reading tick _ => some (collectChain setup w poll tick answers)
      | _ => none
  | .notify accepted =>
    w.poll.bind fun poll =>
      match poll.phase with
      | .notifying tick fresh => some (w.notifyNext poll tick fresh accepted)
      | _ => none
  | .posted =>
    w.poll.bind fun poll =>
      match poll.phase with
      | .posting tick keys accepted rest => some (w.record poll tick keys accepted rest)
      | _ => none
  | .saved ok =>
    w.poll.bind fun poll =>
      match poll.phase with
      | .saving out => some { w with
          stored := if ok then out else w.stored
          seenDirty := if ok then false else w.seenDirty
          poll := none }
      | _ => none

end DeadlineWorld

end XchainWallet
