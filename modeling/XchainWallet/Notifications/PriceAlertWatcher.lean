import XchainWallet.Flows.PriceAlerts
import XchainWallet.Keyed.List
import XchainWallet.Transition.Run

/-!
# The watcher of price alerts

`PriceAlertWatcher` polls for armed alerts whose price is reached and delivers each once. Until the
alert is stored as triggered, the watcher keeps its id: in memory with the terms that it was
delivered under, and in storage by itself. A restart reads the ids back, and a poll tries the writes
again that have failed.

An `AlertWorld` is the vault's alerts, what the watcher has stored, the watcher at one of its
awaits, and the calls of `saveAlert`, `rearmAlert` and `clearAlert` under way. The calls that change
an alert take turns, all but `saveAlert`. An edit or an arming gives the alert a new number, its
arming; the numbers and the deliveries with them are what the properties of the watcher are stated
in, and nothing in the code. -/

namespace XchainWallet

open Function

/-! ### What is judged -/

/-- `FIRED_CAP`. -/
def FIRED_CAP : ℕ := 500

/-- `MAX_PRICE_AGE_MS`. -/
def MAX_PRICE_AGE_MS : ℚ := 5 * 60 * 1000

/-- `NETWORK_NAMES`. -/
def NETWORK_NAMES : List (List Char) := ["mainnet".toList, "testnet".toList, "regtest".toList]

/-- `isOnActiveNetwork(chainId, activeNetwork)`. -/
def isOnActiveNetwork (chainId activeNetwork : String) : Bool :=
  let network := ((chainId.toList.splitOn '-').getLast?).getD []
  activeNetwork = "" ∨ NETWORK_NAMES.all (· ≠ network) ∨ network = activeNetwork.toList

/-- What the oracle answers for a chain. A `fetchedAt` that is there may be no finite number. -/
structure PriceEntry where
  priceFiat : Option ℚ
  fetchedAt : Option (Option ℚ)

/-- `_isFreshPrice(entry)`. -/
def isFreshPrice (now : ℚ) (entry : PriceEntry) : Bool :=
  entry.priceFiat.any (0 < ·) ∧
    entry.fetchedAt.all fun fetched =>
      fetched.any fun time => 0 ≤ now - time ∧ now - time ≤ MAX_PRICE_AGE_MS

/-- `_isSatisfied(alert, price)`. -/
def isSatisfied (alert : PriceAlert) (price : ℚ) : Bool :=
  match alert.direction with
  | .above => 0 < alert.targetFiat ∧ alert.targetFiat ≤ price
  | .below => 0 < alert.targetFiat ∧ price ≤ alert.targetFiat

/-- The alerts of each currency, in the order in which the currencies first appear. -/
def groupByCurrency (alerts : List PriceAlert) : List (List Char × List PriceAlert) :=
  ((alerts.map fun a => fiatCode a.fiatCurrency).eraseDups).map fun currency =>
    (currency, alerts.filter fun a => fiatCode a.fiatCurrency = currency)

/-! ### The world -/

/-- A delivery: the terms it was made under, the arming that had these terms, and the arming of the
alert at the time. -/
structure AlertDelivery where
  id : String
  terms : AlertTerms
  arming : ℕ
  madeAt : ℕ
deriving DecidableEq

/-- The alerts of a currency still to be judged, with its prices, the alerts' current terms and
armings, and the other currencies. -/
structure AlertRound where
  alerts : List PriceAlert
  prices : String → Option PriceEntry
  current : String → Option (AlertTerms × ℕ)
  groups : List (List Char × List PriceAlert)

/-- Where a poll stands. `listedAt` is the next arming at the time of the list, `accepted` is
whether a notification was delivered, and `inFire` tells a first write of the triggered state from a
repeated one. -/
inductive AlertPc
  | settings
  | listing (activeNetwork : String)
  | restoring (activeNetwork : String) (load : Bool) (armed : List PriceAlert) (listedAt : ℕ)
  | retrying (left armed : List PriceAlert) (listedAt : ℕ)
  | retried (armed : List PriceAlert)
  | pricing (groups : List (List Char × List PriceAlert))
  | reading (round : AlertRound)
  | judging (round : AlertRound)
  | delivering (d : AlertDelivery) (accepted : Bool) (round : AlertRound)
  | recorded (d : AlertDelivery) (round : AlertRound)
  | marking (d : AlertDelivery) (terms : Option AlertTerms) (inFire : Bool) (next : AlertPc)
  | putting (d : AlertDelivery) (inFire : Bool) (read : PriceAlert) (readArming : ℕ)
      (next : AlertPc)
  | persist (next : AlertPc)
  | saving (out : List AlertDelivery) (next : AlertPc)

/-- The poll waits for something. In the other phases it is about to go on. -/
def AlertPc.awaits : AlertPc → Bool
  | .retrying .. | .retried _ | .judging _ | .recorded .. | .persist _ => false
  | _ => true

structure AlertPoll where
  generation : ℕ
  pc : AlertPc

/-- The write of a `rearmAlert` or a `clearAlert` that has read its alert. -/
inductive LockedWrite
  | rearm (record : PriceAlert)
  | clear

/-- The store, the calls of the user, and the watcher apart from its poll. -/
structure AlertState where
  alerts : List PriceAlert
  arming : String → ℕ
  nextArming : ℕ
  saves : ℕ → Option PriceAlert
  locked : String → Option LockedWrite
  stored : List AlertDelivery
  generation : ℕ
  fired : List String
  pending : List AlertDelivery
  firedTerms : String → Option AlertTerms
  settledAt : String → Option ℚ
  firedLoaded : Bool
  firedDirty : Bool
  saved : List AlertDelivery
  mismarked : Bool
  overwrote : Bool
  repeated : Bool

structure AlertWorld extends AlertState where
  poll : Option AlertPoll

/-- The stored alert of an id. -/
def AlertState.alert? (w : AlertState) (id : String) : Option PriceAlert :=
  Keyed.find PriceAlert.id id w.alerts

namespace AlertWorld

/-- The watcher before its first poll, over some alerts. -/
def start (alerts : List PriceAlert) : AlertWorld where
  alerts := alerts
  arming := fun _ => 0
  nextArming := 1
  saves := fun _ => none
  locked := fun _ => none
  stored := []
  generation := 0
  fired := []
  pending := []
  firedTerms := fun _ => none
  settledAt := fun _ => none
  firedLoaded := false
  firedDirty := false
  poll := none
  saved := []
  mismarked := false
  overwrote := false
  repeated := false

def setPc (w : AlertWorld) (poll : AlertPoll) (pc : AlertPc) : AlertWorld :=
  { w with poll := some { poll with pc := pc } }

def endPoll (w : AlertWorld) : AlertWorld := { w with poll := none }

/-- `Set.add` and `Set.delete` of ids, and of the deliveries that stand for them. -/
def addFired (id : String) (fired : List String) : List String :=
  if id ∈ fired then fired else fired ++ [id]

def addPending (d : AlertDelivery) (pending : List AlertDelivery) : List AlertDelivery :=
  if d.id ∈ pending.map AlertDelivery.id then pending else pending ++ [d]

def dropPending (id : String) (pending : List AlertDelivery) : List AlertDelivery :=
  pending.filter fun d => d.id ≠ id

/-! ### The user's calls -/

/-- An edit or an arming of an alert is written. -/
def arm (w : AlertWorld) (record : PriceAlert) : AlertWorld :=
  { w with
    alerts := Keyed.upsert PriceAlert.id record w.alerts
    arming := update w.arming record.id w.nextArming
    nextArming := w.nextArming + 1 }

/-- A write of the triggered state is under way for the alert. -/
def putting (w : AlertWorld) (id : String) : Bool :=
  w.poll.any fun poll =>
    match poll.pc with
    | .putting d _ _ _ _ => d.id = id
    | _ => false

/-! ### The phases of a poll -/

/-- The armed ids of the list keep their pending writes, the others lose them; the guard against a
second delivery goes once the alert has left the list, or is armed half an interval after its write.
-/
def prune (interval now : ℚ) (armedIds : List String) (w : AlertWorld) : AlertWorld :=
  let pending := w.pending.filter fun d => d.id ∈ armedIds
  let fired := w.fired.filter fun id =>
    ¬(id ∈ w.pending.map AlertDelivery.id ∧ id ∉ armedIds)
  let expired := fun id => decide <| id ∉ pending.map AlertDelivery.id ∧
    (id ∉ armedIds ∨ (w.settledAt id).any fun time => interval / 2 ≤ now - time)
  { w with
    pending := pending
    fired := fired.filter fun id => ¬expired id
    firedTerms := fun id => if id ∈ fired ∧ expired id then none else w.firedTerms id
    settledAt := fun id => if id ∈ fired ∧ expired id then none else w.settledAt id
    firedDirty := w.firedDirty || decide (pending ≠ w.pending) }

/-- `_restoreFired`, once the stored ids are there. -/
def restore (w : AlertWorld) : AlertWorld :=
  { w with
    fired := w.stored.foldl (fun fired d => addFired d.id fired) w.fired
    pending := w.stored.foldl (fun pending d => addPending d pending) w.pending }

/-- The next alert whose triggered state is still to be written: one that has been edited since its
delivery is let go. -/
def retryNext (w : AlertWorld) (poll : AlertPoll) (armed : List PriceAlert) (listedAt : ℕ) :
    List PriceAlert → AlertWorld
  | [] => w.setPc poll (.persist (.retried armed))
  | alert :: left =>
    match Keyed.find AlertDelivery.id alert.id w.pending with
    | none => w.setPc poll (.retrying left armed listedAt)
    | some d =>
      if (w.firedTerms alert.id).any (· ≠ alert.terms) then
        { w with
          pending := dropPending alert.id w.pending
          fired := w.fired.filter (· ≠ alert.id)
          firedTerms := update w.firedTerms alert.id none
          firedDirty := true }.setPc poll (.retrying left armed listedAt)
      else w.setPc poll (.marking d (w.firedTerms alert.id) false (.retrying left armed listedAt))

/-- The triggered state is written, or was not to be. -/
def settle (w : AlertWorld) (poll : AlertPoll) (d : AlertDelivery) (inFire : Bool) (now : ℚ)
    (next : AlertPc) : AlertWorld :=
  { w with
    pending := dropPending d.id w.pending
    settledAt := update w.settledAt d.id (some now)
    firedDirty := true }.setPc poll (if inFire then .persist next else next)

/-- The currencies still to be priced, and the end of the poll where there are none. -/
def goPricing (w : AlertWorld) (poll : AlertPoll) (groups : List (List Char × List PriceAlert)) :
    AlertWorld :=
  if groups = [] then w.endPoll else w.setPc poll (.pricing groups)

/-- `_persistFired`: the oldest ids beyond the cap are let go, and the others written. -/
def persist (w : AlertWorld) (poll : AlertPoll) (next : AlertPc) : AlertWorld :=
  if w.firedDirty then
    let pending := w.pending.drop (w.pending.length - FIRED_CAP)
    { w with pending := pending }.setPc poll (.saving pending next)
  else w.setPc poll next

/-- The delivery of an alert, where its terms are still those of the list and its price is reached.
-/
def judged (w : AlertWorld) (round : AlertRound) (now : ℚ) (alert : PriceAlert) :
    Option AlertDelivery :=
  ((round.current alert.id).filter fun current => current.1 = alert.terms).bind fun current =>
    (((round.prices alert.chainId).filter (isFreshPrice now)).bind PriceEntry.priceFiat).bind
      fun price =>
        if isSatisfied alert price then
          some ⟨alert.id, alert.terms, current.2, w.arming alert.id⟩
        else none

/-- The next alert of the round. In quiet hours an alert counts as delivered without a
notification. -/
def judgeNext (w : AlertWorld) (poll : AlertPoll) (round : AlertRound) (now : ℚ)
    (delivered : Bool) : AlertWorld :=
  match round.alerts with
  | [] => w.goPricing poll round.groups
  | alert :: alerts =>
    if poll.generation ≠ w.generation then w.endPoll
    else
      match w.judged round now alert with
      | none => w.setPc poll (.judging { round with alerts := alerts })
      | some d =>
        { w with
          fired := addFired alert.id w.fired
          repeated := w.repeated ||
            (delivered && w.saved.any fun d' => d'.id = d.id ∧ d'.arming = d.arming)
          }.setPc poll (.delivering d delivered { round with alerts := alerts })

/-- A notification was delivered, or was not. -/
def noted (w : AlertWorld) (poll : AlertPoll) (d : AlertDelivery) (accepted : Bool)
    (round : AlertRound) : AlertWorld :=
  if accepted then
    { w with
      pending := addPending d w.pending
      firedDirty := true }.setPc poll (.persist (.recorded d round))
  else { w with fired := w.fired.filter (· ≠ d.id) }.setPc poll (.judging round)

/-- The current terms and armings of the armed alerts. -/
def currentTerms (w : AlertWorld) (id : String) : Option (AlertTerms × ℕ) :=
  ((w.alert? id).filter (·.status = AlertStatus.armed)).map fun a => (a.terms, w.arming id)

end AlertWorld

/-! ### Steps -/

/-- The settings that a poll reads. -/
structure AlertSettings where
  priceDataEnabled : Bool
  priceAlerts : Bool
  activeNetwork : String

/-- What can happen: the user's calls read and write, `pollOnce` and `stop` are called, and what the
watcher waits for arrives. The oracle may fail, or answer without prices. -/
inductive AlertAct
  | saveRead (i : ℕ) (input : SaveAlertInput) (newId : String)
  | saveWrite (i : ℕ) (ok : Bool)
  | rearmRead (id : String) (walletId : Option String)
  | clearRead (id : String) (walletId : Option String)
  | lockedWrite (id : String) (ok : Bool)
  | poll
  | stop
  | settings (answer : Option AlertSettings)
  | listed (ok : Bool)
  | restored (ok : Bool) (now : ℚ)
  | advance
  | markRead (ok : Bool) (now : ℚ)
  | markWrite (ok : Bool) (now : ℚ) (time : ℤ)
  | saved (ok : Bool)
  | priced (answer : Option (Option (String → Option PriceEntry)))
  | currentRead (ok : Bool)
  | judge (now : ℚ) (quiet accepted : Bool)
  | noted

namespace AlertWorld

/-- A step of the user's calls. -/
def userStep (w : AlertWorld) : AlertAct → Option AlertWorld
  | .saveRead i input newId =>
    if (w.saves i).isSome then none
    else some { w with saves := update w.saves i (saveAlert w.alerts input newId) }
  | .saveWrite i ok =>
    (w.saves i).map fun record =>
      let w := { w with saves := update w.saves i none }
      if ok then w.arm record else w
  | .rearmRead id walletId =>
    if (w.locked id).isSome ∨ w.putting id then none
    else some { w with
      locked := update w.locked id
        ((rearmAlert (w.alert? id) walletId).map LockedWrite.rearm) }
  | .clearRead id walletId =>
    if (w.locked id).isSome ∨ w.putting id then none
    else some { w with
      locked := update w.locked id
        ((rearmAlert (w.alert? id) walletId).map fun _ => LockedWrite.clear) }
  | .lockedWrite id ok =>
    (w.locked id).map fun write =>
      let w := { w with locked := update w.locked id none }
      if ok then
        match write with
        | .rearm record => w.arm record
        | .clear => { w with alerts := Keyed.erase PriceAlert.id id w.alerts }
      else w
  | _ => none

/-- A step of the poll that is under way. -/
def pollStep (interval : ℚ) (w : AlertWorld) (poll : AlertPoll) :
    AlertPc → AlertAct → Option AlertWorld
  | .settings, .settings answer =>
    match answer with
    | none => some w.endPoll
    | some settings =>
      some <| if settings.priceDataEnabled && settings.priceAlerts then
        w.setPc poll (.listing settings.activeNetwork) else w.endPoll
  | .listing activeNetwork, .listed ok =>
    some <| if ¬ok ∨ poll.generation ≠ w.generation then w.endPoll
      else { w with firedLoaded := true }.setPc poll
        (.restoring activeNetwork (!w.firedLoaded) (w.alerts.filter (·.status = AlertStatus.armed))
          w.nextArming)
  | .restoring activeNetwork load armed listedAt, .restored ok now =>
    let restored := if load && ok then w.restore else w
    let pruned := restored.prune interval now (armed.map PriceAlert.id)
    let active := armed.filter fun a => isOnActiveNetwork a.chainId activeNetwork
    some (pruned.setPc poll (.retrying active active listedAt))
  | .retrying left armed listedAt, .advance => some (w.retryNext poll armed listedAt left)
  | .retried armed, .advance =>
    some (w.goPricing poll (groupByCurrency (armed.filter fun a => a.id ∉ w.fired)))
  | .recorded d round, .advance =>
    some <| { w with firedTerms := update w.firedTerms d.id (some d.terms) }.setPc poll
      (.marking d (some d.terms) true (.judging round))
  | .persist next, .advance => some (w.persist poll next)
  | .marking d terms inFire next, .markRead ok now =>
    if (w.locked d.id).isSome then none
    else if ¬ok then some (w.setPc poll next)
    else
      match (w.alert? d.id).filter (markable · terms) with
      | none => some (w.settle poll d inFire now next)
      | some read => some (w.setPc poll (.putting d inFire read (w.arming d.id) next))
  | .putting d inFire read readArming next, .markWrite ok now time =>
    if ¬ok then some (w.setPc poll next)
    else some <| { w with
      alerts := Keyed.upsert PriceAlert.id (read.triggered time) w.alerts
      mismarked := w.mismarked ||
        decide (d.madeAt ≠ w.arming d.id ∨ d.terms ≠ read.terms)
      overwrote := w.overwrote || decide (readArming ≠ w.arming d.id)
      }.settle poll d inFire now next
  | .saving out next, .saved ok =>
    some <| { w with
      stored := if ok then out else w.stored
      firedDirty := if ok then false else w.firedDirty
      saved := if ok then out ++ w.saved else w.saved }.setPc poll next
  | .pricing ((_, alerts) :: groups), .priced answer =>
    match answer with
    | none => some (w.goPricing poll groups)
    | some prices =>
      some <| if poll.generation ≠ w.generation then w.endPoll
        else prices.elim (w.goPricing poll groups) fun prices =>
          w.setPc poll (.reading ⟨alerts, prices, fun _ => none, groups⟩)
  | .reading round, .currentRead ok =>
    some (if ¬ok ∨ poll.generation ≠ w.generation then w.endPoll
      else w.setPc poll (.judging { round with current := w.currentTerms }))
  | .judging round, .judge now quiet accepted =>
    some (w.judgeNext poll round now (quiet || accepted))
  | .delivering d accepted round, .noted => some (w.noted poll d accepted round)
  | _, _ => none

/-- One step. `pollOnce` does nothing while a poll is under way, and `stop` comes while a poll
waits. -/
def step (interval : ℚ) (w : AlertWorld) : AlertAct → Option AlertWorld
  | .poll => some (if w.poll.isSome then w else { w with poll := some ⟨w.generation, .settings⟩ })
  | .stop =>
    if w.poll.all (·.pc.awaits) then some { w with
      generation := w.generation + 1
      fired := []
      pending := []
      firedTerms := fun _ => none
      settledAt := fun _ => none
      firedLoaded := false
      firedDirty := false }
    else none
  | a => (w.userStep a).or (w.poll.bind fun poll => w.pollStep interval poll poll.pc a)

end AlertWorld

end XchainWallet
