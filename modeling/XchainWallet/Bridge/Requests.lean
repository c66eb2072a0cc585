import XchainWallet.Bridge.Sites
import XchainWallet.Keyed.List
import XchainWallet.Transition.Run

/-!
# Bridge requests as one system

The handlers of the bridge against the store of connected sites, at the awaits where another handler or the
wallet can come between: the lookup of the site, the write of its last use, the prompt, the second lookup
after the answer, the signing flow, and the write of a permission that the user wants to keep. Beside them
the wallet deletes records, edits permissions and takes accounts out of grants. A handler works on the copy
that it read. The system also keeps what only the statements read: all contents that the store had, what the
user took back, and whose copies have gone stale.
-/

namespace XchainWallet.Bridge

open Checks Function
open Option (some.inj)

/-! ### What permissions can be taken back -/

/-- A chain, an account or a method. -/
inductive Grant where
  | chain (chainId : String)
  | account (id : String)
  | message
  /-- The action may be asked for. -/
  | action (name : String)
  /-- The action needs no question. -/
  | alwaysAction (name : String)
  deriving DecidableEq

def SitePermissions.Grants (p : SitePermissions) : Grant → Prop
  | .chain chainId => p.HasChain chainId
  | .account id => p.HasAccount id
  | .message => p.canSignMessage = true
  | .action name => p.action name ≠ .never
  | .alwaysAction name => p.action name = .always

instance (p : SitePermissions) : DecidablePred p.Grants
  | .chain chainId => inferInstanceAs (Decidable (p.HasChain chainId))
  | .account id => inferInstanceAs (Decidable (p.HasAccount id))
  | .message => inferInstanceAs (Decidable (_ = true))
  | .action _ => inferInstanceAs (Decidable (_ ≠ _))
  | .alwaysAction _ => inferInstanceAs (Decidable (_ = _))

/-- What `savePermanent` keeps: the copy of the permissions with the method that the user allowed. -/
def savedPermissions (p : SitePermissions) : SignRequest → Option SitePermissions
  | .message _ _ => if p.canSignMessage then none else some { p with canSignMessage := true }
  | .action _ name _ =>
    some { p with canSignAction := update p.canSignAction name (some .always) }
  | _ => none

/-! ### Requests -/

inductive Method where
  | getAccounts
  | getAddresses (chainId : String)
  | getBalances (chainId address : String)
  /-- The signing methods: what is to be signed, whether one prompt is for all of it, and whether a
  password from an earlier approval may be used. -/
  | sign (requests : List SignRequest) (grouped cacheable : Bool)
  | connect
  | disconnect

namespace Method

def signMessage (chainId address : String) : Method := .sign [.message chainId address] false true

def signAction (chainId action fromAddress : String) : Method :=
  .sign [.action chainId action fromAddress] false true

def signPsbt (chainId : String) (signingPaths : List SigningPath) : Method :=
  .sign [.psbt chainId signingPaths] false false

def coSign (chainId aggregateAddress : String) : Method :=
  .sign [.coSign chainId aggregateAddress] false false

def signIn (coins : List String) (chainId : String) : Method := .sign [.signIn coins chainId] false false

/-- `grouped` says that the shell has a prompt for the whole batch. -/
def parallel (actions : List (String × String × String)) (grouped : Bool) : Method :=
  .sign (actions.map fun a => .action a.1 a.2.1 a.2.2) grouped false

end Method

/-- Where a handler stands, with the copy of the site that it read. -/
inductive Stage where
  | idle
  /-- Before the lookup of the site. -/
  | arrived (method : Method)
  /-- A reading method before its second lookup. -/
  | reading (method : Method) (site : ConnectedSite)
  /-- A signing method before the write of the last use. -/
  | found (site : ConnectedSite)
  /-- Before the checks of the next signature. -/
  | ready (site : ConnectedSite)
  /-- The user is asked. -/
  | prompted (site : ConnectedSite)
  /-- Before the second lookup. -/
  | approved (site : ConnectedSite)
  /-- In the signing flow. -/
  | held (site : ConnectedSite)
  /-- Before the write of a permission that is kept. -/
  | saving (site : ConnectedSite)
  /-- Before the delete of `disconnect`, or of `connect` where the record was approved automatically. -/
  | dropping (method : Method) (site : ConnectedSite)
  /-- `connect` behind the connect of another tab. -/
  | waiting (tab : ℕ)
  /-- `connect` while the user is asked. -/
  | connecting
  /-- `connect` before its second lookup. -/
  | granting (permissions : SitePermissions) (autoApproved : Bool)
  /-- `connect` before the write of the new record. -/
  | storing (permissions : SitePermissions) (autoApproved : Bool)
  /-- `connect` before the write of the last use. -/
  | touching (site : ConnectedSite)
  /-- `connect` before its answer. -/
  | listing (permissions : SitePermissions)
  /-- The wallet takes accounts out of the grant. -/
  | removing (site : ConnectedSite) (accounts : List String)
  | finished

/-- The copy that may be written back. -/
def Stage.copy : Stage → Option ConnectedSite
  | .found site | .ready site | .prompted site | .approved site | .held site | .saving site
  | .touching site | .removing site _ => some site
  | _ => none

structure Request where
  origin : String
  stage : Stage
  work : List SignRequest
  grouped : Bool
  cacheable : Bool
  /-- The grouped prompt was approved. -/
  decided : Bool
  decision : Decision
  toSave : Option SitePermissions
  /-- The moment the request began, and the one it was approved last. -/
  began : ℕ
  approvedAt : ℕ
  /-- The copy grants something that the user took back since it was read. -/
  stale : Prop
  answers : List (ℕ × Answer)

/-- The grants that a handler may write: those of its copy, and the one that the user wants to keep. -/
def Request.Writes (q : Request) (id : ℕ) (g : Grant) : Prop :=
  ∃ site, q.stage.copy = some site ∧ site.id = id ∧
    (site.permissions.Grants g ∨ ∃ p, q.toSave = some p ∧ p.Grants g)

structure BridgeState where
  sites : List ConnectedSite
  /-- The contents that the store had, the present one last. -/
  moments : List (List ConnectedSite)
  requests : ℕ → Request
  connectsInFlight : String → Option ℕ
  autoApprove : String → Bool
  nextId : ℕ
  deleted : ℕ → Prop
  taken : ℕ → Grant → Prop

/-- The sites that the wallet starts with. -/
structure Saved where
  sites : List ConnectedSite
  nextId : ℕ
  distinct : Keyed.Distinct ConnectedSite.id sites
  below : ∀ site ∈ sites, site.id < nextId
  single : (sites.map ConnectedSite.origin).Nodup

def Request.idle : Request where
  origin := ""
  stage := .idle
  work := []
  grouped := false
  cacheable := false
  decided := false
  decision := ⟨false, "", ""⟩
  toSave := none
  began := 0
  approvedAt := 0
  stale := False
  answers := []

def start (saved : Saved) (autoApprove : String → Bool) : BridgeState where
  sites := saved.sites
  moments := [saved.sites]
  requests _ := Request.idle
  connectsInFlight _ := none
  autoApprove := autoApprove
  nextId := saved.nextId
  deleted _ := False
  taken _ _ := False

namespace BridgeState

/-- The present moment. -/
def now (w : BridgeState) : ℕ := w.moments.length - 1

def findConnectedSite (w : BridgeState) (origin : String) : Option ConnectedSite :=
  Keyed.find ConnectedSite.origin origin w.sites

def setRequest (w : BridgeState) (r : ℕ) (q : Request) : BridgeState :=
  { w with requests := update w.requests r q }

def setStage (w : BridgeState) (r : ℕ) (stage : Stage) : BridgeState :=
  w.setRequest r { w.requests r with stage := stage }

/-- The request goes on with a copy that it just read. -/
def hold (w : BridgeState) (r : ℕ) (stage : Stage) : BridgeState :=
  w.setRequest r { w.requests r with stage := stage, toSave := none, stale := False }

/-! ### Writes of the store -/

def setSites (w : BridgeState) (sites : List ConnectedSite) : BridgeState :=
  { w with sites := sites, moments := w.moments ++ [sites] }

/-- `connectedSites.put`. -/
def put (w : BridgeState) (site : ConnectedSite) : BridgeState :=
  w.setSites (Keyed.upsert ConnectedSite.id site w.sites)

/-- `connectedSites.delete`. Copies of the record are stale from here on. -/
def delete (w : BridgeState) (id : ℕ) : BridgeState :=
  { w.setSites (Keyed.erase ConnectedSite.id id w.sites) with
    deleted := fun j => (j = id ∧ ∃ site ∈ w.sites, site.id = id) ∨ w.deleted j
    requests := fun r => { w.requests r with
      stale := (w.requests r).stale ∨ ∃ site, (w.requests r).stage.copy = some site ∧ site.id = id } }

/-- The record under `id` grants `g` now. -/
def Granted (w : BridgeState) (id : ℕ) (g : Grant) : Prop :=
  ∃ site ∈ w.sites, site.id = id ∧ site.permissions.Grants g

/-- The user wants the record under `id` to grant no more than `p`: copies that would write more of what it
grants now are stale. -/
def takeBack (w : BridgeState) (id : ℕ) (p : SitePermissions) : BridgeState :=
  { w with
    taken := fun j g => w.taken j g ∨ (j = id ∧ w.Granted id g ∧ ¬p.Grants g)
    requests := fun r => { w.requests r with
      stale := (w.requests r).stale ∨
        ∃ g, (w.requests r).Writes id g ∧ w.Granted id g ∧ ¬p.Grants g } }

/-- The user gives what `p` grants. -/
def giveBack (w : BridgeState) (id : ℕ) (p : Grant → Prop) : BridgeState :=
  { w with taken := fun j g => w.taken j g ∧ ¬(j = id ∧ p g) }

/-- An edit of the permissions in the wallet. -/
def edit (w : BridgeState) (site : ConnectedSite) (p : SitePermissions) : BridgeState :=
  ((w.takeBack site.id p).giveBack site.id p.Grants).put { site with permissions := p }

/-- The permissions without the accounts of a removed wallet. -/
def withoutAccounts (p : SitePermissions) (accounts : List String) : SitePermissions :=
  { p with accounts := p.accounts.filter fun id => id ∉ accounts }

/-! ### Signing methods -/

/-- The request goes on with its next signature. -/
def next (w : BridgeState) (r : ℕ) (site : ConnectedSite) : BridgeState :=
  w.setRequest r { w.requests r with
    work := (w.requests r).work.tail
    toSave := none
    stage := if (w.requests r).work.tail = [] then .finished else .ready site }

/-- The checks before the prompt, and the prompt. A grouped prompt comes before the checks. -/
def ask (wallet : Wallet) (w : BridgeState) (r : ℕ) (site : ConnectedSite) : BridgeState :=
  let q := w.requests r
  if q.grouped ∧ q.decided = false then w.setStage r (.prompted site)
  else
    match q.work with
    | [] => w.setStage r .finished
    | request :: _ =>
      match beforePrompt wallet site.permissions request with
      | .error _ => w.next r site
      | .ok _ => w.setStage r (if q.decided then .approved site else .prompted site)

/-- A password from an earlier approval takes the place of the prompt. -/
def useCache (wallet : Wallet) (w : BridgeState) (r : ℕ) (site : ConnectedSite) : BridgeState :=
  let q := w.requests r
  match q.work with
  | [] => w.setStage r .finished
  | request :: _ =>
    match beforePrompt wallet site.permissions request with
    | .error _ => w.next r site
    | .ok _ =>
      w.setRequest r { q with
        approvedAt := q.began
        stage :=
          match request with
          | .message _ _ => .held site
          | _ => .approved site }

/-- The user approves. What is to be kept is given from here on. -/
def approve (w : BridgeState) (r : ℕ) (site : ConnectedSite) (decision : Decision) : BridgeState :=
  let q := w.requests r
  if q.grouped ∧ q.decided = false then
    w.setRequest r { q with decided := true, decision := decision, approvedAt := w.now, stage := .ready site }
  else
    let toSave :=
      if decision.savePermanent then q.work.head?.bind (savedPermissions site.permissions) else none
    (w.giveBack site.id fun g => ∃ p, toSave = some p ∧ p.Grants g ∧ ¬site.permissions.Grants g).setRequest r
      { q with decision := decision, approvedAt := w.now, toSave := toSave, stage := .approved site }

/-- `assertGrantStillHeld`. -/
def assertGrantStillHeld (w : BridgeState) (r : ℕ) (site : ConnectedSite) : BridgeState :=
  match w.findConnectedSite (w.requests r).origin with
  | none => w.next r site
  | some current => if current.id = site.id then w.setStage r (.held site) else w.next r site

/-- The signing flow ends, with its answer or without. -/
def sign (wallet : Wallet) (w : BridgeState) (r : ℕ) (site : ConnectedSite) : BridgeState :=
  let q := w.requests r
  match q.work with
  | [] => w.setStage r .finished
  | request :: _ =>
    match afterApproval wallet site.permissions q.decision request with
    | .error _ => w.next r site
    | .ok answer =>
      let w := w.setRequest r { q with answers := q.answers ++ [(q.approvedAt, answer)] }
      if q.toSave.isSome then w.setStage r (.saving site) else w.next r site

/-! ### Reading methods -/

/-- What a reading method checks, once against the copy and once against the present record. -/
def readCheck (wallet : Wallet) (p : SitePermissions) : Method → Except String Unit
  | .getAddresses chainId => do
    assertChainPermitted p chainId
    let _ ← orRefuse (wallet.descriptor chainId) "UNKNOWN_CHAIN"
    assertChainOnActiveNetwork wallet chainId
  | .getBalances chainId address => do
    assertChainPermitted p chainId
    assertChainOnActiveNetwork wallet chainId
    refuseIf (siteHasAddress wallet p chainId address = false) "ADDRESS_NOT_PERMITTED"
  | _ => .ok ()

/-- What a reading method hands out. -/
def readAnswer (wallet : Wallet) (p : SitePermissions) : Method → Answer
  | .getAddresses chainId =>
    match wallet.descriptor chainId with
    | none => .addresses chainId []
    | some d => .addresses chainId (addressRecordsFrom wallet p d)
  | .getBalances chainId address => .balances chainId address
  | _ => .accounts (accountRecordsFrom wallet p)

/-- The second lookup of a reading method, and its answer. -/
def readCurrent (wallet : Wallet) (w : BridgeState) (r : ℕ) (method : Method) (site : ConnectedSite) : BridgeState :=
  let q := w.requests r
  match w.findConnectedSite q.origin with
  | none => w.setStage r .finished
  | some current =>
    if current.id = site.id then
      match readCheck wallet current.permissions method with
      | .error _ => w.setStage r .finished
      | .ok _ =>
        w.setRequest r { q with
          answers := q.answers ++ [(q.began, readAnswer wallet current.permissions method)]
          stage := .finished }
    else w.setStage r .finished

/-! ### Connect -/

/-- A connect ends: it leaves the map, and the tabs behind it start again or are rejected with it. -/
def endConnect (w : BridgeState) (r : ℕ) (ok : Bool) : BridgeState :=
  let w := w.setStage r .finished
  if w.connectsInFlight (w.requests r).origin = some r then
    { w with
      connectsInFlight := update w.connectsInFlight (w.requests r).origin none
      requests := fun j =>
        match (w.requests j).stage with
        | .waiting tab =>
          if tab = r then { w.requests j with stage := if ok then .arrived .connect else .finished }
          else w.requests j
        | _ => w.requests j }
  else w

/-- No record is stored for the origin: wait for the connect in flight, or ask the user. -/
def connectAnew (w : BridgeState) (r : ℕ) : BridgeState :=
  match w.connectsInFlight (w.requests r).origin with
  | some tab => w.setStage r (.waiting tab)
  | none =>
    { w.setStage r .connecting with
      connectsInFlight := update w.connectsInFlight (w.requests r).origin (some r) }

/-- The permissions that a decision grants: known accounts only, and the first one where none is left. -/
def grantedPermissions (wallet : Wallet) (p : SitePermissions) : SitePermissions :=
  let known := p.accounts.filter fun id => wallet.accounts.any fun a => a.id = id
  { p with accounts := if known = [] then (wallet.accounts.head?.map Account.id).toList else known }

/-- The user, or the setting for the origin, grants the permissions. -/
def grant (wallet : Wallet) (w : BridgeState) (r : ℕ) (p : SitePermissions) (auto : Bool) : BridgeState :=
  let q := w.requests r
  let autoApproved := auto && w.autoApprove q.origin
  let p := if autoApproved then { p with canSignMessage := false, canSignAction := fun _ => none } else p
  w.setRequest r { q with
    approvedAt := w.now, stage := .granting (grantedPermissions wallet p) autoApproved }

/-- The second lookup: a record that was stored in the meantime wins. -/
def lookAgain (w : BridgeState) (r : ℕ) (p : SitePermissions) (autoApproved : Bool) : BridgeState :=
  match w.findConnectedSite (w.requests r).origin with
  | some stored => w.hold r (.touching stored)
  | none => w.setStage r (.storing p autoApproved)

/-- The new record is stored. -/
def store (w : BridgeState) (r : ℕ) (p : SitePermissions) (autoApproved : Bool) (lastUsedAt : ℕ) : BridgeState :=
  { (w.put ⟨w.nextId, (w.requests r).origin, lastUsedAt, p, autoApproved⟩).setStage r (.listing p) with
    nextId := w.nextId + 1 }

/-- `connect` answers with the accounts of the grant. -/
def answerConnect (wallet : Wallet) (w : BridgeState) (r : ℕ) (p : SitePermissions) : BridgeState :=
  let q := w.requests r
  (w.setRequest r { q with
    answers := q.answers ++ [(q.approvedAt, .accounts (accountRecordsFrom wallet p))] }).endConnect r true

/-! ### The first lookup -/

/-- The lookup that every method begins with. -/
def lookUp (wallet : Wallet) (w : BridgeState) (r : ℕ) (method : Method) : BridgeState :=
  let q := w.requests r
  match w.findConnectedSite q.origin with
  | none =>
    match method with
    | .connect => w.connectAnew r
    | _ => w.setStage r .finished
  | some site =>
    match method with
    | .connect =>
      if site.autoApproved ∧ w.autoApprove q.origin = false then w.setStage r (.dropping method site)
      else w.hold r (.touching site)
    | .disconnect => w.setStage r (.dropping method site)
    | .sign _ _ _ => w.hold r (.found site)
    | _ =>
      match readCheck wallet site.permissions method with
      | .error _ => w.setStage r .finished
      | .ok _ => w.setStage r (.reading method site)

/-- The delete of `disconnect` and `connect`. -/
def drop (w : BridgeState) (r : ℕ) (method : Method) (site : ConnectedSite) : BridgeState :=
  match method with
  | .connect => (w.delete site.id).connectAnew r
  | _ => (w.delete site.id).setStage r .finished

/-- `touchLastUsed`. -/
def touchLastUsed (w : BridgeState) (r : ℕ) (site : ConnectedSite) (lastUsedAt : ℕ) (stage : Stage) : BridgeState :=
  (w.put { site with lastUsedAt := lastUsedAt }).setStage r stage

/-- `updateSitePermissions`, after which the request goes on. -/
def updateSitePermissions (w : BridgeState) (r : ℕ) (site : ConnectedSite) (p : SitePermissions)
    (lastUsedAt : ℕ) : BridgeState :=
  (w.put { site with permissions := p, lastUsedAt := lastUsedAt }).next r site

/-- `removeWallet` rewrites the grant, or deletes a record that has no account left. -/
def removeAccounts (w : BridgeState) (r : ℕ) (site : ConnectedSite) (accounts : List String) : BridgeState :=
  let p := withoutAccounts site.permissions accounts
  if p.accounts = [] then (w.delete site.id).setStage r .finished
  else ((w.takeBack site.id p).put { site with permissions := p }).setStage r .finished

end BridgeState

/-! ### Steps -/

inductive Act where
  | arrive (r : ℕ) (origin : String) (method : Method)
  | lookUp (r : ℕ)
  | readCurrent (r : ℕ)
  | touch (r lastUsedAt : ℕ)
  | ask (r : ℕ)
  | useCache (r : ℕ)
  | approve (r : ℕ) (decision : Decision)
  | recheck (r : ℕ)
  | sign (r : ℕ)
  | save (r lastUsedAt : ℕ)
  | drop (r : ℕ)
  | grant (r : ℕ) (permissions : SitePermissions) (auto : Bool)
  | lookAgain (r : ℕ)
  | store (r lastUsedAt : ℕ)
  | answerConnect (r : ℕ)
  /-- A signature is refused by the user, or fails on its way. -/
  | refuse (r : ℕ)
  /-- The whole request is refused, or fails at an await. -/
  | fail (r : ℕ)
  /-- The wallet revokes a site, or blocks its origin. -/
  | delete (id : ℕ)
  /-- The permissions of a site are edited in the wallet. -/
  | edit (id : ℕ) (permissions : SitePermissions)
  /-- A wallet with these accounts is removed: the grant is read, and written later. -/
  | startRemoval (r id : ℕ) (accounts : List String)
  | removeAccounts (r : ℕ)
  | setAutoApprove (autoApprove : String → Bool)

open BridgeState in
def step (wallet : Wallet) (w : BridgeState) : Act → Option BridgeState
  | .arrive r origin method =>
    match (w.requests r).stage with
    | .idle =>
      let q : Request := { Request.idle with origin := origin, began := w.now, approvedAt := w.now }
      some <| w.setRequest r <|
        match method with
        | .sign requests grouped cacheable =>
          { q with stage := .arrived method, work := requests, grouped := grouped, cacheable := cacheable }
        | _ => { q with stage := .arrived method }
    | _ => none
  | .lookUp r =>
    match (w.requests r).stage with
    | .arrived method => some (w.lookUp wallet r method)
    | _ => none
  | .readCurrent r =>
    match (w.requests r).stage with
    | .reading method site => some (w.readCurrent wallet r method site)
    | _ => none
  | .touch r lastUsedAt =>
    match (w.requests r).stage with
    | .found site => some (w.touchLastUsed r site lastUsedAt (.ready site))
    | .touching site => some (w.touchLastUsed r site lastUsedAt (.listing site.permissions))
    | _ => none
  | .ask r =>
    match (w.requests r).stage with
    | .ready site => some (w.ask wallet r site)
    | _ => none
  | .useCache r =>
    match (w.requests r).stage with
    | .ready site => if (w.requests r).cacheable then some (w.useCache wallet r site) else none
    | _ => none
  | .approve r decision =>
    match (w.requests r).stage with
    | .prompted site => some (w.approve r site decision)
    | _ => none
  | .recheck r =>
    match (w.requests r).stage with
    | .approved site => some (w.assertGrantStillHeld r site)
    | _ => none
  | .sign r =>
    match (w.requests r).stage with
    | .held site => some (w.sign wallet r site)
    | _ => none
  | .save r lastUsedAt =>
    match (w.requests r).stage, (w.requests r).toSave with
    | .saving site, some permissions => some (w.updateSitePermissions r site permissions lastUsedAt)
    | _, _ => none
  | .drop r =>
    match (w.requests r).stage with
    | .dropping method site => some (w.drop r method site)
    | _ => none
  | .grant r permissions auto =>
    match (w.requests r).stage with
    | .connecting => some (w.grant wallet r permissions auto)
    | _ => none
  | .lookAgain r =>
    match (w.requests r).stage with
    | .granting permissions autoApproved => some (w.lookAgain r permissions autoApproved)
    | _ => none
  | .store r lastUsedAt =>
    match (w.requests r).stage with
    | .storing permissions autoApproved => some (w.store r permissions autoApproved lastUsedAt)
    | _ => none
  | .answerConnect r =>
    match (w.requests r).stage with
    | .listing permissions => some (w.answerConnect wallet r permissions)
    | _ => none
  | .refuse r =>
    match (w.requests r).stage with
    | .ready site | .prompted site | .approved site | .held site => some (w.next r site)
    | _ => none
  | .fail r =>
    match (w.requests r).stage with
    | .idle | .finished => none
    | _ => some (w.endConnect r false)
  | .delete id => some (w.delete id)
  | .edit id permissions =>
    match Keyed.find ConnectedSite.id id w.sites with
    | none => none
    | some site => some (w.edit site permissions)
  | .startRemoval r id accounts =>
    match (w.requests r).stage, Keyed.find ConnectedSite.id id w.sites with
    | .idle, some site =>
      if site.permissions.accounts.any fun a => a ∈ accounts then
        some (w.setRequest r { Request.idle with stage := .removing site accounts })
      else none
    | _, _ => none
  | .removeAccounts r =>
    match (w.requests r).stage with
    | .removing site accounts => some (w.removeAccounts r site accounts)
    | _ => none
  | .setAutoApprove autoApprove => some { w with autoApprove := autoApprove }

/-- What a step can do, with the stage that its request was in. -/
inductive Moves (wallet : Wallet) (w : BridgeState) : Act → BridgeState → Prop
  | arrive {r : ℕ} {origin : String} {method : Method} {q : Request} (hstage : (w.requests r).stage = .idle)
      (horigin : q.origin = origin) (hstageNew : q.stage = .arrived method) (hbegan : q.began = w.now)
      (happroved : q.approvedAt = w.now) (hanswers : q.answers = []) :
      Moves wallet w (.arrive r origin method) (w.setRequest r q)
  | lookUp {r : ℕ} {method : Method} (hstage : (w.requests r).stage = .arrived method) :
      Moves wallet w (.lookUp r) (w.lookUp wallet r method)
  | readCurrent {r : ℕ} {method : Method} {site : ConnectedSite}
      (hstage : (w.requests r).stage = .reading method site) :
      Moves wallet w (.readCurrent r) (w.readCurrent wallet r method site)
  | touchFound {r lastUsedAt : ℕ} {site : ConnectedSite} (hstage : (w.requests r).stage = .found site) :
      Moves wallet w (.touch r lastUsedAt) (w.touchLastUsed r site lastUsedAt (.ready site))
  | touchStored {r lastUsedAt : ℕ} {site : ConnectedSite} (hstage : (w.requests r).stage = .touching site) :
      Moves wallet w (.touch r lastUsedAt) (w.touchLastUsed r site lastUsedAt (.listing site.permissions))
  | ask {r : ℕ} {site : ConnectedSite} (hstage : (w.requests r).stage = .ready site) :
      Moves wallet w (.ask r) (w.ask wallet r site)
  | useCache {r : ℕ} {site : ConnectedSite} (hstage : (w.requests r).stage = .ready site) :
      Moves wallet w (.useCache r) (w.useCache wallet r site)
  | approve {r : ℕ} {decision : Decision} {site : ConnectedSite}
      (hstage : (w.requests r).stage = .prompted site) :
      Moves wallet w (.approve r decision) (w.approve r site decision)
  | recheck {r : ℕ} {site : ConnectedSite} (hstage : (w.requests r).stage = .approved site) :
      Moves wallet w (.recheck r) (w.assertGrantStillHeld r site)
  | sign {r : ℕ} {site : ConnectedSite} (hstage : (w.requests r).stage = .held site) :
      Moves wallet w (.sign r) (w.sign wallet r site)
  | save {r lastUsedAt : ℕ} {site : ConnectedSite} {p : SitePermissions}
      (hstage : (w.requests r).stage = .saving site) (hsave : (w.requests r).toSave = some p) :
      Moves wallet w (.save r lastUsedAt) (w.updateSitePermissions r site p lastUsedAt)
  | drop {r : ℕ} {method : Method} {site : ConnectedSite}
      (hstage : (w.requests r).stage = .dropping method site) :
      Moves wallet w (.drop r) (w.drop r method site)
  | grant {r : ℕ} {p : SitePermissions} {auto : Bool} (hstage : (w.requests r).stage = .connecting) :
      Moves wallet w (.grant r p auto) (w.grant wallet r p auto)
  | lookAgain {r : ℕ} {p : SitePermissions} {autoApproved : Bool}
      (hstage : (w.requests r).stage = .granting p autoApproved) :
      Moves wallet w (.lookAgain r) (w.lookAgain r p autoApproved)
  | store {r lastUsedAt : ℕ} {p : SitePermissions} {autoApproved : Bool}
      (hstage : (w.requests r).stage = .storing p autoApproved) :
      Moves wallet w (.store r lastUsedAt) (w.store r p autoApproved lastUsedAt)
  | answerConnect {r : ℕ} {p : SitePermissions} (hstage : (w.requests r).stage = .listing p) :
      Moves wallet w (.answerConnect r) (w.answerConnect wallet r p)
  | refuse {r : ℕ} {site : ConnectedSite} (hstage : (w.requests r).stage = .ready site ∨
        (w.requests r).stage = .prompted site ∨ (w.requests r).stage = .approved site ∨
        (w.requests r).stage = .held site) :
      Moves wallet w (.refuse r) (w.next r site)
  | fail {r : ℕ} (hidle : (w.requests r).stage ≠ .idle) (hfinished : (w.requests r).stage ≠ .finished) :
      Moves wallet w (.fail r) (w.endConnect r false)
  | delete {id : ℕ} : Moves wallet w (.delete id) (w.delete id)
  | edit {id : ℕ} {p : SitePermissions} {site : ConnectedSite} (hsite : site ∈ w.sites) (hid : site.id = id) :
      Moves wallet w (.edit id p) (w.edit site p)
  | startRemoval {r id : ℕ} {accounts : List String} {site : ConnectedSite}
      (hstage : (w.requests r).stage = .idle) (hsite : site ∈ w.sites) :
      Moves wallet w (.startRemoval r id accounts)
        (w.setRequest r { Request.idle with stage := .removing site accounts })
  | removeAccounts {r : ℕ} {site : ConnectedSite} {accounts : List String}
      (hstage : (w.requests r).stage = .removing site accounts) :
      Moves wallet w (.removeAccounts r) (w.removeAccounts r site accounts)
  | setAutoApprove {autoApprove : String → Bool} :
      Moves wallet w (.setAutoApprove autoApprove) { w with autoApprove := autoApprove }

theorem moves_of_step {wallet : Wallet} {w w' : BridgeState} {a : Act} (h : step wallet w a = some w') :
    Moves wallet w a w' := by
  cases a with
  | arrive r origin method =>
    simp only [step] at h
    split at h
    · next hstage =>
      cases h
      cases method <;> exact .arrive hstage rfl rfl rfl rfl rfl
    · cases h
  | touch r lastUsedAt =>
    simp only [step] at h
    split at h
    · next hstage => exact some.inj h ▸ .touchFound hstage
    · next hstage => exact some.inj h ▸ .touchStored hstage
    · cases h
  | useCache r =>
    simp only [step] at h
    split at h
    · next hstage =>
      split at h
      · exact some.inj h ▸ .useCache hstage
      · cases h
    · cases h
  | save r lastUsedAt =>
    simp only [step] at h
    split at h
    · next hstage hsave => exact some.inj h ▸ .save hstage hsave
    · cases h
  | refuse r =>
    simp only [step] at h
    split at h
    · next hstage => exact some.inj h ▸ .refuse (.inl hstage)
    · next hstage => exact some.inj h ▸ .refuse (.inr (.inl hstage))
    · next hstage => exact some.inj h ▸ .refuse (.inr (.inr (.inl hstage)))
    · next hstage => exact some.inj h ▸ .refuse (.inr (.inr (.inr hstage)))
    · cases h
  | fail r =>
    simp only [step] at h
    split at h
    · cases h
    · cases h
    · next hidle hfinished => exact some.inj h ▸ .fail hidle hfinished
  | edit id p =>
    simp only [step] at h
    split at h
    · cases h
    · next hfind => exact some.inj h ▸ .edit (Keyed.mem_of_find hfind) (Keyed.key_of_find hfind)
  | startRemoval r id accounts =>
    simp only [step] at h
    split at h
    · next hstage hfind =>
      split at h
      · exact some.inj h ▸ .startRemoval hstage (Keyed.mem_of_find hfind)
      · cases h
    · cases h
  | delete id => exact some.inj h ▸ .delete
  | setAutoApprove autoApprove => exact some.inj h ▸ .setAutoApprove
  | lookUp r | readCurrent r | ask r | approve r decision | recheck r | sign r | drop r
  | grant r p auto | lookAgain r | store r lastUsedAt | answerConnect r | removeAccounts r =>
    simp only [step] at h
    split at h
    · next hstage =>
      cases h
      constructor
      exact hstage
    · cases h

/-! ### The end of a connect -/

/-- A connect that ends changes its own stage, and that of the tabs behind it. -/
theorem requests_endConnect (w : BridgeState) (r : ℕ) (ok : Bool) (s : ℕ) :
    (w.endConnect r ok).requests s = (w.setStage r .finished).requests s ∨
      (w.requests s).stage = .waiting r ∧ s ≠ r ∧
        (w.endConnect r ok).requests s =
          { w.requests s with stage := if ok then .arrived .connect else .finished } := by
  simp only [BridgeState.endConnect]
  split
  · rcases eq_or_ne s r with rfl | hsr
    · refine .inl ?_
      simp only [BridgeState.setStage, BridgeState.setRequest, update_self]
    · simp only [BridgeState.setStage, BridgeState.setRequest, update_of_ne hsr]
      rcases hstage : (w.requests s).stage with _ | _ | _ | _ | _ | _ | _ | _ | _ | _ | tab
      case waiting =>
        rcases eq_or_ne tab r with rfl | htab
        · exact .inr ⟨rfl, hsr, if_pos rfl⟩
        · exact .inl (if_neg htab)
      all_goals exact .inl rfl
  · exact .inl rfl

/-- The map of connects in flight loses at most the one that ends. -/
theorem connectsInFlight_endConnect {w : BridgeState} {r s : ℕ} {ok : Bool} {origin : String} (hsr : s ≠ r)
    (h : w.connectsInFlight origin = some s) : (w.endConnect r ok).connectsInFlight origin = some s := by
  simp only [BridgeState.endConnect]
  split
  · next hflight =>
    refine (update_of_ne (fun horigin => hsr ?_) _ _).trans h
    rw [← horigin] at hflight
    exact some.inj (h.symm.trans hflight)
  · exact h

/-- Nothing else changes. -/
theorem endConnect_frame (w : BridgeState) (r : ℕ) (ok : Bool) :
    ∃ requests connectsInFlight, w.endConnect r ok =
      { w with requests := requests, connectsInFlight := connectsInFlight } := by
  simp only [BridgeState.endConnect]
  split
  · exact ⟨_, _, rfl⟩
  · exact ⟨_, _, rfl⟩

/-! ### A wallet and a site -/

/-- A wallet with one address, in one account. -/
def oneAddress : Wallet where
  accounts := [⟨"main", "Main"⟩]
  addresses := [⟨"a0", "bc1q", "BTC", "mainnet", some "main", some "m/84'/0'/0'/0/0"⟩]
  coSignerAccounts := []
  descriptor chainId := if chainId = "btc" then some ⟨"BTC", "mainnet"⟩ else none
  chainIdFor coin network := if coin = "BTC" ∧ network = "mainnet" then some "btc" else none
  activeNetwork := "mainnet"

/-- One site, which may see the account. -/
def oneSite : Saved where
  sites := [⟨0, "https://dapp", 0, ⟨["btc"], ["main"], false, fun _ => none⟩, false⟩]
  nextId := 1
  distinct := by decide
  below := by decide
  single := by decide

end XchainWallet.Bridge
