import XchainWallet.Notifications.PriceAlertWatcher

/-!
# What the watcher of price alerts keeps

What a delivery leaves behind, until the alert is stored as triggered, is an id with the terms that
it was made under; across a restart it is the id alone. So an edit under other terms is told from
the delivered alert within a session, but neither an arming under the same terms nor any edit before
a restart is. `CarefulAlerts` names the steps that confuse neither, and `AlertsSound` what the
watcher then keeps of its deliveries until they are settled. The calls of the user keep it so. -/

namespace XchainWallet

open Transition Function

/-- **Deliveries settle their own arming**: no alert has been stored as triggered because of a
delivery under other terms or before its latest arming, no edit has been overwritten by such a
write, and no delivery whose record was saved has been made again for the same arming. -/
def AlertsSafe (w : AlertWorld) : Prop :=
  w.mismarked = false ∧ w.overwrote = false ∧ w.repeated = false

/-! ### Careful steps -/

namespace AlertPc

/-- The delivery that a poll has made and whose terms it has not noted yet. -/
def token : AlertPc → Option AlertDelivery
  | .delivering d true _ => some d
  | .recorded d _ | .persist (.recorded d _) | .saving _ (.recorded d _) => some d
  | _ => none

/-- The poll has no notification, no write and no read of the records under way. -/
def interruptible : AlertPc → Bool
  | .settings | .listing _ | .pricing _ | .reading _ => true
  | _ => false

/-- The armed alerts of a poll that reads the records. -/
def loads : AlertPc → Option (List PriceAlert)
  | .restoring _ true armed _ => some armed
  | _ => none

/-- The records are about to be written. -/
def persists : AlertPc → Bool
  | .persist _ => true
  | _ => false

end AlertPc

/-- The record that a write arms. -/
def LockedWrite.armed? : LockedWrite → Option PriceAlert
  | .rearm record => some record
  | .clear => none

/-- The alert has been neither edited nor armed since the delivery, which was made under its terms.
-/
def AlertState.Standing (w : AlertState) (d : AlertDelivery) : Prop :=
  w.arming d.id = d.madeAt ∧ ∀ r ∈ w.alert? d.id, r.terms = d.terms

instance (w : AlertState) (d : AlertDelivery) : Decidable (w.Standing d) :=
  inferInstanceAs (Decidable (_ ∧ _))

namespace AlertWorld

def token (w : AlertWorld) : Option AlertDelivery := w.poll.bind (·.pc.token)

/-- The deliveries that are not settled. -/
def outstanding (w : AlertWorld) : List AlertDelivery := w.pending ++ w.token.toList

/-- The watcher knows the terms of the delivery. -/
def Known (w : AlertWorld) (d : AlertDelivery) : Prop :=
  w.firedTerms d.id = some d.terms ∨ w.token = some d

instance (w : AlertWorld) (d : AlertDelivery) : Decidable (w.Known d) :=
  inferInstanceAs (Decidable (_ ∨ _))

/-- An edit or an arming that no delivery is taken for: it does not come between the read and the
write of a triggered state, and its terms are none of those that an outstanding delivery was made
under, which the watcher knows. -/
def CarefulArm (w : AlertWorld) (record : PriceAlert) : Prop :=
  w.putting record.id = false ∧
    ∀ d ∈ w.outstanding, d.id = record.id → w.Known d ∧ record.terms ≠ d.terms

instance (w : AlertWorld) (record : PriceAlert) : Decidable (w.CarefulArm record) :=
  inferInstanceAs (Decidable (_ ∧ _))

end AlertWorld

/-- **The conditions of a step**: edits are careful; a stop comes while the poll has nothing under
way but a read of the settings, the alerts or the prices; the records that are read back stand for
their alerts; and the cap drops none. -/
def CarefulAlerts (w : AlertWorld) : AlertAct → Prop
  | .saveWrite i ok => ok = true → ∀ record ∈ w.saves i, w.CarefulArm record
  | .lockedWrite id ok =>
    ok = true → ∀ record ∈ (w.locked id).bind LockedWrite.armed?, w.CarefulArm record
  | .stop => ∀ poll ∈ w.poll, poll.pc.interruptible = true
  | .restored ok _ => ∀ poll ∈ w.poll, ∀ armed ∈ poll.pc.loads,
      ok = true ∧ ∀ d ∈ w.stored, d.id ∈ armed.map PriceAlert.id → w.Standing d
  | .advance => ∀ poll ∈ w.poll, poll.pc.persists = true → w.pending.length ≤ FIRED_CAP
  | _ => True

instance (w : AlertWorld) (a : AlertAct) : Decidable (CarefulAlerts w a) := by
  cases a <;> unfold CarefulAlerts <;> infer_instance

/-! ### The invariant -/

namespace AlertState

/-- The alert is armed, and it is the arming that the delivery was made for. -/
def Live (w : AlertState) (d : AlertDelivery) : Prop :=
  w.arming d.id = d.arming ∧ ∃ r, w.alert? d.id = some r ∧ r.status = .armed

/-- As long as its arming lasts, the alert has the terms of the delivery. -/
def Faithful (w : AlertState) (d : AlertDelivery) : Prop :=
  d.arming < w.nextArming ∧
    (w.arming d.id = d.arming → ∀ r, w.alert? d.id = some r → r.terms = d.terms)

/-- Once the alert has been edited or armed since the delivery, it has other terms. -/
def Shielded (w : AlertState) (d : AlertDelivery) : Prop :=
  w.arming d.id ≠ d.madeAt → ∀ r, w.alert? d.id = some r → r.terms ≠ d.terms

/-- What has been listed is still so where it has not been edited or armed since. -/
structure ListOk (w : AlertState) (armed : List PriceAlert) (listedAt : ℕ) : Prop where
  listed : listedAt ≤ w.nextArming
  savedBefore : ∀ d ∈ w.saved, d.arming < listedAt
  terms : ∀ a ∈ armed, w.arming a.id < listedAt → ∀ r, w.alert? a.id = some r → r.terms = a.terms
  nodup : (armed.map PriceAlert.id).Nodup

/-- Every alert is listed that is armed and has not been edited or armed since. -/
def Complete (w : AlertState) (armed : List PriceAlert) (listedAt : ℕ) : Prop :=
  ∀ id r, w.alert? id = some r → r.status = .armed → w.arming id < listedAt →
    id ∈ armed.map PriceAlert.id

/-- None of the alerts has been delivered for the arming that it has now. -/
structure Undelivered (w : AlertState) (alerts : List PriceAlert) : Prop where
  nodup : (alerts.map PriceAlert.id).Nodup
  notPending : ∀ a ∈ alerts, ∀ d ∈ w.pending, d.id ≠ a.id
  notLive : ∀ a ∈ alerts, ∀ d ∈ w.saved, d.id = a.id → ¬w.Live d

end AlertState

/-- The alerts that a poll has still to judge. -/
def AlertRound.left (round : AlertRound) : List PriceAlert :=
  round.alerts ++ round.groups.flatMap Prod.snd

namespace AlertState

/-- The current terms of a round are those of their armings, and no alert of the round has been
delivered for its arming. -/
structure RoundOk (w : AlertState) (round : AlertRound) : Prop extends
    Undelivered w round.left where
  young : ∀ id terms arming, round.current id = some (terms, arming) → arming < w.nextArming
  terms : ∀ id terms arming, round.current id = some (terms, arming) → w.arming id = arming →
    ∀ r, w.alert? id = some r → r.terms = terms
  unsaved : ∀ a ∈ round.alerts, ∀ terms arming, round.current a.id = some (terms, arming) →
    ∀ d ∈ w.saved, d.id = a.id → d.arming ≠ arming

/-- What follows a write of the triggered state. -/
def RestOk (w : AlertState) : Bool → AlertPc → Prop
  | true, .judging round => w.RoundOk round
  | false, .retrying left armed listedAt => w.ListOk armed listedAt ∧ ∀ a ∈ left, a ∈ armed
  | _, _ => False

/-- What follows a write of the records. -/
def NextOk (w : AlertState) : AlertPc → Prop
  | .retried armed => (armed.map PriceAlert.id).Nodup
  | .judging round => w.RoundOk round
  | .recorded d round => w.RoundOk round ∧ d ∈ w.pending
  | _ => False

/-- The terms that a write of the triggered state is given are those of its delivery, and where none
are given the delivery stands. -/
structure MarkOk (w : AlertState) (d : AlertDelivery) (terms : Option AlertTerms) : Prop where
  pending : d ∈ w.pending
  given : w.firedTerms d.id = terms
  known : terms = some d.terms ∨ terms = none ∧ w.Standing d

/-- The alert that a write of the triggered state has read is the stored one, and the delivery is
its latest. -/
structure PutOk (w : AlertState) (d : AlertDelivery) (read : PriceAlert) (readArming : ℕ) :
    Prop where
  pending : d ∈ w.pending
  stored : w.alert? d.id = some read
  arming : w.arming d.id = readArming
  madeAt : d.madeAt = w.arming d.id
  terms : d.terms = read.terms
  unlocked : w.locked d.id = none

/-- A delivery whose notification is under way. -/
structure DeliverOk (w : AlertState) (d : AlertDelivery) (accepted : Bool) (round : AlertRound) :
    Prop where
  left : ∀ a ∈ round.left, a.id ≠ d.id
  notPending : ∀ d' ∈ w.pending, d'.id ≠ d.id
  fired : d.id ∈ w.fired
  faithful : w.Faithful d
  shielded : accepted = true → w.Shielded d

/-- What holds in each phase of a poll. -/
def PcOk (w : AlertState) (generation : ℕ) : AlertPc → Prop
  | .settings | .listing _ => True
  | .restoring _ load armed listedAt =>
    w.firedLoaded = true ∧
      (load = true → w.pending = [] ∧ w.fired = [] ∧ ∀ id, w.firedTerms id = none) ∧
      w.ListOk armed listedAt ∧ w.Complete armed listedAt
  | .retrying left armed listedAt =>
    w.firedLoaded = true ∧ w.ListOk armed listedAt ∧ ∀ a ∈ left, a ∈ armed
  | .retried armed => w.firedLoaded = true ∧ (armed.map PriceAlert.id).Nodup
  | .pricing groups => generation = w.generation →
      w.firedLoaded = true ∧ w.Undelivered (groups.flatMap Prod.snd)
  | .reading round => generation = w.generation → w.firedLoaded = true ∧ w.Undelivered round.left
  | .judging round => w.firedLoaded = true ∧ w.RoundOk round
  | .delivering d accepted round =>
    w.firedLoaded = true ∧ w.RoundOk round ∧ w.DeliverOk d accepted round
  | .recorded d round => w.firedLoaded = true ∧ w.RoundOk round ∧ d ∈ w.pending
  | .marking d terms inFire next =>
    w.firedLoaded = true ∧ w.MarkOk d terms ∧ w.RestOk inFire next
  | .putting d inFire read readArming next =>
    w.firedLoaded = true ∧ w.PutOk d read readArming ∧ w.RestOk inFire next
  | .persist next => w.firedLoaded = true ∧ w.NextOk next
  | .saving out next => w.firedLoaded = true ∧ out = w.pending ∧ w.NextOk next

end AlertState

/-- The records are loaded and not still to be read. -/
def AlertWorld.ready (w : AlertWorld) : Bool :=
  w.firedLoaded && !(w.poll.any fun poll => poll.pc.loads.isSome)

/-- Some delivery of the list is for the same arming. -/
def Matched (ds : List AlertDelivery) (d : AlertDelivery) : Prop :=
  ∃ d' ∈ ds, d'.id = d.id ∧ d'.arming = d.arming

/-- **The watcher keeps what it has delivered until it is settled.** -/
structure AlertsSound (w : AlertWorld) : Prop where
  safe : AlertsSafe w
  distinct : Keyed.Distinct PriceAlert.id w.alerts
  young : ∀ id, w.arming id < w.nextArming
  savedYoung : ∀ d ∈ w.saved, d.arming < w.nextArming
  pendingFaithful : ∀ d ∈ w.pending, w.Faithful d
  storedFaithful : ∀ d ∈ w.stored, w.Faithful d
  pendingNodup : (w.pending.map AlertDelivery.id).Nodup
  storedNodup : (w.stored.map AlertDelivery.id).Nodup
  pendingFired : ∀ d ∈ w.pending, d.id ∈ w.fired
  shielded : ∀ d ∈ w.pending, w.Shielded d
  known : ∀ d ∈ w.pending, w.Known d ∨ w.firedTerms d.id = none ∧ w.Standing d
  kept : ∀ d ∈ w.saved, w.Live d → Matched w.stored d ∧ (w.ready = true → Matched w.pending d)
  clean : w.firedLoaded = false → w.pending = [] ∧ w.fired = [] ∧ ∀ id, w.firedTerms id = none
  generation : ∀ poll ∈ w.poll, poll.generation ≤ w.generation
  pc : ∀ poll ∈ w.poll, w.PcOk poll.generation poll.pc

/-! ### Steps that keep or disarm -/

/-- An alert whose arming is from before has at most been disarmed or removed since. -/
structure Follows (w w' : AlertState) : Prop where
  next : w.nextArming ≤ w'.nextArming
  young : ∀ id, w'.arming id < w'.nextArming
  old : ∀ id, w'.arming id < w.nextArming → w'.arming id = w.arming id ∧
    ∀ r', w'.alert? id = some r' →
      ∃ r, w.alert? id = some r ∧ r.terms = r'.terms ∧ (r'.status = .armed → r.status = .armed)

namespace Follows

variable {w w' : AlertState}

theorem live (h : Follows w w') {d : AlertDelivery} (hd : d.arming < w.nextArming)
    (hlive : w'.Live d) : w.Live d := by
  obtain ⟨harming, r', hr', harmed⟩ := hlive
  obtain ⟨hsame, hold⟩ := h.old d.id (harming ▸ hd)
  obtain ⟨r, hr, -, hstatus⟩ := hold r' hr'
  exact ⟨hsame.symm.trans harming, r, hr, hstatus harmed⟩

/-- The terms of an arming stay what they were. -/
theorem terms (h : Follows w w') {id : String} {arming : ℕ} {terms : AlertTerms}
    (hold : arming < w.nextArming)
    (hterms : w.arming id = arming → ∀ r, w.alert? id = some r → r.terms = terms)
    (harming : w'.arming id = arming) (r' : PriceAlert) (hr' : w'.alert? id = some r') :
    r'.terms = terms := by
  obtain ⟨hsame, hrecords⟩ := h.old id (harming ▸ hold)
  obtain ⟨r, hr, hkeeps, -⟩ := hrecords r' hr'
  rw [← hkeeps]
  exact hterms (hsame.symm.trans harming) r hr

theorem faithful (h : Follows w w') {d : AlertDelivery} (hd : w.Faithful d) : w'.Faithful d :=
  ⟨hd.1.trans_le h.next, h.terms hd.1 hd.2⟩

theorem listOk (h : Follows w w') (hsaved : w'.saved = w.saved) {armed : List PriceAlert}
    {listedAt : ℕ} (hlist : w.ListOk armed listedAt) : w'.ListOk armed listedAt where
  listed := hlist.listed.trans h.next
  savedBefore := by
    rw [hsaved]
    exact hlist.savedBefore
  terms := by
    intro a ha hbefore r' hr'
    obtain ⟨hsame, hrecords⟩ := h.old a.id (hbefore.trans_le hlist.listed)
    obtain ⟨r, hr, hkeeps, -⟩ := hrecords r' hr'
    rw [← hkeeps]
    exact hlist.terms a ha (hsame ▸ hbefore) r hr
  nodup := hlist.nodup

theorem complete (h : Follows w w') {armed : List PriceAlert} {listedAt : ℕ}
    (hlisted : listedAt ≤ w.nextArming) (hcomplete : w.Complete armed listedAt) :
    w'.Complete armed listedAt := by
  intro id r' hr' harmed hbefore
  obtain ⟨hsame, hrecords⟩ := h.old id (hbefore.trans_le hlisted)
  obtain ⟨r, hr, -, hstatus⟩ := hrecords r' hr'
  exact hcomplete id r hr (hstatus harmed) (hsame ▸ hbefore)

theorem undelivered (h : Follows w w') (hyoung : ∀ d ∈ w.saved, d.arming < w.nextArming)
    (hsaved : w'.saved = w.saved) (hpending : w'.pending ⊆ w.pending) {alerts : List PriceAlert}
    (hun : w.Undelivered alerts) : w'.Undelivered alerts where
  nodup := hun.nodup
  notPending := fun a ha d hd => hun.notPending a ha d (hpending hd)
  notLive := by
    intro a ha d hd hid hlive
    rw [hsaved] at hd
    exact hun.notLive a ha d hd hid (h.live (hyoung d hd) hlive)

theorem roundOk (h : Follows w w') (hyoung : ∀ d ∈ w.saved, d.arming < w.nextArming)
    (hsaved : w'.saved = w.saved) (hpending : w'.pending ⊆ w.pending) {round : AlertRound}
    (hround : w.RoundOk round) : w'.RoundOk round where
  toUndelivered := h.undelivered hyoung hsaved hpending hround.toUndelivered
  young := fun id terms arming hcurrent => (hround.young id terms arming hcurrent).trans_le h.next
  terms := fun id terms arming hcurrent =>
    h.terms (hround.young id terms arming hcurrent) (hround.terms id terms arming hcurrent)
  unsaved := by
    rw [hsaved]
    exact hround.unsaved

theorem restOk (h : Follows w w') (hyoung : ∀ d ∈ w.saved, d.arming < w.nextArming)
    (hsaved : w'.saved = w.saved) (hpending : w'.pending ⊆ w.pending) {inFire : Bool}
    {next : AlertPc} (hrest : w.RestOk inFire next) : w'.RestOk inFire next := by
  unfold AlertState.RestOk at hrest ⊢
  split at hrest
  · exact h.roundOk hyoung hsaved hpending hrest
  · exact ⟨h.listOk hsaved hrest.1, hrest.2⟩
  · exact hrest.elim

theorem nextOk (h : Follows w w') (hyoung : ∀ d ∈ w.saved, d.arming < w.nextArming)
    (hsaved : w'.saved = w.saved) (hpending : w'.pending = w.pending) {next : AlertPc}
    (hnext : w.NextOk next) : w'.NextOk next := by
  unfold AlertState.NextOk at hnext ⊢
  split at hnext
  · exact hnext
  · exact h.roundOk hyoung hsaved (hpending ▸ List.Subset.refl _) hnext
  · exact ⟨h.roundOk hyoung hsaved (hpending ▸ List.Subset.refl _) hnext.1, hpending ▸ hnext.2⟩
  · exact hnext.elim

end Follows

section Steps

variable {w : AlertWorld}

theorem AlertWorld.token_of_poll {poll : AlertPoll} (h : w.poll = some poll) :
    w.token = poll.pc.token := by
  rw [token, h, Option.bind_some]

theorem AlertWorld.putting_of_pc {poll : AlertPoll} (h : w.poll = some poll) {d : AlertDelivery}
    {inFire : Bool} {read : PriceAlert} {readArming : ℕ} {next : AlertPc}
    (hpc : poll.pc = .putting d inFire read readArming next) : w.putting d.id = true := by
  rw [putting, h, Option.any_some, hpc]
  exact decide_eq_true rfl

/-- The calls of the user change the store and leave the watcher alone. -/
def AlertWorld.edited (w : AlertWorld) (alerts : List PriceAlert) (arming : String → ℕ)
    (nextArming : ℕ) (saves : ℕ → Option PriceAlert) (locked : String → Option LockedWrite) :
    AlertWorld :=
  { w with
    alerts := alerts
    arming := arming
    nextArming := nextArming
    saves := saves
    locked := locked }

variable {saves : ℕ → Option PriceAlert} {locked : String → Option LockedWrite}

/-- **A change of the store** keeps the watcher sound where each outstanding delivery still stands
or has become one under other terms. -/
theorem AlertsSound.edited (h : AlertsSound w) {alerts : List PriceAlert} {arming : String → ℕ}
    {nextArming : ℕ}
    (hf : Follows w.toAlertState (w.edited alerts arming nextArming saves locked).toAlertState)
    (hdistinct : Keyed.Distinct PriceAlert.id alerts)
    (hkept : ∀ d ∈ w.outstanding, arming d.id = w.arming d.id ∧
          (∀ r, Keyed.find PriceAlert.id d.id alerts = some r →
            ∃ before, w.alert? d.id = some before ∧ before.terms = r.terms) ∨
        w.Known d ∧ ∀ r, Keyed.find PriceAlert.id d.id alerts = some r → r.terms ≠ d.terms)
    (hputting : ∀ id, w.putting id = true → Keyed.find PriceAlert.id id alerts = w.alert? id ∧
      arming id = w.arming id ∧ locked id = none) :
    AlertsSound (w.edited alerts arming nextArming saves locked) := by
  have hpending : ∀ d ∈ w.pending, d ∈ w.outstanding := fun d hd => List.mem_append_left _ hd
  have hshielded : ∀ d ∈ w.outstanding, w.Shielded d →
      (w.edited alerts arming nextArming saves locked).Shielded d := by
    intro d hd hshielded hmoved r hr
    rcases hkept d hd with ⟨hsame, hrecords⟩ | ⟨-, hother⟩
    · obtain ⟨before, hbefore, hterms⟩ := hrecords r hr
      rw [← hterms]
      exact hshielded (hsame ▸ hmoved) before hbefore
    · exact hother r hr
  have hstanding : ∀ d ∈ w.pending, ¬w.Known d → w.Standing d →
      (w.edited alerts arming nextArming saves locked).Standing d := by
    intro d hd hunknown hstanding
    rcases hkept d (hpending d hd) with ⟨hsame, hrecords⟩ | ⟨hknown, -⟩
    · refine ⟨hsame.trans hstanding.1, fun r hr => ?_⟩
      obtain ⟨before, hbefore, hterms⟩ := hrecords r hr
      rw [← hterms]
      exact hstanding.2 before hbefore
    · exact absurd hknown hunknown
  refine ⟨h.safe, hdistinct, hf.young, fun d hd => (h.savedYoung d hd).trans_le hf.next,
    fun d hd => hf.faithful (h.pendingFaithful d hd),
    fun d hd => hf.faithful (h.storedFaithful d hd),
    h.pendingNodup, h.storedNodup, h.pendingFired,
    fun d hd => hshielded d (hpending d hd) (h.shielded d hd), fun d hd => ?_,
    fun d hd hlive => h.kept d hd (hf.live (h.savedYoung d hd) hlive), h.clean, h.generation,
    fun poll hpoll => ?_⟩
  · by_cases hknown : w.Known d
    · exact .inl hknown
    · rcases h.known d hd with hknown' | ⟨hnone, hstands⟩
      · exact absurd hknown' hknown
      · exact .inr ⟨hnone, hstanding d hd hknown hstands⟩
  · have hpc := h.pc poll hpoll
    have hround : ∀ {round}, w.RoundOk round →
        (w.edited alerts arming nextArming saves locked).RoundOk round :=
      hf.roundOk h.savedYoung rfl (List.Subset.refl _)
    have hrest : ∀ {inFire next}, w.RestOk inFire next →
        (w.edited alerts arming nextArming saves locked).RestOk inFire next :=
      hf.restOk h.savedYoung rfl (List.Subset.refl _)
    have hnext : ∀ {next}, w.NextOk next →
        (w.edited alerts arming nextArming saves locked).NextOk next :=
      hf.nextOk h.savedYoung rfl rfl
    have hunder : w.poll = some poll := hpoll
    have htoken := AlertWorld.token_of_poll hunder
    obtain ⟨generation, pc⟩ := poll
    cases pc with
    | settings | listing activeNetwork => trivial
    | restoring activeNetwork load armed listedAt =>
      obtain ⟨hloaded, hfresh, hlist, hcomplete⟩ := hpc
      exact ⟨hloaded, hfresh, hf.listOk rfl hlist, hf.complete hlist.listed hcomplete⟩
    | retrying left armed listedAt => exact ⟨hpc.1, hf.listOk rfl hpc.2.1, hpc.2.2⟩
    | retried armed => exact hpc
    | pricing groups | reading round =>
      intro hcurrent
      obtain ⟨hloaded, hun⟩ := hpc hcurrent
      exact ⟨hloaded, hf.undelivered h.savedYoung rfl (List.Subset.refl _) hun⟩
    | judging round => exact ⟨hpc.1, hround hpc.2⟩
    | delivering d accepted round =>
      obtain ⟨hloaded, hroundOk, hd⟩ := hpc
      refine ⟨hloaded, hround hroundOk, hd.left, hd.notPending, hd.fired, hf.faithful hd.faithful,
        fun haccepted => hshielded d ?_ (hd.shielded haccepted)⟩
      subst haccepted
      refine List.mem_append_right _ ?_
      rw [htoken]
      exact List.mem_singleton_self d
    | recorded d round => exact ⟨hpc.1, hround hpc.2.1, hpc.2.2⟩
    | marking d terms inFire next =>
      obtain ⟨hloaded, hmark, hrestOk⟩ := hpc
      refine ⟨hloaded, ⟨hmark.pending, hmark.given, hmark.known.imp_right ?_⟩, hrest hrestOk⟩
      rintro ⟨hnone, hstands⟩
      refine ⟨hnone, hstanding d hmark.pending ?_ hstands⟩
      rintro (hknown | hflight)
      · rw [hmark.given, hnone] at hknown
        cases hknown
      · rw [htoken] at hflight
        cases hflight
    | putting d inFire read readArming next =>
      obtain ⟨hloaded, hputOk, hrestOk⟩ := hpc
      obtain ⟨hrecord, harming, hunlocked⟩ := hputting d.id (AlertWorld.putting_of_pc hunder rfl)
      exact ⟨hloaded, ⟨hputOk.pending, hrecord.trans hputOk.stored, harming.trans hputOk.arming,
        hputOk.madeAt.trans harming.symm, hputOk.terms, hunlocked⟩, hrest hrestOk⟩
    | persist next => exact ⟨hpc.1, hnext hpc.2⟩
    | saving out next => exact ⟨hpc.1, hpc.2.1, hnext hpc.2.2⟩

/-- A write that is under way has the alert's turn. -/
theorem AlertsSound.unlocked (h : AlertsSound w) {id : String} (hputting : w.putting id = true) :
    w.locked id = none := by
  rw [AlertWorld.putting, Option.any_eq_true] at hputting
  obtain ⟨poll, hpoll, hput⟩ := hputting
  have hpc := h.pc poll hpoll
  split at hput
  · rename_i d inFire read readArming next heq
    rw [heq] at hpc
    rw [← of_decide_eq_true hput]
    exact hpc.2.1.unlocked
  · cases hput

/-- Steps of the user's calls that leave the store alone. -/
theorem AlertsSound.calls (h : AlertsSound w)
    (hlocked : ∀ id, w.putting id = true → locked id = none) :
    AlertsSound (w.edited w.alerts w.arming w.nextArming saves locked) := by
  refine h.edited ⟨Nat.le_refl _, h.young, fun id _ => ⟨rfl, fun r hr => ?_⟩⟩ h.distinct
    (fun d _ => .inl ⟨rfl, fun r hr => ⟨r, hr, rfl⟩⟩)
    fun id hputting => ⟨rfl, rfl, hlocked id hputting⟩
  exact ⟨r, hr, rfl, fun harmed => harmed⟩

/-- An edit or an arming is written. -/
theorem AlertsSound.arm (h : AlertsSound w) {record : PriceAlert} (hcareful : w.CarefulArm record)
    (hlocked : ∀ id, w.putting id = true → locked id = none) :
    AlertsSound (w.edited (Keyed.upsert PriceAlert.id record w.alerts)
      (update w.arming record.id w.nextArming) (w.nextArming + 1) saves locked) := by
  obtain ⟨hquiet, houtstanding⟩ := hcareful
  have hother : ∀ {id}, id ≠ record.id →
      Keyed.find PriceAlert.id id (Keyed.upsert PriceAlert.id record w.alerts) = w.alert? id :=
    fun hid => Keyed.find_upsert_of_ne hid w.alerts
  have harming : ∀ {id}, id ≠ record.id → update w.arming record.id w.nextArming id = w.arming id :=
    fun hid => update_of_ne hid _ _
  refine h.edited ⟨Nat.le_succ _, fun id => ?_, fun id hold => ?_⟩ h.distinct.upsert
    (fun d hd => ?_) fun id hputting => ?_
  · by_cases hid : id = record.id
    · rw [hid, AlertWorld.edited]
      dsimp only
      rw [update_self]
      exact Nat.lt_succ_self _
    · rw [AlertWorld.edited]
      dsimp only
      rw [harming hid]
      exact (h.young id).trans (Nat.lt_succ_self _)
  · rw [AlertWorld.edited] at hold ⊢
    dsimp only at hold ⊢
    have hid : id ≠ record.id := by
      rintro rfl
      rw [update_self] at hold
      exact Nat.lt_irrefl _ hold
    refine ⟨harming hid, fun r hr => ⟨r, (hother hid).symm.trans hr, rfl, fun harmed => harmed⟩⟩
  · by_cases hid : d.id = record.id
    · obtain ⟨hknown, hterms⟩ := houtstanding d hd hid
      refine .inr ⟨hknown, fun r hr => ?_⟩
      rw [hid, Keyed.find_upsert_self] at hr
      rw [← Option.some.inj hr]
      exact hterms
    · exact .inl ⟨harming hid, fun r hr => ⟨r, (hother hid).symm.trans hr, rfl⟩⟩
  · have hid : id ≠ record.id := by
      rintro rfl
      rw [hquiet] at hputting
      cases hputting
    exact ⟨hother hid, harming hid, hlocked id hputting⟩

/-- An alert is removed. -/
theorem AlertsSound.clear (h : AlertsSound w) {id : String} (hquiet : w.putting id = false)
    (hlocked : ∀ id, w.putting id = true → locked id = none) :
    AlertsSound (w.edited (Keyed.erase PriceAlert.id id w.alerts) w.arming w.nextArming saves
      locked) := by
  have hfind : ∀ {id' r}, Keyed.find PriceAlert.id id' (Keyed.erase PriceAlert.id id w.alerts) =
      some r → w.alert? id' = some r := by
    intro id' r hr
    by_cases hid : id' = id
    · rw [hid, Keyed.find_erase_self h.distinct] at hr
      cases hr
    · rwa [Keyed.find_erase_of_ne hid] at hr
  refine h.edited ⟨Nat.le_refl _, h.young, fun id' _ => ⟨rfl, fun r hr => ?_⟩⟩ h.distinct.erase
    (fun d _ => .inl ⟨rfl, fun r hr => ⟨r, hfind hr, rfl⟩⟩) fun id' hputting => ?_
  · exact ⟨r, hfind hr, rfl, fun harmed => harmed⟩
  · have hid : id' ≠ id := by
      rintro rfl
      rw [hquiet] at hputting
      cases hputting
    exact ⟨Keyed.find_erase_of_ne hid w.alerts, rfl, hlocked id' hputting⟩

/-- **The user's calls keep the watcher sound** where they are careful. -/
theorem AlertsSound.userStep (h : AlertsSound w) {a : AlertAct} (hcareful : CarefulAlerts w a)
    {w' : AlertWorld} (hstep : w.userStep a = some w') : AlertsSound w' := by
  have hlocked : ∀ id, w.putting id = true → w.locked id = none := fun id => h.unlocked
  have hdropped : ∀ id id', w.putting id' = true → update w.locked id none id' = none := by
    intro id id' hputting
    by_cases hid : id' = id
    · rw [hid, update_self]
    · rw [update_of_ne hid]
      exact hlocked id' hputting
  have htaken : ∀ id (write : Option LockedWrite), ¬((w.locked id).isSome ∨ w.putting id = true) →
      ∀ id', w.putting id' = true → update w.locked id write id' = none := by
    intro id write hfree id' hputting
    have hid : id' ≠ id := by
      rintro rfl
      exact hfree (.inr hputting)
    rw [update_of_ne hid]
    exact hlocked id' hputting
  cases a with
  | saveRead i input newId =>
    rw [AlertWorld.userStep] at hstep
    split at hstep
    · cases hstep
    · obtain ⟨⟩ := hstep
      exact h.calls hlocked
  | saveWrite i ok =>
    obtain ⟨record, hrecord, rfl⟩ := Option.map_eq_some_iff.mp hstep
    cases ok with
    | true => exact h.arm (hcareful rfl record hrecord) hlocked
    | false => exact h.calls hlocked
  | rearmRead id walletId | clearRead id walletId =>
    rw [AlertWorld.userStep] at hstep
    split at hstep
    · cases hstep
    · rename_i hfree
      obtain ⟨⟩ := hstep
      exact h.calls (htaken id _ hfree)
  | lockedWrite id ok =>
    obtain ⟨write, hwrite, rfl⟩ := Option.map_eq_some_iff.mp hstep
    cases ok with
    | true =>
      cases write with
      | rearm record =>
        have harms : record ∈ (w.locked id).bind LockedWrite.armed? := by
          rw [hwrite]
          rfl
        exact h.arm (hcareful rfl record harms) (hdropped id)
      | clear =>
        have hquiet : w.putting id = false := by
          rw [← Bool.not_eq_true]
          intro hputting
          rw [hlocked id hputting] at hwrite
          cases hwrite
        exact h.clear hquiet (hdropped id)
    | false => exact h.calls (hdropped id)
  | _ => cases hstep

end Steps

end XchainWallet
