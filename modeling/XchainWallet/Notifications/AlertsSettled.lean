import XchainWallet.Notifications.AlertsKept

/-!
# Alerts are settled by their own deliveries

`saveAlert` does not wait for a write of the triggered state that has read the alert, a restart
reads back ids without the terms that they were delivered under, and a stop empties what a poll
under way goes on to store. `alerts_settled` says that nothing else lets a delivery settle another
arming than its own, undo an edit or be repeated: each phase of a poll keeps `AlertsSound`. -/

namespace XchainWallet

open Transition Function AlertWorld
open List (mem_append mem_append_left mem_filter mem_map nodup_nil)

section Steps

variable {w : AlertWorld}

/-! ### The alerts of a poll -/

theorem nodup_eraseDups {α : Type*} [BEq α] [LawfulBEq α] (l : List α) : l.eraseDups.Nodup := by
  induction hn : l.length using Nat.strong_induction_on generalizing l with
  | h n ih =>
    cases l with
    | nil => exact nodup_nil
    | cons a l =>
      rw [List.eraseDups_cons, List.nodup_cons]
      have hlength := List.length_filter_le (fun b => !b == a) l
      rw [List.length_cons] at hn
      refine ⟨fun hmem => ?_, ih _ (by omega) _ rfl⟩
      have hne := (mem_filter.mp (List.mem_eraseDups.mp hmem)).2
      simp at hne

variable {alerts : List PriceAlert}

/-- Each alert is in the group of its currency. -/
theorem mem_groupByCurrency {a : PriceAlert} :
    a ∈ (groupByCurrency alerts).flatMap Prod.snd ↔ a ∈ alerts := by
  rw [groupByCurrency, List.flatMap_map, List.mem_flatMap]
  constructor
  · rintro ⟨currency, -, ha⟩
    exact List.mem_of_mem_filter ha
  · intro ha
    refine ⟨fiatCode a.fiatCurrency, List.mem_eraseDups.mpr (List.mem_map_of_mem ha), ?_⟩
    exact mem_filter.mpr ⟨ha, decide_eq_true rfl⟩

/-- No alert is in two groups. -/
theorem nodup_groupByCurrency (h : (alerts.map PriceAlert.id).Nodup) :
    (((groupByCurrency alerts).flatMap Prod.snd).map PriceAlert.id).Nodup := by
  refine List.Nodup.map_on (fun a ha b hb hid => ?_) ?_
  · exact List.inj_on_of_nodup_map h (mem_groupByCurrency.mp ha) (mem_groupByCurrency.mp hb) hid
  · rw [groupByCurrency, List.flatMap_map]
    refine List.nodup_flatMap.mpr ⟨fun currency _ => (List.Nodup.of_map _ h).filter _, ?_⟩
    refine (nodup_eraseDups _).imp fun {currency currency'} hne => ?_
    intro a ha ha'
    exact hne ((of_decide_eq_true (mem_filter.mp ha).2).symm.trans
      (of_decide_eq_true (mem_filter.mp ha').2))

/-- Of alerts with distinct ids, the one under an id is the only one. -/
theorem AlertsSound.alert_eq (h : AlertsSound w) {a r : PriceAlert} (ha : a ∈ w.alerts)
    (hr : w.alert? a.id = some r) : r = a :=
  Option.some.inj (hr.symm.trans ((Keyed.find_eq_some h.distinct).mpr ⟨ha, rfl⟩))

variable {d : AlertDelivery}

/-- With the records at hand, an alert that is recorded for its arming is pending. -/
theorem AlertsSound.matched (h : AlertsSound w) (hready : w.ready = true) (hd : d ∈ w.saved)
    (hlive : w.Live d) : Matched w.pending d :=
  (h.kept d hd hlive).2 hready

variable {poll : AlertPoll}

theorem AlertWorld.ready_of_poll (hpoll : w.poll = some poll) (hloads : poll.pc.loads = none)
    (hloaded : w.firedLoaded = true) : w.ready = true := by
  rw [ready, hloaded, hpoll, Option.any_some, hloads]
  rfl

theorem AlertWorld.loaded_of_ready {w : AlertWorld} (hready : w.ready = true) :
    w.firedLoaded = true :=
  (Bool.and_eq_true_iff.mp hready).1

/-- While the triggered state is not written, a record has its terms or stands. -/
theorem AlertsSound.knownIdle (h : AlertsSound w) (hpoll : w.poll = some poll)
    (htoken : poll.pc.token = none) : ∀ d ∈ w.pending, w.firedTerms d.id = some d.terms ∨
      w.firedTerms d.id = none ∧ w.Standing d := by
  intro d hd
  rcases h.known d hd with (hterms | hflight) | hnone
  · exact .inl hterms
  · rw [token_of_poll hpoll, htoken] at hflight
    cases hflight
  · exact .inr hnone

/-- Less is left to be judged. -/
theorem AlertState.Undelivered.sublist {w : AlertState} {alerts alerts' : List PriceAlert}
    (h : w.Undelivered alerts) (hsub : alerts'.Sublist alerts) : w.Undelivered alerts' where
  nodup := h.nodup.sublist (hsub.map _)
  notPending := fun a ha => h.notPending a (hsub.subset ha)
  notLive := fun a ha => h.notLive a (hsub.subset ha)

variable {round : AlertRound}

/-- The next alert has been judged. -/
theorem AlertState.RoundOk.tail {w : AlertState} {alert : PriceAlert} (h : w.RoundOk round)
    (halerts : round.alerts = alert :: alerts) :
    w.RoundOk { round with alerts := alerts } where
  toUndelivered := by
    refine h.toUndelivered.sublist ?_
    rw [AlertRound.left, AlertRound.left, halerts]
    exact List.sublist_cons_self _ _
  young := h.young
  terms := h.terms
  unsaved := fun a ha => h.unsaved a (halerts ▸ List.mem_cons_of_mem _ ha)

/-! ### Steps of a poll -/

/-- A change of the phase alone. -/
theorem AlertsSound.setPc (h : AlertsSound w) (hpoll : w.poll = some poll)
    (hloads : poll.pc.loads = none) {pc : AlertPc} (hpc : w.PcOk poll.generation pc)
    (htoken : ∀ d ∈ w.pending, poll.pc.token = some d →
      w.firedTerms d.id = some d.terms ∨ pc.token = some d) :
    AlertsSound (w.setPc poll pc) := by
  refine { h with
    known := fun d hd => ?_
    kept := fun d hd hlive => (h.kept d hd hlive).imp_right fun hpending hready => hpending
      (ready_of_poll hpoll hloads (loaded_of_ready hready :))
    generation := by rintro p ⟨⟩; exact h.generation poll hpoll
    pc := by rintro p ⟨⟩; exact hpc }
  rcases h.known d hd with (hterms | hflight) | hnone
  · exact .inl (.inl hterms)
  · rw [token_of_poll hpoll] at hflight
    exact .inl (htoken d hd hflight)
  · exact .inr hnone

/-- A change of the phase while the triggered state is not written. -/
theorem AlertsSound.goTo (h : AlertsSound w) (hpoll : w.poll = some poll)
    (hloads : poll.pc.loads = none) (htoken : poll.pc.token = none) {pc : AlertPc}
    (hpc : w.PcOk poll.generation pc) : AlertsSound (w.setPc poll pc) := by
  refine h.setPc hpoll hloads hpc fun d _ hflight => ?_
  rw [htoken] at hflight
  cases hflight

/-- The end of a poll. -/
theorem AlertsSound.endPoll (h : AlertsSound w) (hpoll : w.poll = some poll)
    (hloads : poll.pc.loads = none) (htoken : poll.pc.token = none) : AlertsSound w.endPoll :=
  { h with
    known := fun d hd => (h.knownIdle hpoll htoken d hd).imp_left .inl
    kept := fun d hd hlive => (h.kept d hd hlive).imp_right fun hpending hready => hpending
      (ready_of_poll hpoll hloads (loaded_of_ready hready :))
    generation := by rintro p ⟨⟩
    pc := by rintro p ⟨⟩ }

/-- The next currency, or the end of the poll. -/
theorem AlertsSound.goPricing (h : AlertsSound w) (hpoll : w.poll = some poll)
    (hloads : poll.pc.loads = none) (htoken : poll.pc.token = none)
    {groups : List (List Char × List PriceAlert)} (hpc : w.PcOk poll.generation (.pricing groups)) :
    AlertsSound (w.goPricing poll groups) := by
  rw [AlertWorld.goPricing]
  split
  · exact h.endPoll hpoll hloads htoken
  · exact h.goTo hpoll hloads htoken hpc

/-- A stop while nothing is under way. -/
theorem AlertsSound.stop (h : AlertsSound w) (hcareful : CarefulAlerts w .stop) :
    AlertsSound { w with
      generation := w.generation + 1
      fired := []
      pending := []
      firedTerms := fun _ => none
      settledAt := fun _ => none
      firedLoaded := false
      firedDirty := false } := by
  refine { h with
    pendingFaithful := by rintro d ⟨⟩
    pendingNodup := nodup_nil
    pendingFired := by rintro d ⟨⟩
    shielded := by rintro d ⟨⟩
    known := by rintro d ⟨⟩
    kept := fun d hd hlive => ⟨(h.kept d hd hlive).1, by rintro ⟨⟩⟩
    clean := fun _ => ⟨rfl, rfl, fun _ => rfl⟩
    generation := fun poll hpoll => (h.generation poll hpoll).trans (Nat.le_succ _)
    pc := fun poll hpoll => ?_ }
  have hearlier : poll.generation ≠ w.generation + 1 :=
    (Nat.lt_succ_of_le (h.generation poll hpoll)).ne
  have hpc := hcareful poll hpoll
  obtain ⟨generation, pc⟩ := poll
  cases pc with
  | settings | listing activeNetwork => trivial
  | pricing groups | reading round => exact fun hcurrent => absurd hcurrent hearlier
  | _ => cases hpc

/-- A delivery is settled: none that is recorded for its arming still stands against it. -/
theorem AlertsSound.settle (h : AlertsSound w) (hpoll : w.poll = some poll) {inFire : Bool}
    {next : AlertPc} (hnext : poll.pc = next) (hrest : w.RestOk inFire next)
    (hloaded : w.firedLoaded = true) (hd : d ∈ w.pending)
    (hdone : ∀ d' ∈ w.saved, d'.id = d.id → d'.arming = d.arming → ¬w.Live d') (now : ℚ) :
    AlertsSound (w.settle poll d inFire now next) := by
  have hsub : dropPending d.id w.pending ⊆ w.pending := List.filter_subset_self _
  have hidle : poll.pc.loads = none ∧ poll.pc.token = none := by
    rw [hnext]
    unfold AlertState.RestOk at hrest
    split at hrest
    · exact ⟨rfl, rfl⟩
    · exact ⟨rfl, rfl⟩
    · exact hrest.elim
  have hsame : Follows w.toAlertState (w.settle poll d inFire now next).toAlertState :=
    ⟨Nat.le_refl _, h.young, fun id _ => ⟨rfl, fun r hr => ⟨r, hr, rfl, fun harmed => harmed⟩⟩⟩
  have hrest' : (w.settle poll d inFire now next).RestOk inFire next :=
    hsame.restOk h.savedYoung rfl hsub hrest
  refine { h with
    pendingFaithful := fun d' hd' => h.pendingFaithful d' (hsub hd')
    pendingNodup := h.pendingNodup.sublist (List.filter_sublist.map _)
    pendingFired := fun d' hd' => h.pendingFired d' (hsub hd')
    shielded := fun d' hd' => h.shielded d' (hsub hd')
    known := fun d' hd' => (h.knownIdle hpoll hidle.2 d' (hsub hd')).imp_left .inl
    kept := fun d' hd' hlive => ?_
    clean := fun hunloaded => ?_
    generation := by rintro p ⟨⟩; exact h.generation poll hpoll
    pc := ?_ }
  · have hlive' : w.Live d' := hlive
    obtain ⟨hstored, hpending⟩ := h.kept d' hd' hlive'
    refine ⟨hstored, fun _ => ?_⟩
    obtain ⟨m, hm, hid, harming⟩ := hpending (ready_of_poll hpoll hidle.1 hloaded)
    refine ⟨m, mem_filter.mpr ⟨hm, decide_eq_true ?_⟩, hid, harming⟩
    intro hmd
    obtain rfl : m = d := List.inj_on_of_nodup_map h.pendingNodup hm hd hmd
    exact hdone d' hd' hid.symm harming.symm hlive'
  · rw [AlertWorld.settle, AlertWorld.setPc] at hunloaded
    dsimp only at hunloaded
    rw [hloaded] at hunloaded
    cases hunloaded
  · rintro p ⟨⟩
    unfold AlertState.RestOk at hrest'
    split at hrest'
    · exact ⟨hloaded, hrest'⟩
    · exact ⟨hloaded, hrest'⟩
    · exact hrest'.elim

/-- The alerts are listed. -/
theorem AlertsSound.listed (h : AlertsSound w) (hpoll : w.poll = some poll) {activeNetwork : String}
    (hpc : poll.pc = .listing activeNetwork) :
    AlertsSound ({ w with firedLoaded := true }.setPc poll
      (.restoring activeNetwork (!w.firedLoaded) (w.alerts.filter (·.status = AlertStatus.armed))
        w.nextArming)) := by
  refine { h with
    known := fun d hd => (h.knownIdle hpoll (by rw [hpc]; rfl) d hd).imp_left .inl
    kept := fun d hd hlive => ?_
    clean := by rintro ⟨⟩
    generation := by rintro p ⟨⟩; exact h.generation poll hpoll
    pc := ?_ }
  · obtain ⟨hstored, hpending⟩ := h.kept d hd hlive
    refine ⟨hstored, fun hready => hpending ?_⟩
    cases hloaded : w.firedLoaded with
    | true => exact ready_of_poll hpoll (by rw [hpc]; rfl) hloaded
    | false =>
      rw [AlertWorld.ready, AlertWorld.setPc, Option.any_some, hloaded] at hready
      cases hready
  · rintro p ⟨⟩
    refine ⟨rfl, fun hload => h.clean (by simpa using hload),
      ⟨Nat.le_refl _, h.savedYoung, ?_, ?_⟩, ?_⟩
    · intro a ha _ r hr
      rw [h.alert_eq (List.mem_of_mem_filter ha) hr]
    · exact h.distinct.sublist (List.filter_sublist.map _)
    · intro id r hr harmed _
      have hid := Keyed.key_of_find hr
      refine mem_map.mpr ⟨r, ?_, hid⟩
      exact mem_filter.mpr ⟨Keyed.mem_of_find hr, decide_eq_true harmed⟩

/-- A notification is delivered, or is not. -/
theorem AlertsSound.noted (h : AlertsSound w) (hpoll : w.poll = some poll) {accepted : Bool}
    (hpc : poll.pc = .delivering d accepted round) :
    AlertsSound (w.noted poll d accepted round) := by
  have hphase := h.pc poll hpoll
  rw [hpc] at hphase
  obtain ⟨hloaded, hround, hdeliver⟩ := hphase
  have hready : w.ready = true := ready_of_poll hpoll (by rw [hpc]; rfl) hloaded
  have htoken := token_of_poll hpoll
  rw [hpc] at htoken
  have hknown : ∀ d' ∈ w.pending, w.firedTerms d'.id = some d'.terms ∨
      w.firedTerms d'.id = none ∧ w.Standing d' := by
    intro d' hd'
    rcases h.known d' hd' with (hterms | hflight) | hnone
    · exact .inl hterms
    · rw [htoken] at hflight
      cases accepted with
      | true => exact absurd rfl (Option.some.inj hflight ▸ hdeliver.notPending d' hd')
      | false => cases hflight
    · exact .inr hnone
  cases accepted with
  | true =>
    have hadd : addPending d w.pending = w.pending ++ [d] := by
      rw [addPending, if_neg]
      intro hmem
      obtain ⟨d', hd', hid⟩ := mem_map.mp hmem
      exact hdeliver.notPending d' hd' hid
    have hmem : ∀ {d'}, d' ∈ w.pending ++ [d] → d' ∈ w.pending ∨ d' = d := fun hd' =>
      (mem_append.mp hd').imp_right List.mem_singleton.mp
    rw [AlertWorld.noted, if_pos rfl, hadd]
    refine { h with
      pendingFaithful := fun d' hd' => ?_
      pendingNodup := ?_
      pendingFired := fun d' hd' => ?_
      shielded := fun d' hd' => ?_
      known := fun d' hd' => ?_
      kept := fun d' hd' hlive => ?_
      clean := fun hunloaded => ?_
      generation := by rintro p ⟨⟩; exact h.generation poll hpoll
      pc := ?_ }
    · rcases hmem hd' with hd' | rfl
      · exact h.pendingFaithful d' hd'
      · exact hdeliver.faithful
    · rw [AlertWorld.setPc, List.map_append, List.map_singleton, List.nodup_append]
      refine ⟨h.pendingNodup, List.nodup_singleton _, ?_⟩
      intro id hid id' hid' heq
      obtain ⟨d', hd', rfl⟩ := mem_map.mp hid
      exact hdeliver.notPending d' hd' (heq.trans (List.mem_singleton.mp hid'))
    · rcases hmem hd' with hd' | rfl
      · exact h.pendingFired d' hd'
      · exact hdeliver.fired
    · rcases hmem hd' with hd' | rfl
      · exact h.shielded d' hd'
      · exact hdeliver.shielded rfl
    · rcases hmem hd' with hd' | rfl
      · exact (hknown d' hd').imp_left .inl
      · exact .inl (.inr rfl)
    · obtain ⟨hstored, hpending⟩ := h.kept d' hd' hlive
      refine ⟨hstored, fun _ => ?_⟩
      obtain ⟨m, hm, hsame⟩ := hpending hready
      exact ⟨m, mem_append_left _ hm, hsame⟩
    · rw [AlertWorld.setPc] at hunloaded
      exact absurd (hloaded.symm.trans hunloaded) (by decide)
    · rintro p ⟨⟩
      refine ⟨hloaded, ⟨⟨hround.nodup, fun a ha d' hd' => ?_, hround.notLive⟩, hround.young,
        hround.terms, hround.unsaved⟩, List.mem_append_right _ (List.mem_singleton_self d)⟩
      rcases hmem hd' with hd' | rfl
      · exact hround.notPending a ha d' hd'
      · exact (hdeliver.left a ha).symm
  | false =>
    rw [AlertWorld.noted, if_neg Bool.false_ne_true]
    refine { h with
      pendingFired := fun d' hd' => mem_filter.mpr
        ⟨h.pendingFired d' hd', decide_eq_true (hdeliver.notPending d' hd')⟩
      known := fun d' hd' => (hknown d' hd').imp_left .inl
      kept := fun d' hd' hlive => (h.kept d' hd' hlive).imp_right fun hpending _ => hpending hready
      clean := fun hunloaded => absurd (hloaded.symm.trans hunloaded) (by decide)
      generation := by rintro p ⟨⟩; exact h.generation poll hpoll
      pc := ?_ }
    · rintro p ⟨⟩
      exact ⟨hloaded, ⟨hround.nodup, hround.notPending, hround.notLive⟩, hround.young, hround.terms,
        hround.unsaved⟩

/-- **An alert that is judged has not been delivered for its arming.** -/
theorem AlertsSound.judgeNext (h : AlertsSound w) (hpoll : w.poll = some poll)
    (hpc : poll.pc = .judging round) (now : ℚ) (delivered : Bool) :
    AlertsSound (w.judgeNext poll round now delivered) := by
  have hphase := h.pc poll hpoll
  rw [hpc] at hphase
  obtain ⟨hloaded, hround⟩ := hphase
  have hloads : poll.pc.loads = none := by rw [hpc]; rfl
  have htoken : poll.pc.token = none := by rw [hpc]; rfl
  have hready : w.ready = true := ready_of_poll hpoll hloads hloaded
  rw [AlertWorld.judgeNext]
  split
  · rename_i halerts
    refine h.goPricing hpoll hloads htoken fun _ => ⟨hloaded, hround.toUndelivered.sublist ?_⟩
    rw [AlertRound.left, halerts]
    exact List.Sublist.refl _
  · rename_i alert alerts halerts
    have hmem : alert ∈ round.alerts := halerts ▸ (.head _)
    have hleft : alert ∈ round.left := mem_append_left _ hmem
    have htail := hround.tail halerts
    split
    · exact h.endPoll hpoll hloads htoken
    · split
      · exact h.goTo hpoll hloads htoken ⟨hloaded, htail⟩
      · rename_i d hjudged
        obtain ⟨⟨terms, arming⟩, hcurrent, hjudged⟩ := Option.bind_eq_some_iff.mp hjudged
        obtain ⟨price, -, hjudged⟩ := Option.bind_eq_some_iff.mp hjudged
        obtain ⟨hcurrent, hterms⟩ := Option.filter_eq_some_iff.mp hcurrent
        have hterms : terms = alert.terms := of_decide_eq_true hterms
        split at hjudged
        · obtain ⟨⟩ := hjudged
          have hfirst : (w.saved.any fun d' => d'.id = alert.id ∧ d'.arming = arming) = false := by
            rw [List.any_eq_false]
            intro d' hd'
            rw [decide_eq_true_eq]
            rintro ⟨hid, harming⟩
            exact hround.unsaved alert hmem terms arming hcurrent d' hd' hid harming
          refine { h with
            safe := ⟨h.safe.1, h.safe.2.1, ?_⟩
            pendingFired := fun d' hd' => ?_
            known := fun d' hd' => (h.knownIdle hpoll htoken d' hd').imp_left .inl
            kept := fun d' hd' hlive =>
              (h.kept d' hd' hlive).imp_right fun hpending _ => hpending hready
            clean := fun hunloaded => absurd (hloaded.symm.trans hunloaded) (by decide)
            generation := by rintro p ⟨⟩; exact h.generation poll hpoll
            pc := ?_ }
          · rw [AlertWorld.setPc]
            dsimp only
            rw [hfirst, Bool.and_false, h.safe.2.2]
            rfl
          · have hfired := h.pendingFired d' hd'
            rw [AlertWorld.setPc, AlertWorld.addFired]
            dsimp only
            split
            · exact hfired
            · exact mem_append_left _ hfired
          · rintro p ⟨⟩
            refine ⟨hloaded, ⟨⟨htail.nodup, htail.notPending, htail.notLive⟩, htail.young,
              htail.terms, htail.unsaved⟩, fun a ha hid => ?_,
              fun d' hd' => hround.notPending alert hleft d' hd', ?_,
              ⟨hround.young alert.id terms arming hcurrent, fun harming r hr => ?_⟩,
              fun _ hmoved => absurd rfl hmoved⟩
            · have hnodup := hround.nodup
              rw [AlertRound.left, halerts, List.cons_append, List.map_cons,
                List.nodup_cons] at hnodup
              exact hnodup.1 (mem_map.mpr ⟨a, ha, hid⟩)
            · rw [AlertWorld.setPc, AlertWorld.addFired]
              dsimp only
              split
              · assumption
              · exact List.mem_append_right _ (List.mem_singleton_self _)
            · rw [← hterms]
              exact hround.terms alert.id terms arming hcurrent harming r hr
        · cases hjudged

/-! ### Records -/

/-- The terms of a delivery are noted. -/
theorem AlertsSound.recorded (h : AlertsSound w) (hpoll : w.poll = some poll)
    (hpc : poll.pc = .recorded d round) :
    AlertsSound ({ w with
      firedTerms := update w.firedTerms d.id (some d.terms) }.setPc poll
        (.marking d (some d.terms) true (.judging round))) := by
  have hphase := h.pc poll hpoll
  rw [hpc] at hphase
  obtain ⟨hloaded, hround, hd⟩ := hphase
  have hready : w.ready = true := ready_of_poll hpoll (by rw [hpc]; rfl) hloaded
  refine { h with
    known := fun d' hd' => ?_
    kept := fun d' hd' hlive => (h.kept d' hd' hlive).imp_right fun hpending _ => hpending hready
    clean := fun hunloaded => absurd (hloaded.symm.trans hunloaded) (by decide)
    generation := by rintro p ⟨⟩; exact h.generation poll hpoll
    pc := ?_ }
  · by_cases hid : d'.id = d.id
    · obtain rfl : d' = d := List.inj_on_of_nodup_map h.pendingNodup hd' hd hid
      exact .inl (.inl (update_self ..))
    · have hsame : update w.firedTerms d.id (some d.terms) d'.id = w.firedTerms d'.id :=
        update_of_ne hid _ _
      rcases h.known d' hd' with (hterms | hflight) | ⟨hnone, hstands⟩
      · exact .inl (.inl (hsame.trans hterms))
      · rw [token_of_poll hpoll, hpc] at hflight
        exact absurd (congrArg AlertDelivery.id (Option.some.inj hflight).symm) hid
      · exact .inr ⟨hsame.trans hnone, hstands⟩
  · rintro p ⟨⟩
    exact ⟨hloaded, ⟨hd, update_self .., .inl rfl⟩,
      ⟨hround.nodup, hround.notPending, hround.notLive⟩, hround.young, hround.terms, hround.unsaved⟩

theorem AlertState.NextOk.pcOk {w : AlertState} {next : AlertPc} (h : w.NextOk next)
    (hloaded : w.firedLoaded = true) (generation : ℕ) : w.PcOk generation next := by
  unfold AlertState.NextOk at h
  split at h
  · exact ⟨hloaded, h⟩
  · exact ⟨hloaded, h⟩
  · exact ⟨hloaded, h⟩
  · exact h.elim

theorem AlertState.RestOk.pcOk {w : AlertState} {inFire : Bool} {next : AlertPc}
    (h : w.RestOk inFire next) (hloaded : w.firedLoaded = true) (generation : ℕ) :
    w.PcOk generation next := by
  unfold AlertState.RestOk at h
  split at h
  · exact ⟨hloaded, h⟩
  · exact ⟨hloaded, h⟩
  · exact h.elim

/-- The records are about to be written. -/
theorem AlertsSound.persist (h : AlertsSound w) (hpoll : w.poll = some poll) {next : AlertPc}
    (hpc : poll.pc = .persist next) (hcareful : CarefulAlerts w .advance) :
    AlertsSound (w.persist poll next) := by
  have hphase := h.pc poll hpoll
  rw [hpc] at hphase
  obtain ⟨hloaded, hnext⟩ := hphase
  have hloads : poll.pc.loads = none := by rw [hpc]; rfl
  have hcap : w.pending.drop (w.pending.length - FIRED_CAP) = w.pending := by
    have hlength := hcareful poll hpoll (by rw [hpc]; rfl)
    rw [Nat.sub_eq_zero_of_le hlength, List.drop_zero]
  rw [AlertWorld.persist]
  split
  · dsimp only
    rw [hcap]
    refine h.setPc hpoll hloads ⟨hloaded, rfl, hnext⟩ fun d _ hflight => .inr ?_
    rw [hpc] at hflight
    cases next <;> exact hflight
  · refine h.setPc hpoll hloads (hnext.pcOk hloaded _) fun d _ hflight => .inr ?_
    rw [hpc] at hflight
    cases next <;> first | exact hflight | cases hflight

/-- **The records that are written are those of all deliveries that are not settled.** -/
theorem AlertsSound.saved (h : AlertsSound w) (hpoll : w.poll = some poll)
    {out : List AlertDelivery} {next : AlertPc} (hpc : poll.pc = .saving out next) (ok : Bool) :
    AlertsSound ({ w with
      stored := if ok then out else w.stored
      firedDirty := if ok then false else w.firedDirty
      saved := if ok then out ++ w.saved else w.saved }.setPc poll next) := by
  have hphase := h.pc poll hpoll
  rw [hpc] at hphase
  obtain ⟨hloaded, rfl, hnext⟩ := hphase
  have hready : w.ready = true := ready_of_poll hpoll (by rw [hpc]; rfl) hloaded
  have hknown : ∀ d ∈ w.pending, (w.firedTerms d.id = some d.terms ∨ next.token = some d) ∨
      w.firedTerms d.id = none ∧ w.Standing d := by
    intro d hd
    rcases h.known d hd with (hterms | hflight) | hnone
    · exact .inl (.inl hterms)
    · rw [token_of_poll hpoll, hpc] at hflight
      left
      right
      cases next <;> first | exact hflight | cases hflight
    · exact .inr hnone
  cases ok with
  | false =>
    exact { h with
      known := hknown
      kept := fun d hd hlive => (h.kept d hd hlive).imp_right fun hpending _ => hpending hready
      clean := fun hunloaded => absurd (hloaded.symm.trans hunloaded) (by decide)
      generation := by rintro p ⟨⟩; exact h.generation poll hpoll
      pc := by rintro p ⟨⟩; exact hnext.pcOk hloaded _ }
  | true =>
    have hround : ∀ {round : AlertRound}, w.RoundOk round →
        { w.toAlertState with
          stored := w.pending
          firedDirty := false
          saved := w.pending ++ w.saved : AlertState }.RoundOk round := by
      intro round hround
      refine ⟨⟨hround.nodup, hround.notPending, fun a ha d hd hid => ?_⟩, hround.young,
        hround.terms,
        fun a ha terms arming hcurrent d hd hid => ?_⟩
      · rcases mem_append.mp hd with hd | hd
        · exact absurd hid (hround.notPending a ha d hd)
        · exact fun hlive => hround.notLive a ha d hd hid hlive
      · rcases mem_append.mp hd with hd | hd
        · exact absurd hid (hround.notPending a (mem_append_left _ ha) d hd)
        · exact hround.unsaved a ha terms arming hcurrent d hd hid
    refine { h with
      savedYoung := fun d hd => ?_
      storedFaithful := h.pendingFaithful
      storedNodup := h.pendingNodup
      known := hknown
      kept := fun d hd hlive => ?_
      clean := fun hunloaded => absurd (hloaded.symm.trans hunloaded) (by decide)
      generation := by rintro p ⟨⟩; exact h.generation poll hpoll
      pc := ?_ }
    · rcases mem_append.mp hd with hd | hd
      · exact (h.pendingFaithful d hd).1
      · exact h.savedYoung d hd
    · have hmatched : Matched w.pending d := by
        rcases mem_append.mp hd with hd | hd
        · exact ⟨d, hd, rfl, rfl⟩
        · exact h.matched hready hd hlive
      exact ⟨hmatched, fun _ => hmatched⟩
    · rintro p ⟨⟩
      have hnext' : { w.toAlertState with
          stored := w.pending
          firedDirty := false
          saved := w.pending ++ w.saved : AlertState }.NextOk next := by
        unfold AlertState.NextOk at hnext ⊢
        split at hnext
        · exact hnext
        · exact hround hnext
        · exact ⟨hround hnext.1, hnext.2⟩
        · exact hnext.elim
      exact hnext'.pcOk hloaded _

/-! ### Writes of the triggered state -/

section Marking

variable {poll : AlertPoll} {d : AlertDelivery} {inFire : Bool} {next : AlertPc}

/-- A write of the triggered state fails. -/
theorem AlertsSound.markFails (h : AlertsSound w) (hpoll : w.poll = some poll)
    (hloads : poll.pc.loads = none) (htoken : poll.pc.token = none)
    (hloaded : w.firedLoaded = true) (hrest : w.RestOk inFire next) :
    AlertsSound (w.setPc poll next) :=
  h.goTo hpoll hloads htoken (hrest.pcOk hloaded _)

/-- **An alert that is read to be stored as triggered is still what was delivered.** -/
theorem AlertsSound.markReads (h : AlertsSound w) (hpoll : w.poll = some poll)
    {terms : Option AlertTerms} (hpc : poll.pc = .marking d terms inFire next)
    (hlocked : w.locked d.id = none) {read : PriceAlert}
    (hread : (w.alert? d.id).filter (markable · terms) = some read) :
    AlertsSound (w.setPc poll (.putting d inFire read (w.arming d.id) next)) := by
  have hphase := h.pc poll hpoll
  rw [hpc] at hphase
  obtain ⟨hloaded, hmark, hrest⟩ := hphase
  obtain ⟨hstored, hmarkable⟩ := Option.filter_eq_some_iff.mp hread
  have hput : d.madeAt = w.arming d.id ∧ d.terms = read.terms := by
    rcases hmark.known with hterms | ⟨-, hstands⟩
    · have hsame : read.terms = d.terms := by
        rw [hterms] at hmarkable
        exact of_decide_eq_true hmarkable d.terms rfl
      refine ⟨?_, hsame.symm⟩
      by_contra hmoved
      exact h.shielded d hmark.pending (Ne.symm hmoved) read hstored hsame
    · exact ⟨hstands.1.symm, (hstands.2 read hstored).symm⟩
  exact h.goTo hpoll (by rw [hpc]; rfl) (by rw [hpc]; rfl)
    ⟨hloaded, ⟨hmark.pending, hstored, rfl, hput.1, hput.2, hlocked⟩, hrest⟩

/-- An alert that has gone, or has other terms by now, has nothing more to be written. -/
theorem AlertsSound.markSkips (h : AlertsSound w) (hpoll : w.poll = some poll)
    {terms : Option AlertTerms} (hpc : poll.pc = .marking d terms inFire next)
    (hread : (w.alert? d.id).filter (markable · terms) = none) (now : ℚ) :
    AlertsSound (w.settle poll d inFire now next) := by
  have hphase := h.pc poll hpoll
  rw [hpc] at hphase
  obtain ⟨hloaded, hmark, hrest⟩ := hphase
  have hnext : AlertsSound (w.setPc poll next) :=
    h.markFails hpoll (by rw [hpc]; rfl) (by rw [hpc]; rfl) hloaded hrest
  refine hnext.settle rfl rfl hrest hloaded hmark.pending (fun d' hd' hid harming hlive => ?_) now
  obtain ⟨hlives, r, hr, -⟩ := hlive
  rw [hid] at hr hlives
  have hsame := (h.pendingFaithful d hmark.pending).2 (hlives.trans harming) r hr
  have hskipped := Option.filter_eq_none_iff.mp hread r hr
  refine hskipped (decide_eq_true fun given hgiven => ?_)
  rcases hmark.known with hterms | ⟨hnone, -⟩
  · rw [hterms] at hgiven
    rw [hsame, Option.some.inj hgiven]
  · rw [hnone] at hgiven
    cases hgiven

/-- **The triggered state is written over the alert that was delivered.** -/
theorem AlertsSound.markWrites (h : AlertsSound w) (hpoll : w.poll = some poll) {read : PriceAlert}
    {readArming : ℕ} (hpc : poll.pc = .putting d inFire read readArming next) (now : ℚ) (time : ℤ) :
    AlertsSound ({ w with
      alerts := Keyed.upsert PriceAlert.id (read.triggered time) w.alerts
      mismarked := w.mismarked || decide (d.madeAt ≠ w.arming d.id ∨ d.terms ≠ read.terms)
      overwrote := w.overwrote || decide (readArming ≠ w.arming d.id)
      }.settle poll d inFire now next) := by
  have hphase := h.pc poll hpoll
  rw [hpc] at hphase
  obtain ⟨hloaded, hput, hrest⟩ := hphase
  have hid : read.id = d.id := Keyed.key_of_find hput.stored
  have hmismarked : (w.mismarked || decide (d.madeAt ≠ w.arming d.id ∨ d.terms ≠ read.terms)) =
      w.mismarked := by
    rw [decide_eq_false, Bool.or_false]
    rintro (hmoved | hother)
    · exact hmoved hput.madeAt
    · exact hother hput.terms
  have hoverwrote : (w.overwrote || decide (readArming ≠ w.arming d.id)) = w.overwrote := by
    rw [decide_eq_false fun hmoved => hmoved hput.arming.symm, Bool.or_false]
  rw [hmismarked, hoverwrote]
  have hfind : ∀ {id r}, Keyed.find PriceAlert.id id
      (Keyed.upsert PriceAlert.id (read.triggered time) w.alerts) = some r →
        ∃ before, w.alert? id = some before ∧ before.terms = r.terms ∧
          (r.status = .armed → before.status = .armed) := by
    intro id r hr
    by_cases hsame : id = read.id
    · rw [hsame] at hr ⊢
      have hr : Keyed.find PriceAlert.id (read.triggered time).id
          (Keyed.upsert PriceAlert.id (read.triggered time) w.alerts) = some r := hr
      rw [Keyed.find_upsert_self] at hr
      obtain ⟨⟩ := hr
      exact ⟨read, hid ▸ hput.stored, rfl, by rintro ⟨⟩⟩
    · have hne : id ≠ (read.triggered time).id := hsame
      rw [Keyed.find_upsert_of_ne hne] at hr
      exact ⟨r, hr, rfl, fun harmed => harmed⟩
  have hnext : AlertsSound (w.setPc poll next) :=
    h.markFails hpoll (by rw [hpc]; rfl) (by rw [hpc]; rfl) hloaded hrest
  have hfollows : Follows w.toAlertState ((w.setPc poll next).edited
      (Keyed.upsert PriceAlert.id (read.triggered time) w.alerts) w.arming w.nextArming w.saves
        w.locked).toAlertState :=
    ⟨Nat.le_refl _, h.young, fun id _ => ⟨rfl, fun r hr => hfind hr⟩⟩
  have hedited := hnext.edited hfollows h.distinct.upsert
    (fun d' _ => .inl ⟨rfl, fun r hr => by
      obtain ⟨before, hbefore, hterms, -⟩ := hfind hr
      exact ⟨before, hbefore, hterms⟩⟩)
    (fun id hputting => by
      unfold AlertState.RestOk at hrest
      split at hrest
      · cases hputting
      · cases hputting
      · exact hrest.elim)
  have hrest' := hfollows.restOk h.savedYoung rfl (List.Subset.refl _) hrest
  refine hedited.settle rfl rfl hrest' hloaded hput.pending (fun d' hd' hid' _ hlive => ?_) now
  obtain ⟨-, r, hr, harmed⟩ := hlive
  rw [hid', ← hid] at hr
  have hr : Keyed.find PriceAlert.id (read.triggered time).id
      (Keyed.upsert PriceAlert.id (read.triggered time) w.alerts) = some r := hr
  rw [Keyed.find_upsert_self] at hr
  obtain ⟨⟩ := hr
  cases harmed

end Marking

/-! ### The start of a poll -/

/-- **An alert is let go when it has been edited since its delivery.** -/
theorem AlertsSound.retryNext (h : AlertsSound w) (hpoll : w.poll = some poll)
    {left armed : List PriceAlert} {listedAt : ℕ} (hpc : poll.pc = .retrying left armed listedAt) :
    AlertsSound (w.retryNext poll armed listedAt left) := by
  have hphase := h.pc poll hpoll
  rw [hpc] at hphase
  obtain ⟨hloaded, hlist, hleft⟩ := hphase
  have hloads : poll.pc.loads = none := by rw [hpc]; rfl
  have hready : w.ready = true := ready_of_poll hpoll hloads hloaded
  have htoken : poll.pc.token = none := by rw [hpc]; rfl
  have hknown := h.knownIdle hpoll htoken
  cases left with
  | nil => exact h.goTo hpoll hloads htoken ⟨hloaded, hlist.nodup⟩
  | cons alert left =>
    have halert := hleft alert (.head _)
    have hrest : ∀ a ∈ left, a ∈ armed := fun a ha => hleft a (.tail _ ha)
    rw [AlertWorld.retryNext]
    split
    · exact h.goTo hpoll hloads htoken ⟨hloaded, hlist, hrest⟩
    · rename_i d hfound
      have hd := Keyed.mem_of_find hfound
      have hid : d.id = alert.id := Keyed.key_of_find hfound
      split
      · rename_i hedited
        have hsub : dropPending alert.id w.pending ⊆ w.pending := List.filter_subset_self _
        have hkeeps : ∀ {d'}, d' ∈ dropPending alert.id w.pending → d'.id ≠ alert.id :=
          fun hd' => of_decide_eq_true (mem_filter.mp hd').2
        refine { h with
          pendingFaithful := fun d' hd' => h.pendingFaithful d' (hsub hd')
          pendingNodup := h.pendingNodup.sublist (List.filter_sublist.map _)
          pendingFired := fun d' hd' => mem_filter.mpr
            ⟨h.pendingFired d' (hsub hd'), decide_eq_true (hkeeps hd')⟩
          shielded := fun d' hd' => h.shielded d' (hsub hd')
          known := fun d' hd' => ?_
          kept := fun d' hd' hlive => ?_
          clean := fun hunloaded => absurd (hloaded.symm.trans hunloaded) (by decide)
          generation := by rintro p ⟨⟩; exact h.generation poll hpoll
          pc := by
            rintro p ⟨⟩
            exact ⟨hloaded, ⟨hlist.listed, hlist.savedBefore, hlist.terms, hlist.nodup⟩, hrest⟩ }
        · have hsame : update w.firedTerms alert.id none d'.id = w.firedTerms d'.id :=
            update_of_ne (hkeeps hd') _ _
          rcases hknown d' (hsub hd') with hterms | ⟨hnone, hstands⟩
          · exact .inl (.inl (hsame.trans hterms))
          · exact .inr ⟨hsame.trans hnone, hstands⟩
        · have hlive' : w.Live d' := hlive
          obtain ⟨hstored, hpending⟩ := h.kept d' hd' hlive'
          refine ⟨hstored, fun _ => ?_⟩
          obtain ⟨m, hm, hmid, harming⟩ := hpending hready
          refine ⟨m, mem_filter.mpr ⟨hm, decide_eq_true fun hmalert => ?_⟩, hmid, harming⟩
          obtain rfl : m = d :=
            List.inj_on_of_nodup_map h.pendingNodup hm hd (hmalert.trans hid.symm)
          obtain ⟨hlives, r, hr, -⟩ := hlive'
          rw [← hmid] at hr hlives
          have hfaithful := (h.pendingFaithful m hm).2 (hlives.trans harming.symm) r hr
          have hbefore : w.arming alert.id < listedAt := by
            rw [← hid, hlives]
            exact hlist.savedBefore d' hd'
          have hlisted := hlist.terms alert halert hbefore r (hid ▸ hr)
          rw [Option.any_eq_true] at hedited
          obtain ⟨given, hgiven, hother⟩ := hedited
          rcases hknown m hm with hterms | ⟨hnone, -⟩
          · rw [hid, hgiven] at hterms
            exact of_decide_eq_true hother
              ((Option.some.inj hterms).trans (hfaithful.symm.trans hlisted))
          · rw [hid, hgiven] at hnone
            cases hnone
      · refine h.goTo hpoll hloads htoken ⟨hloaded, ⟨hd, by rw [hid], ?_⟩, hlist, hrest⟩
        rw [← hid]
        exact hknown d hd

/-- What is not fired has not been delivered for its arming. -/
theorem AlertsSound.retried (h : AlertsSound w) (hpoll : w.poll = some poll)
    {armed : List PriceAlert} (hpc : poll.pc = .retried armed) :
    AlertsSound (w.goPricing poll (groupByCurrency (armed.filter fun a => a.id ∉ w.fired))) := by
  have hphase := h.pc poll hpoll
  rw [hpc] at hphase
  obtain ⟨hloaded, hnodup⟩ := hphase
  have hloads : poll.pc.loads = none := by rw [hpc]; rfl
  refine h.goPricing hpoll hloads (by rw [hpc]; rfl) fun _ => ⟨hloaded, ?_, ?_, ?_⟩
  · exact nodup_groupByCurrency (hnodup.sublist (List.filter_sublist.map _))
  · intro a ha d hd hid
    have hunfired := of_decide_eq_true (mem_filter.mp (mem_groupByCurrency.mp ha)).2
    exact hunfired (hid ▸ h.pendingFired d hd)
  · intro a ha d hd hid hlive
    have hunfired := of_decide_eq_true (mem_filter.mp (mem_groupByCurrency.mp ha)).2
    obtain ⟨m, hm, hmid, -⟩ := h.matched (ready_of_poll hpoll hloads hloaded) hd hlive
    exact hunfired (hid ▸ hmid ▸ h.pendingFired m hm)

/-- The stored records, read into an empty session. -/
theorem restore_pending {w : AlertWorld} (hnodup : (w.stored.map AlertDelivery.id).Nodup)
    (hpending : w.pending = []) : w.restore.pending = w.stored := by
  have hfold : ∀ (ds pending : List AlertDelivery), ((pending ++ ds).map AlertDelivery.id).Nodup →
      ds.foldl (fun pending d => addPending d pending) pending = pending ++ ds := by
    intro ds
    induction ds with
    | nil => exact fun pending _ => (List.append_nil pending).symm
    | cons d ds ih =>
      intro pending hnodup
      have hnew : d.id ∉ pending.map AlertDelivery.id := by
        rw [List.map_append, List.map_cons, List.nodup_append] at hnodup
        exact fun hmem => hnodup.2.2 d.id hmem d.id (.head _) rfl
      rw [List.foldl_cons, addPending, if_neg hnew, ih _ (by
        rwa [List.append_assoc, List.singleton_append]), List.append_assoc, List.singleton_append]
  rw [restore]
  dsimp only
  rw [hpending, hfold w.stored [] hnodup, List.nil_append]

theorem mem_restore_fired {w : AlertWorld} (h : d ∈ w.stored) : d.id ∈ w.restore.fired := by
  have hkeeps : ∀ (ds : List AlertDelivery) (fired : List String) (id : String), id ∈ fired →
      id ∈ ds.foldl (fun fired d => addFired d.id fired) fired := by
    intro ds
    induction ds with
    | nil => exact fun fired id hid => hid
    | cons d ds ih =>
      intro fired id hid
      refine ih _ id ?_
      dsimp only
      rw [addFired]
      split
      · exact hid
      · exact mem_append_left _ hid
  have hadds : ∀ (ds : List AlertDelivery) (fired : List String), ∀ d ∈ ds,
      d.id ∈ ds.foldl (fun fired d => addFired d.id fired) fired := by
    intro ds
    induction ds with
    | nil => rintro fired d ⟨⟩
    | cons d ds ih =>
      intro fired d' hd'
      rcases List.mem_cons.mp hd' with rfl | hd'
      · refine hkeeps ds _ _ ?_
        dsimp only
        rw [addFired]
        split
        · assumption
        · exact List.mem_append_right _ (List.mem_singleton_self _)
      · exact ih _ d' hd'
  exact hadds w.stored w.fired d h

/-- The records of a session that is about to try its writes again. -/
structure Restored (w r : AlertWorld) (armedIds : List String) : Prop where
  same : r = { w with fired := r.fired, pending := r.pending }
  faithful : ∀ d ∈ r.pending, w.Faithful d
  nodup : (r.pending.map AlertDelivery.id).Nodup
  fired : ∀ d ∈ r.pending, d.id ∈ r.fired
  shielded : ∀ d ∈ r.pending, d.id ∈ armedIds → w.Shielded d
  known : ∀ d ∈ r.pending, d.id ∈ armedIds →
    w.firedTerms d.id = some d.terms ∨ w.firedTerms d.id = none ∧ w.Standing d
  kept : ∀ d ∈ w.saved, w.Live d → Matched r.pending d

/-- Records that have been read back stand for their alerts. -/
theorem AlertsSound.restore (h : AlertsSound w) (hpoll : w.poll = some poll)
    {activeNetwork : String} {load : Bool} {armed : List PriceAlert} {listedAt : ℕ}
    (hpc : poll.pc = .restoring activeNetwork load armed listedAt) {ok : Bool} {now : ℚ}
    (hcareful : CarefulAlerts w (.restored ok now)) :
    Restored w (if load && ok then w.restore else w) (armed.map PriceAlert.id) := by
  have hphase := h.pc poll hpoll
  rw [hpc] at hphase
  obtain ⟨hloaded, hfresh, -, -⟩ := hphase
  cases load with
  | true =>
    obtain ⟨rfl, hstands⟩ := hcareful poll hpoll armed (by rw [hpc]; rfl)
    obtain ⟨hpending, -, hterms⟩ := hfresh rfl
    have hrestored := restore_pending h.storedNodup hpending
    rw [Bool.and_self, if_pos rfl]
    refine ⟨rfl, ?_, ?_, ?_, ?_, ?_, ?_⟩
    · rw [hrestored]
      exact h.storedFaithful
    · rw [hrestored]
      exact h.storedNodup
    · rw [hrestored]
      exact fun d hd => mem_restore_fired hd
    · rw [hrestored]
      exact fun d hd harmed hmoved => absurd (hstands d hd harmed).1 hmoved
    · rw [hrestored]
      exact fun d hd harmed => .inr ⟨hterms d.id, hstands d hd harmed⟩
    · rw [hrestored]
      exact fun d hd hlive => (h.kept d hd hlive).1
  | false =>
    have hready : w.ready = true := ready_of_poll hpoll (by rw [hpc]; rfl) hloaded
    rw [Bool.false_and, if_neg Bool.false_ne_true]
    exact ⟨rfl, h.pendingFaithful, h.pendingNodup, h.pendingFired, fun d hd _ => h.shielded d hd,
      fun d hd _ => h.knownIdle hpoll (by rw [hpc]; rfl) d hd,
      fun d hd hlive => h.matched hready hd hlive⟩

/-- The start of a session's writes: what has left the list is let go. -/
theorem AlertsSound.restored (h : AlertsSound w) (hpoll : w.poll = some poll)
    {activeNetwork : String} {load : Bool} {armed active : List PriceAlert} {listedAt : ℕ}
    (hpc : poll.pc = .restoring activeNetwork load armed listedAt) (hactive : active.Sublist armed)
    {r : AlertWorld} (hr : Restored w r (armed.map PriceAlert.id)) (interval now : ℚ) :
    AlertsSound ((r.prune interval now (armed.map PriceAlert.id)).setPc poll
      (.retrying active active listedAt)) := by
  have hphase := h.pc poll hpoll
  rw [hpc] at hphase
  obtain ⟨hloaded, -, hlist, hcomplete⟩ := hphase
  rw [hr.same]
  have hmem : ∀ {d}, d ∈ r.pending.filter (fun d => d.id ∈ armed.map PriceAlert.id) →
      d ∈ r.pending ∧ d.id ∈ armed.map PriceAlert.id := fun hd =>
    ⟨List.mem_of_mem_filter hd, of_decide_eq_true (mem_filter.mp hd).2⟩
  have hkeeps : ∀ {d}, d ∈ r.pending.filter (fun d => d.id ∈ armed.map PriceAlert.id) →
      d.id ∈ (r.pending.filter fun d => d.id ∈ armed.map PriceAlert.id).map AlertDelivery.id :=
    fun hd => List.mem_map_of_mem hd
  refine { h with
    pendingFaithful := fun d hd => hr.faithful d (hmem hd).1
    pendingNodup := hr.nodup.sublist (List.filter_sublist.map _)
    pendingFired := fun d hd => ?_
    shielded := fun d hd => hr.shielded d (hmem hd).1 (hmem hd).2
    known := fun d hd => ?_
    kept := fun d hd hlive => ?_
    clean := fun hunloaded => absurd (hloaded.symm.trans hunloaded) (by decide)
    generation := by rintro p ⟨⟩; exact h.generation poll hpoll
    pc := ?_ }
  · obtain ⟨hpending, harmed⟩ := hmem hd
    refine mem_filter.mpr ⟨mem_filter.mpr ⟨hr.fired d hpending, ?_⟩, ?_⟩
    · exact decide_eq_true fun hleft => hleft.2 harmed
    · rw [decide_eq_true_eq, decide_eq_true_eq]
      exact fun hexpired => hexpired.1 (hkeeps hd)
  · obtain ⟨hpending, harmed⟩ := hmem hd
    have hsame : ((({ w with fired := r.fired, pending := r.pending } : AlertWorld).prune interval
        now (armed.map PriceAlert.id)).firedTerms d.id) = w.firedTerms d.id := by
      rw [AlertWorld.prune]
      refine if_neg fun hexpired => ?_
      exact (of_decide_eq_true hexpired.2).1 (hkeeps hd)
    rcases hr.known d hpending harmed with hterms | ⟨hnone, hstands⟩
    · exact .inl (.inl (hsame.trans hterms))
    · exact .inr ⟨hsame.trans hnone, hstands⟩
  · have hlive' : w.Live d := hlive
    refine ⟨(h.kept d hd hlive').1, fun _ => ?_⟩
    obtain ⟨m, hm, hid, harming⟩ := hr.kept d hd hlive'
    refine ⟨m, mem_filter.mpr ⟨hm, decide_eq_true ?_⟩, hid, harming⟩
    obtain ⟨hlives, a, ha, harmed⟩ := hlive'
    rw [hid]
    exact hcomplete d.id a ha harmed (hlives ▸ hlist.savedBefore d hd)
  · rintro p ⟨⟩
    exact ⟨hloaded, ⟨hlist.listed, hlist.savedBefore, fun a ha => hlist.terms a (hactive.subset ha),
      hlist.nodup.sublist (hactive.map _)⟩, fun a ha => ha⟩

/-- **Each step of a poll keeps the watcher sound.** -/
theorem AlertsSound.pollStep (h : AlertsSound w) (hpoll : w.poll = some poll) {interval : ℚ}
    {a : AlertAct} (hcareful : CarefulAlerts w a) {w' : AlertWorld}
    (hstep : w.pollStep interval poll poll.pc a = some w') : AlertsSound w' := by
  generalize hpc : poll.pc = pc at hstep
  have hphase := h.pc poll hpoll
  rw [hpc] at hphase
  unfold AlertWorld.pollStep at hstep
  split at hstep
  · rename_i answer
    cases answer with
    | none =>
      obtain ⟨⟩ := hstep
      exact h.endPoll hpoll (by rw [hpc]; rfl) (by rw [hpc]; rfl)
    | some settings =>
      obtain ⟨⟩ := hstep
      split
      · exact h.goTo hpoll (by rw [hpc]; rfl) (by rw [hpc]; rfl) trivial
      · exact h.endPoll hpoll (by rw [hpc]; rfl) (by rw [hpc]; rfl)
  · obtain ⟨⟩ := hstep
    split
    · exact h.endPoll hpoll (by rw [hpc]; rfl) (by rw [hpc]; rfl)
    · exact h.listed hpoll hpc
  · obtain ⟨⟩ := hstep
    exact h.restored hpoll hpc List.filter_sublist (h.restore hpoll hpc hcareful) _ _
  · obtain ⟨⟩ := hstep
    exact h.retryNext hpoll hpc
  · obtain ⟨⟩ := hstep
    exact h.retried hpoll hpc
  · obtain ⟨⟩ := hstep
    exact h.recorded hpoll hpc
  · obtain ⟨⟩ := hstep
    exact h.persist hpoll hpc hcareful
  · rename_i d terms inFire next ok now
    obtain ⟨hloaded, -, hrest⟩ := hphase
    split at hstep
    · cases hstep
    · rename_i hlocked
      split at hstep
      · obtain ⟨⟩ := hstep
        exact h.markFails hpoll (by rw [hpc]; rfl) (by rw [hpc]; rfl) hloaded hrest
      · split at hstep
        · rename_i hread
          obtain ⟨⟩ := hstep
          exact h.markSkips hpoll hpc hread now
        · rename_i read hread
          obtain ⟨⟩ := hstep
          rw [Bool.not_eq_true, Option.isSome_eq_false_iff, Option.isNone_iff_eq_none] at hlocked
          exact h.markReads hpoll hpc hlocked hread
  · obtain ⟨hloaded, -, hrest⟩ := hphase
    split at hstep
    · obtain ⟨⟩ := hstep
      exact h.markFails hpoll (by rw [hpc]; rfl) (by rw [hpc]; rfl) hloaded hrest
    · obtain ⟨⟩ := hstep
      exact h.markWrites hpoll hpc _ _
  · obtain ⟨⟩ := hstep
    exact h.saved hpoll hpc _
  · rename_i currency alerts groups answer
    have hgroups : w.PcOk poll.generation (.pricing groups) := by
      intro hcurrent
      obtain ⟨hloaded, hun⟩ := hphase hcurrent
      exact ⟨hloaded, hun.sublist (List.sublist_append_right _ _)⟩
    have hgo := h.goPricing hpoll (by rw [hpc]; rfl) (by rw [hpc]; rfl) hgroups
    cases answer with
    | none =>
      obtain ⟨⟩ := hstep
      exact hgo
    | some prices =>
      obtain ⟨⟩ := hstep
      split
      · exact h.endPoll hpoll (by rw [hpc]; rfl) (by rw [hpc]; rfl)
      · cases prices with
        | none => exact hgo
        | some prices => exact h.goTo hpoll (by rw [hpc]; rfl) (by rw [hpc]; rfl) hphase
  · rename_i round ok
    obtain ⟨⟩ := hstep
    split
    · exact h.endPoll hpoll (by rw [hpc]; rfl) (by rw [hpc]; rfl)
    · rename_i hcurrent
      rw [not_or, not_not, not_not] at hcurrent
      obtain ⟨hloaded, hun⟩ := hphase hcurrent.2
      have hcurrentTerms : ∀ {id terms arming}, w.currentTerms id = some (terms, arming) →
          ∃ r, w.alert? id = some r ∧ r.status = .armed ∧ r.terms = terms ∧
            w.arming id = arming := by
        intro id terms arming hsome
        obtain ⟨r, hr, hpair⟩ := Option.map_eq_some_iff.mp hsome
        obtain ⟨hfound, harmed⟩ := Option.filter_eq_some_iff.mp hr
        obtain ⟨hterms, harming⟩ := Prod.mk.inj hpair
        exact ⟨r, hfound, of_decide_eq_true harmed, hterms, harming⟩
      refine h.goTo hpoll (by rw [hpc]; rfl) (by rw [hpc]; rfl) ⟨hloaded,
        ⟨hun.nodup, hun.notPending, hun.notLive⟩, fun id terms arming hsome => ?_,
        fun id terms arming hsome _ r hr => ?_,
        fun a ha terms arming hsome d hd hid harming => ?_⟩
      · obtain ⟨-, -, -, -, rfl⟩ := hcurrentTerms hsome
        exact h.young id
      · obtain ⟨r', hr', -, hterms, -⟩ := hcurrentTerms hsome
        rw [← hterms, Option.some.inj (hr.symm.trans hr')]
      · obtain ⟨r, hr, harmed, -, hnow⟩ := hcurrentTerms hsome
        refine hun.notLive a (mem_append_left _ ha) d hd hid ⟨?_, r, ?_, harmed⟩
        · rw [hid, hnow, harming]
        · rw [hid, hr]
  · obtain ⟨⟩ := hstep
    exact h.judgeNext hpoll hpc _ _
  · obtain ⟨⟩ := hstep
    exact h.noted hpoll hpc
  · cases hstep

/-- **Every careful step keeps the watcher sound.** -/
theorem AlertsSound.step (h : AlertsSound w) {interval : ℚ} {a : AlertAct}
    (hcareful : CarefulAlerts w a) {w' : AlertWorld} (hstep : w.step interval a = some w') :
    AlertsSound w' := by
  unfold AlertWorld.step at hstep
  split at hstep
  · obtain ⟨⟩ := hstep
    cases hpoll : w.poll with
    | some poll => exact h
    | none =>
      refine { h with
        known := fun d hd => ?_
        kept := fun d hd hlive => ?_
        generation := by rintro p ⟨⟩; exact Nat.le_refl _
        pc := by rintro p ⟨⟩; trivial }
      · rcases h.known d hd with (hterms | hflight) | hnone
        · exact .inl (.inl hterms)
        · rw [token, hpoll] at hflight
          cases hflight
        · exact .inr hnone
      · obtain ⟨hstored, hpending⟩ := h.kept d hd hlive
        refine ⟨hstored, fun hready => hpending ?_⟩
        rw [ready, Bool.and_eq_true] at hready ⊢
        rw [hpoll]
        exact ⟨hready.1, rfl⟩
  · split at hstep
    · obtain ⟨⟩ := hstep
      exact h.stop hcareful
    · cases hstep
  · rcases Option.or_eq_some_iff.mp hstep with huser | ⟨-, hpolls⟩
    · exact h.userStep hcareful huser
    · obtain ⟨poll, hpoll, hpolls⟩ := Option.bind_eq_some_iff.mp hpolls
      exact h.pollStep hpoll hcareful hpolls

end Steps

theorem alertsSound_start {alerts : List PriceAlert} (h : Keyed.Distinct PriceAlert.id alerts) :
    AlertsSound (start alerts) where
  safe := ⟨rfl, rfl, rfl⟩
  distinct := h
  young := fun _ => Nat.zero_lt_one
  savedYoung := by rintro d ⟨⟩
  pendingFaithful := by rintro d ⟨⟩
  storedFaithful := by rintro d ⟨⟩
  pendingNodup := nodup_nil
  storedNodup := nodup_nil
  pendingFired := by rintro d ⟨⟩
  shielded := by rintro d ⟨⟩
  known := by rintro d ⟨⟩
  kept := by rintro d ⟨⟩
  clean := fun _ => ⟨rfl, rfl, fun _ => rfl⟩
  generation := by rintro poll ⟨⟩
  pc := by rintro poll ⟨⟩

/-- **A delivery settles its own arming, undoes no edit and is not repeated**, in every run of
polls, stops, restarts, failures and calls of the user whose steps are careful. -/
theorem alerts_settled (interval : ℚ) (alerts : List PriceAlert)
    (hdistinct : Keyed.Distinct PriceAlert.id alerts) (acts : List AlertAct)
    (hcareful : Under CarefulAlerts (AlertWorld.step interval) (AlertWorld.start alerts) acts) :
    Throughout AlertsSafe (AlertWorld.step interval) (AlertWorld.start alerts) acts := by
  have hsound := throughout_of_under
    (fun w a w' h hguard hstep => AlertsSound.step h hguard hstep)
    (alertsSound_start hdistinct) hcareful
  exact hsound.mono fun w h => h.safe

/-! ### Runs -/

private def bitcoinAlert : PriceAlert where
  id := "a"
  walletId := "w"
  chainId := "bitcoin-mainnet"
  direction := .above
  targetFiat := 100
  fiatCurrency := "usd"
  status := .armed
  triggeredAt := none

private def higherAlert : PriceAlert := { bitcoinAlert with id := "b", targetFiat := 110 }

private def reached : AlertAct := .priced (some (some fun _ => some ⟨some 200, none⟩))

/-- A poll up to its first alert. -/
private def firstReads : List AlertAct :=
  [.poll, .settings (some ⟨true, true, ""⟩), .listed true, .restored true 0, .advance]

/-- A poll from its last alert to its first notification. -/
private def notifying : List AlertAct :=
  [.advance, .advance, .advance, reached, .currentRead true, .judge 0 false true]

/-- A notification is delivered, and its record saved. -/
private def recording : List AlertAct := [.noted, .advance, .saved true, .advance]

/-- The delivered alert is not stored as triggered. -/
private def failedMark : List AlertAct :=
  firstReads ++ notifying ++ recording ++ [.markRead false 0, .judge 0 false true]

/-- A restart tries the write again. -/
theorem alerts_settled_restart :
    Throughout AlertsSafe (AlertWorld.step 300000) (AlertWorld.start [bitcoinAlert])
      (failedMark ++ .stop :: firstReads ++ [.markRead true 0, .markWrite true 0 0, .advance,
        .advance, .saved true, .advance]) :=
  alerts_settled 300000 [bitcoinAlert] (by decide)
    (failedMark ++ .stop :: firstReads ++ [.markRead true 0, .markWrite true 0 0, .advance,
      .advance, .saved true, .advance]) (by decide)

/-- The user sets another price for the alert. -/
private def edit : List AlertAct :=
  [.saveRead 0 ⟨some "a", "w", "bitcoin-mainnet", .above, 300, "usd"⟩ "", .saveWrite 0 true]

/-- The alert is edited between a stop and the restart. -/
private def editedBetween : List AlertAct :=
  failedMark ++ .stop :: edit ++ firstReads ++ [.markRead true 0, .markWrite true 0 0]

/-- The alert is edited between the read and the write of the triggered state. -/
private def editedMeanwhile : List AlertAct :=
  firstReads ++ notifying ++ recording ++ .markRead true 0 :: edit ++ [.markWrite true 0 0]

/-- A stop comes during the second notification, and the alert of the first is notified again. -/
private def stoppedMeanwhile : List AlertAct :=
  firstReads ++ .advance :: notifying ++ recording ++ [.markRead false 0, .judge 0 false true, .stop]
    ++ recording ++ [.markRead true 0, .markWrite true 0 0, .advance, .saved true,
      .judge 0 false true] ++ firstReads ++ notifying

private theorem isSome_editedBetween :
    (run (step 300000) (.start [bitcoinAlert]) editedBetween).isSome := by
  decide

private theorem isSome_editedMeanwhile :
    (run (step 300000) (.start [bitcoinAlert]) editedMeanwhile).isSome := by
  decide

private theorem isSome_stoppedMeanwhile : (run (step 300000) (.start [bitcoinAlert, higherAlert])
      stoppedMeanwhile).isSome := by
  decide

/-- A restart stores an edited alert as triggered, a triggered state overwrites an edit, and a
stop during a notification lets another be repeated. -/
theorem not_alerts_settled :
    (¬∀ interval alerts, Keyed.Distinct PriceAlert.id alerts → ∀ acts,
      Throughout (fun w => w.mismarked = false) (AlertWorld.step interval)
        (AlertWorld.start alerts) acts) ∧
    (¬∀ interval alerts, Keyed.Distinct PriceAlert.id alerts → ∀ acts,
      Throughout (fun w => w.overwrote = false) (AlertWorld.step interval)
        (AlertWorld.start alerts) acts) ∧
    ¬∀ interval alerts, Keyed.Distinct PriceAlert.id alerts → ∀ acts,
      Throughout (fun w => w.repeated = false) (AlertWorld.step interval)
        (AlertWorld.start alerts) acts := by
  refine ⟨fun hall => ?_, fun hall => ?_, fun hall => ?_⟩
  · have hown := (hall 300000 [bitcoinAlert] (by decide) editedBetween).last
      (Option.some_get isSome_editedBetween).symm
    exact absurd hown (by decide)
  · have hkept := (hall 300000 [bitcoinAlert] (by decide) editedMeanwhile).last
      (Option.some_get isSome_editedMeanwhile).symm
    exact absurd hkept (by decide)
  · have honce := (hall 300000 [bitcoinAlert, higherAlert] (by decide) stoppedMeanwhile).last
      (Option.some_get isSome_stoppedMeanwhile).symm
    exact absurd honce (by decide)

end XchainWallet
