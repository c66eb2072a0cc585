import XchainWallet.Bridge.ApprovalBroker

/-!
# Every approval is settled once

In every order of events a promise of the broker is pending, with its timer armed, or settled, once
(`Broker.Ok`). The events that settle promises differ in which entries they take out of the table and in
what they settle them with, `Settles`; what these have in common is proved of it once.

The answer of a window settles the promise of the request that the window showed, and of the connects
of the same origin that joined it (`approval_settled_once`).
-/

namespace XchainWallet.Approvals

open List (mem_cons mem_filter not_mem_nil)

variable {ρ : Type} {deps : Deps}

namespace Broker

variable {b b' b'' : Broker ρ}

/-! ### The table and the promises -/

def settledIds (b : Broker ρ) : List ℕ := b.settled.map Prod.fst

/-- A promise is pending with its timer armed, or settled once. -/
structure Ok (deps : Deps) (b : Broker ρ) : Prop where
  id_eq : ∀ e ∈ b.pending.records, e.id = deps.newId e.deferred
  lt : ∀ e ∈ b.pending.records, e.deferred < b.deferreds
  armed : ∀ e ∈ b.pending.records, e.id ∈ b.timers
  once : b.settledIds.Nodup
  settled_lt : ∀ d ∈ b.settledIds, d < b.deferreds
  not_settled : ∀ e ∈ b.pending.records, e.deferred ∉ b.settledIds
  covered : ∀ d < b.deferreds, (∃ e ∈ b.pending.records, e.deferred = d) ∨ d ∈ b.settledIds

/-- The entries `gone` are out of the table and their promises settled with `outcome`; nothing else has
changed of either. -/
structure Settles (deps : Deps) (b b' : Broker ρ) (gone : PendingEntry → Prop) (outcome : Outcome ρ) :
    Prop where
  ok : b.Ok deps → b'.Ok deps
  deferreds_eq : b'.deferreds = b.deferreds
  mem_pending : ∀ e, e ∈ b'.pending.records ↔ e ∈ b.pending.records ∧ ¬ gone e
  mem_settled : ∀ x, x ∈ b'.settled ↔
    x ∈ b.settled ∨ ∃ e ∈ b.pending.records, gone e ∧ x = (e.deferred, outcome)

variable {gone gone' : PendingEntry → Prop} {outcome : Outcome ρ}

theorem Settles.refl (b : Broker ρ) (outcome : Outcome ρ) : Settles deps b b (fun _ => False) outcome where
  ok h := h
  deferreds_eq := rfl
  mem_pending _ := ⟨fun h => ⟨h, not_false⟩, fun h => h.1⟩
  mem_settled _ := ⟨.inl, fun h => h.resolve_right fun ⟨_, _, hfalse, _⟩ => hfalse⟩

theorem Settles.trans (h : Settles deps b b' gone outcome) (h' : Settles deps b' b'' gone' outcome) :
    Settles deps b b'' (fun e => gone e ∨ gone' e) outcome where
  ok hb := h'.ok (h.ok hb)
  deferreds_eq := h'.deferreds_eq.trans h.deferreds_eq
  mem_pending e := by
    rw [h'.mem_pending, h.mem_pending, not_or, and_assoc]
  mem_settled x := by
    rw [h'.mem_settled, h.mem_settled]
    constructor
    · rintro ((hx | ⟨e, he, hgone, rfl⟩) | ⟨e, he, hgone, rfl⟩)
      · exact .inl hx
      · exact .inr ⟨e, he, .inl hgone, rfl⟩
      · exact .inr ⟨e, ((h.mem_pending e).mp he).1, .inr hgone, rfl⟩
    · rintro (hx | ⟨e, he, hgone, rfl⟩)
      · exact .inl (.inl hx)
      · by_cases hfirst : gone e
        · exact .inl (.inr ⟨e, he, hfirst, rfl⟩)
        · exact .inr ⟨e, (h.mem_pending e).mpr ⟨he, hfirst⟩, hgone.resolve_left hfirst, rfl⟩

/-- Only which of the pending entries are gone matters. -/
theorem Settles.congr (h : Settles deps b b' gone outcome)
    (hiff : ∀ e ∈ b.pending.records, (gone e ↔ gone' e)) : Settles deps b b' gone' outcome where
  ok := h.ok
  deferreds_eq := h.deferreds_eq
  mem_pending e := (h.mem_pending e).trans (and_congr_right fun he => not_congr (hiff e he))
  mem_settled x := by
    rw [h.mem_settled]
    refine or_congr_right (exists_congr fun e => and_congr_right fun he => ?_)
    rw [hiff e he]

theorem Ok.settle (h : b.Ok deps) {entry : PendingEntry} (hentry : entry ∈ b.pending.records)
    (outcome : Outcome ρ) : (b.settle entry outcome).Ok deps where
  id_eq e he := h.id_eq e (Keyed.Table.mem_delete.mp he).1
  lt e he := h.lt e (Keyed.Table.mem_delete.mp he).1
  armed e he := by
    obtain ⟨he, hne⟩ := Keyed.Table.mem_delete.mp he
    exact mem_filter.mpr ⟨h.armed e he, decide_eq_true hne⟩
  once := List.nodup_cons.mpr ⟨h.not_settled entry hentry, h.once⟩
  settled_lt d hd := by
    rcases mem_cons.mp hd with rfl | hd
    · exact h.lt entry hentry
    · exact h.settled_lt d hd
  not_settled e he hd := by
    obtain ⟨he, hne⟩ := Keyed.Table.mem_delete.mp he
    rcases mem_cons.mp hd with heq | hd
    · -- Two entries of one promise would have one id.
      refine hne ?_
      rw [h.id_eq e he, h.id_eq entry hentry, heq]
    · exact h.not_settled e he hd
  covered d hd := by
    rcases h.covered d hd with ⟨e, he, rfl⟩ | hd
    · by_cases hid : e.id = entry.id
      · rw [b.pending.eq_of_key_eq he hentry hid]
        exact .inr (.head _)
      · exact .inl ⟨e, Keyed.Table.mem_delete.mpr ⟨he, hid⟩, rfl⟩
    · exact .inr (.tail _ hd)

theorem settles_settle {entry : PendingEntry} (hentry : entry ∈ b.pending.records) (outcome : Outcome ρ) :
    Settles deps b (b.settle entry outcome) (fun e => e.id = entry.id) outcome where
  ok h := h.settle hentry outcome
  deferreds_eq := rfl
  mem_pending e := Keyed.Table.mem_delete
  mem_settled x := by
    rw [Broker.settle, mem_cons, or_comm]
    refine or_congr_right ⟨fun hx => ⟨entry, hentry, rfl, hx⟩, ?_⟩
    rintro ⟨e, he, hid, rfl⟩
    rw [b.pending.eq_of_key_eq he hentry hid]

/-- Closing the window is a matter of the browser. -/
theorem Settles.removeWindow (h : Settles deps b b' gone outcome) (windowId : Option ℤ) :
    Settles deps b (b'.removeWindow windowId) gone outcome where
  ok hb :=
    have hok := h.ok hb
    ⟨hok.id_eq, hok.lt, hok.armed, hok.once, hok.settled_lt, hok.not_settled, hok.covered⟩
  deferreds_eq := h.deferreds_eq
  mem_pending := h.mem_pending
  mem_settled := h.mem_settled

/-- A loop over entries that settles those that are still pending settles all of them. -/
theorem settles_foldl {f : Broker ρ → PendingEntry → Broker ρ} {entries : List PendingEntry}
    (hf : ∀ b : Broker ρ, ∀ e ∈ entries, (∀ e' ∈ b.pending.records, e'.id = e.id → e' = e) →
      Settles deps b (f b e) (fun e' => e'.id = e.id) outcome)
    (hsame : ∀ e ∈ entries, ∀ e' ∈ b.pending.records, e'.id = e.id → e' = e) :
    Settles deps b (entries.foldl f b) (fun e' => ∃ e ∈ entries, e'.id = e.id) outcome := by
  induction entries generalizing b with
  | nil =>
    refine (Settles.refl b outcome).congr fun e _ => ⟨False.elim, ?_⟩
    rintro ⟨_, hnil, -⟩
    exact not_mem_nil hnil
  | cons e rest ih =>
    have hfirst := hf b e (.head _) (hsame e (.head _))
    have hrest := ih (b := f b e) (fun b e' he' => hf b e' (.tail _ he'))
      fun e' he' a ha => hsame e' (.tail _ he') a ((hfirst.mem_pending a).mp ha).1
    refine (hfirst.trans hrest).congr fun a _ => ?_
    simp only [mem_cons, exists_eq_or_imp]

/-- A selection of the pending entries. -/
theorem Settles.of_filter {p : PendingEntry → Prop} [DecidablePred p]
    (h : Settles deps b b' (fun e' => ∃ e ∈ b.pending.records.filter p, e'.id = e.id) outcome) :
    Settles deps b b' p outcome := by
  refine h.congr fun e he => ⟨?_, fun hp => ⟨e, mem_filter.mpr ⟨he, decide_eq_true hp⟩, rfl⟩⟩
  rintro ⟨e', he', hid⟩
  obtain ⟨he', hp⟩ := mem_filter.mp he'
  rw [b.pending.eq_of_key_eq he he' hid]
  exact of_decide_eq_true hp

/-! ### What each event settles -/

theorem settles_of_get {id : String} {f : PendingEntry → Broker ρ}
    (hsome : ∀ entry ∈ b.pending.records, entry.id = id →
      Settles deps b (f entry) (fun e => e.id = entry.id) outcome) :
    Settles deps b (match b.pending.get id with
      | some entry => f entry
      | none => b) (fun e => e.id = id) outcome := by
  rcases hget : b.pending.get id with - | entry
  · have hnone := b.pending.get_eq_none.mp hget
    exact (Settles.refl b outcome).congr fun e he => ⟨False.elim, hnone e he⟩
  · obtain ⟨hentry, rfl⟩ := b.pending.get_eq_some.mp hget
    exact hsome entry hentry rfl

theorem settles_rejectPending (id : String) :
    Settles deps b (b.rejectPending id) (fun e => e.id = id) (.rejected none) :=
  settles_of_get fun entry hentry _ => (settles_settle hentry _).removeWindow entry.windowId

theorem settles_windowFailed (id message : String) :
    Settles deps b (b.windowFailed id message) (fun e => e.id = id) (.failed message) :=
  settles_of_get fun _ hentry _ => settles_settle hentry _

theorem settles_resolve (id : String) (result : ρ) :
    Settles deps b (b.resolve id result).2 (fun e => e.id = id) (.result result) := by
  have hentry : ∀ entry ∈ b.pending.records, entry.id = id →
      Settles deps b ((b.settle entry (.result result)).removeWindow entry.windowId)
        (fun e => e.id = entry.id) (.result result) :=
    fun entry hentry _ => (settles_settle hentry _).removeWindow entry.windowId
  have h := settles_of_get hentry
  rw [Broker.resolve]
  rcases hget : b.pending.get id with - | entry
  · rwa [hget] at h
  · rwa [hget] at h

theorem settles_cancelEntries {p : PendingEntry → Prop} [DecidablePred p] (reason : Option String) :
    Settles deps b (b.cancelEntries (b.pending.records.filter p) reason) p (.rejected reason) := by
  refine Settles.of_filter (settles_foldl (fun b e _ hsame => ?_) fun e he e' he' hid => ?_)
  · rw [cancelEntry]
    rcases hget : b.pending.get e.id with - | current
    · have hnone := b.pending.get_eq_none.mp hget
      exact (Settles.refl b _).congr fun e' he' => ⟨False.elim, hnone e' he'⟩
    · obtain ⟨hcurrent, hid⟩ := b.pending.get_eq_some.mp hget
      obtain rfl := hsame current hcurrent hid
      rw [if_pos (by simp)]
      exact (settles_settle hcurrent _).removeWindow current.windowId
  · exact b.pending.eq_of_key_eq he' (List.mem_of_mem_filter he) hid

theorem settles_onTabRemoved (tabId : ℤ) :
    Settles deps b (b.onTabRemoved tabId) (fun e => e.requesterTabId = some tabId) (.rejected none) := by
  refine Settles.of_filter (settles_foldl (fun b e _ _ => settles_rejectPending e.id) ?_)
  exact fun e he e' he' hid => b.pending.eq_of_key_eq he' (List.mem_of_mem_filter he) hid

/-- A timer that fires is not armed any more, as if it had been cleared. -/
theorem settles_timeout (id : String) :
    Settles deps b ({ b with timers := b.timers.filter (· ≠ id) }.rejectPending id)
      (fun e => e.id = id) (.rejected none) := by
  rw [rejectPending]
  rcases hget : b.pending.get id with - | entry
  · have hnone := b.pending.get_eq_none.mp hget
    refine ⟨fun h => { h with armed := fun e he => ?_ }, rfl, fun e => ?_, fun x => ?_⟩
    · exact mem_filter.mpr ⟨h.armed e he, decide_eq_true (hnone e he)⟩
    · exact ⟨fun he => ⟨he, hnone e he⟩, And.left⟩
    · refine ⟨.inl, fun hx => hx.resolve_right ?_⟩
      rintro ⟨e, he, hid, -⟩
      exact hnone e he hid
  · obtain ⟨hentry, rfl⟩ := b.pending.get_eq_some.mp hget
    have hsettle : { b with timers := b.timers.filter (· ≠ entry.id) }.settle entry (.rejected none) =
        b.settle entry (.rejected none) := by
      simp only [settle, List.filter_filter, Bool.and_self]
    simp only [hsettle]
    exact (settles_settle hentry _).removeWindow entry.windowId

/-- No two pending entries have one window. -/
def OneEach (b : Broker ρ) : Prop :=
  ∀ e ∈ b.pending.records, ∀ e' ∈ b.pending.records, ∀ windowId, e.windowId = some windowId →
    e'.windowId = some windowId → e = e'

theorem settles_onWindowRemoved (hone : b.OneEach) (windowId : ℤ) :
    Settles deps b (b.onWindowRemoved windowId) (fun e => e.windowId = some windowId) (.rejected none) := by
  rw [onWindowRemoved]
  split
  · rename_i entry hfind
    have hentry := List.mem_of_find?_eq_some hfind
    have hwindow : entry.windowId = some windowId := by simpa using List.find?_some hfind
    refine (settles_settle hentry _).congr fun e he => ⟨fun hid => ?_, fun h => ?_⟩
    · rw [b.pending.eq_of_key_eq he hentry hid]
      exact hwindow
    · rw [hone e he entry hentry windowId h hwindow]
  · rename_i hfind
    have hnone := List.find?_eq_none.mp hfind
    exact (Settles.refl b _).congr fun e he => ⟨False.elim, fun h => hnone e he (decide_eq_true h)⟩

end Broker

/-! ### What holds in every order of events -/

/-- The prompt asked about the request itself, or about a connect of the same origin that the request
joined. -/
def Made.AnsweredBy (m : Made) (prompt : Prompt) : Prop :=
  m.kind = prompt.kind ∧ (prompt.payload = omitRequesterTabId m.payload ∨
    m.kind = .connect ∧ prompt.payload.origin = m.payload.origin)

def PendingEntry.prompt (e : PendingEntry) : Prompt := ⟨e.id, e.kind, e.payload⟩

/-- The request that the entry was made for. -/
def Made.Opened (m : Made) (e : PendingEntry) : Prop :=
  m.deferred = e.deferred ∧ e.kind = m.kind ∧ e.payload = omitRequesterTabId m.payload ∧
    e.requesterTabId = m.payload.requesterTabId

/-- The broker is in order; a promise was given to requests that its prompt answers, and a window has
one prompt. -/
structure Ok (deps : Deps) (w : World ρ) : Prop where
  broker : w.broker.Ok deps
  made_lt : ∀ m ∈ w.made, m.deferred < w.broker.deferreds
  answered : ∀ e ∈ w.broker.pending.records, ∀ m ∈ w.made, m.deferred = e.deferred →
    m.AnsweredBy e.prompt
  opener : ∀ e ∈ w.broker.pending.records, ∃ m ∈ w.made, m.Opened e
  opened : ∀ e ∈ w.broker.pending.records, ∀ windowId, e.windowId = some windowId → windowId ∈ w.opened
  oneEach : w.broker.OneEach

variable {w w' : World ρ}

theorem ok_init : Ok deps (World.init : World ρ) where
  broker :=
    { id_eq := fun _ h => absurd h not_mem_nil
      lt := fun _ h => absurd h not_mem_nil
      armed := fun _ h => absurd h not_mem_nil
      once := .nil
      settled_lt := fun _ h => absurd h not_mem_nil
      not_settled := fun _ h => absurd h not_mem_nil
      covered := fun d hd => absurd hd (Nat.not_lt_zero d) }
  made_lt _ h := absurd h not_mem_nil
  answered _ h := absurd h not_mem_nil
  opener _ h := absurd h not_mem_nil
  opened _ h := absurd h not_mem_nil
  oneEach _ h := absurd h not_mem_nil

variable {b : Broker ρ}

/-- Settling takes prompts away and brings none. -/
theorem Ok.settles (h : Ok deps w) {gone : PendingEntry → Prop} {outcome : Outcome ρ}
    (hsettles : w.broker.Settles deps b gone outcome) (creating : List String) :
    Ok deps { w with broker := b, creating := creating } where
  broker := hsettles.ok h.broker
  made_lt m hm := hsettles.deferreds_eq ▸ h.made_lt m hm
  answered e he := h.answered e ((hsettles.mem_pending e).mp he).1
  opener e he := h.opener e ((hsettles.mem_pending e).mp he).1
  opened e he := h.opened e ((hsettles.mem_pending e).mp he).1
  oneEach e he e' he' := h.oneEach e ((hsettles.mem_pending e).mp he).1 e' ((hsettles.mem_pending e').mp he').1

theorem Ok.creating (h : Ok deps w) (creating : List String) : Ok deps { w with creating := creating } :=
  h.settles (Broker.Settles.refl w.broker (.rejected none)) creating

/-! ### New requests -/

/-- A new request has an id that no pending one has. -/
theorem Broker.Ok.fresh (h : b.Ok deps) (hfresh : Function.Injective deps.newId) :
    ∀ e ∈ b.pending.records, e.id ≠ deps.newId b.deferreds := by
  intro e he hid
  have heq : e.deferred = b.deferreds := hfresh ((h.id_eq e he).symm.trans hid)
  exact absurd (h.lt e he) (heq ▸ lt_irrefl _)

theorem mem_park {kind : Kind} {payload : Payload}
    (hnew : ∀ e ∈ b.pending.records, e.id ≠ deps.newId b.deferreds) {e : PendingEntry} :
    e ∈ (b.park (b.newEntry deps kind payload)).pending.records ↔
      e = b.newEntry deps kind payload ∨ e ∈ b.pending.records := by
  refine Keyed.Table.mem_put.trans (or_congr_right ⟨And.left, fun he => ⟨he, hnew e he⟩⟩)

theorem Broker.Ok.park (h : b.Ok deps) (hfresh : Function.Injective deps.newId) (kind : Kind)
    (payload : Payload) : (b.park (b.newEntry deps kind payload)).Ok deps where
  id_eq e he := by
    rcases (mem_park (h.fresh hfresh)).mp he with rfl | he
    · rfl
    · exact h.id_eq e he
  lt e he := by
    rcases (mem_park (h.fresh hfresh)).mp he with rfl | he
    · exact Nat.lt_succ_self _
    · exact Nat.lt_succ_of_lt (h.lt e he)
  armed e he := by
    rcases (mem_park (h.fresh hfresh)).mp he with rfl | he
    · exact (.head _)
    · exact List.mem_cons_of_mem _ (h.armed e he)
  once := h.once
  settled_lt d hd := Nat.lt_succ_of_lt (h.settled_lt d hd)
  not_settled e he hd := by
    rcases (mem_park (h.fresh hfresh)).mp he with rfl | he
    · exact absurd (h.settled_lt _ hd) (lt_irrefl _)
    · exact h.not_settled e he hd
  covered d hd := by
    rcases Nat.lt_succ_iff_lt_or_eq.mp hd with hd | rfl
    · rcases h.covered d hd with ⟨e, he, rfl⟩ | hd
      · exact .inl ⟨e, (mem_park (h.fresh hfresh)).mpr (.inr he), rfl⟩
      · exact .inr hd
    · exact .inl ⟨_, (mem_park (h.fresh hfresh)).mpr (.inl rfl), rfl⟩

theorem Ok.park (h : Ok deps w) (hfresh : Function.Injective deps.newId) (kind : Kind) (payload : Payload) :
    Ok deps { w with
      broker := w.broker.park (w.broker.newEntry deps kind payload)
      made := ⟨kind, payload, w.broker.deferreds⟩ :: w.made } where
  broker := h.broker.park hfresh kind payload
  made_lt m hm := by
    rcases mem_cons.mp hm with rfl | hm
    · exact Nat.lt_succ_self _
    · exact Nat.lt_succ_of_lt (h.made_lt m hm)
  answered e he m hm heq := by
    rcases (mem_park (h.broker.fresh hfresh)).mp he with rfl | he <;> rcases mem_cons.mp hm with rfl | hm
    · exact ⟨rfl, .inl rfl⟩
    · exact absurd (h.made_lt m hm) (heq ▸ lt_irrefl _)
    · exact absurd (h.broker.lt e he) (heq ▸ lt_irrefl _)
    · exact h.answered e he m hm heq
  opener e he := by
    rcases (mem_park (h.broker.fresh hfresh)).mp he with rfl | he
    · exact ⟨_, (.head _), rfl, rfl, rfl, rfl⟩
    · obtain ⟨m, hm, hopened⟩ := h.opener e he
      exact ⟨m, List.mem_cons_of_mem _ hm, hopened⟩
  opened e he windowId hwindow := by
    rcases (mem_park (h.broker.fresh hfresh)).mp he with rfl | he
    · exact absurd hwindow (by rintro ⟨⟩)
    · exact h.opened e he windowId hwindow
  oneEach e he e' he' windowId hwindow hwindow' := by
    -- A new entry has no window yet.
    rcases (mem_park (h.broker.fresh hfresh)).mp he with rfl | he
    · exact absurd hwindow (by rintro ⟨⟩)
    · rcases (mem_park (h.broker.fresh hfresh)).mp he' with rfl | he'
      · exact absurd hwindow' (by rintro ⟨⟩)
      · exact h.oneEach e he e' he' windowId hwindow hwindow'

theorem Ok.ask (h : Ok deps w) (hfresh : Function.Injective deps.newId) (kind : Kind) (payload : Payload) :
    Ok deps (w.ask deps kind payload) := by
  have hpark := h.park hfresh kind payload
  rw [World.ask, Broker.request]
  by_cases hcreate : deps.canCreate = true
  · rw [if_pos hcreate, if_pos hcreate]
    exact hpark.creating _
  · rw [if_neg hcreate, if_neg hcreate]
    have hmem := (mem_park (h.broker.fresh hfresh)).mpr
      (.inl (rfl : w.broker.newEntry deps kind payload = w.broker.newEntry deps kind payload))
    exact hpark.settles (Broker.settles_settle hmem _) w.creating

theorem pendingConnect_eq_some {payload : Payload} {entry : PendingEntry}
    (h : b.pendingConnect payload = some entry) :
    entry ∈ b.pending.records ∧ entry.kind = .connect ∧ entry.payload.origin = payload.origin := by
  rw [Broker.pendingConnect] at h
  rcases horigin : payload.origin with - | origin
  · rw [horigin] at h
    exact absurd h (by rintro ⟨⟩)
  · simp only [horigin] at h
    by_cases hempty : origin = ""
    · rw [if_pos hempty] at h
      exact absurd h (by rintro ⟨⟩)
    · rw [if_neg hempty] at h
      have hconnect : entry.kind = .connect ∧ entry.payload.origin = some origin := by
        simpa using List.find?_some h
      exact ⟨List.mem_of_find?_eq_some h, hconnect⟩

theorem Ok.connect (h : Ok deps w) (hfresh : Function.Injective deps.newId) (payload : Payload) :
    Ok deps (w.connect deps payload) := by
  rw [World.connect]
  rcases hjoin : w.broker.pendingConnect payload with - | entry
  · exact h.ask hfresh .connect payload
  · obtain ⟨hentry, hkind, horigin⟩ := pendingConnect_eq_some hjoin
    refine { h with
      made_lt := fun m hm => ?_
      answered := fun e he m hm heq => ?_
      opener := fun e he => ?_ }
    · rcases mem_cons.mp hm with rfl | hm
      · exact h.broker.lt entry hentry
      · exact h.made_lt m hm
    · rcases mem_cons.mp hm with rfl | hm
      · -- The entry that the connect joined is the only one with its promise.
        have hid : e.id = entry.id := by
          rw [h.broker.id_eq e he, h.broker.id_eq entry hentry, ← heq]
        obtain rfl := w.broker.pending.eq_of_key_eq he hentry hid
        exact ⟨hkind.symm, .inr ⟨rfl, horigin⟩⟩
      · exact h.answered e he m hm heq
    · obtain ⟨m, hm, hopened⟩ := h.opener e he
      exact ⟨m, List.mem_cons_of_mem _ hm, hopened⟩

/-! ### Windows -/

theorem Ok.windowCreated (h : Ok deps w) (id : String) {windowId : Option ℤ}
    (hnew : ∀ opened ∈ w.opened, windowId ≠ some opened) (creating : List String) :
    Ok deps { w with
      broker := w.broker.windowCreated id windowId
      creating := creating
      opened := windowId.toList ++ w.opened } := by
  rw [Broker.windowCreated]
  rcases hget : w.broker.pending.get id with - | current
  · have hsettles := (Broker.Settles.refl w.broker (.rejected none) :
      Broker.Settles deps w.broker w.broker (fun _ => False) _).removeWindow windowId
    have hok := h.settles hsettles creating
    exact { hok with opened := fun e he win hwin => List.mem_append_right _ (hok.opened e he win hwin) }
  · obtain ⟨hcurrent, -⟩ := w.broker.pending.get_eq_some.mp hget
    have hmem : ∀ e, e ∈ (w.broker.pending.put { current with windowId := windowId }).records ↔
        e = { current with windowId := windowId } ∨ e ∈ w.broker.pending.records ∧ e.id ≠ current.id :=
      fun e => Keyed.Table.mem_put
    have hb := h.broker
    have hall : ∀ {P : PendingEntry → Prop}, (∀ e ∈ w.broker.pending.records, P e) →
        P { current with windowId := windowId } →
          ∀ e ∈ (w.broker.pending.put { current with windowId := windowId }).records, P e := by
      intro P hold hnew e he
      rcases (hmem e).mp he with rfl | ⟨he, -⟩
      · exact hnew
      · exact hold e he
    refine ⟨⟨hall hb.id_eq (hb.id_eq current hcurrent), hall hb.lt (hb.lt current hcurrent),
      hall hb.armed (hb.armed current hcurrent), hb.once, hb.settled_lt,
      hall hb.not_settled (hb.not_settled current hcurrent), fun d hd => ?_⟩, h.made_lt,
      hall h.answered (h.answered current hcurrent), hall h.opener (h.opener current hcurrent),
      fun e he win hwin => ?_, fun e he e' he' win hwin hwin' => ?_⟩
    · rcases hb.covered d hd with ⟨e, he, rfl⟩ | hd
      · by_cases hid : e.id = current.id
        · rw [w.broker.pending.eq_of_key_eq he hcurrent hid]
          exact .inl ⟨_, (hmem _).mpr (.inl rfl), rfl⟩
        · exact .inl ⟨e, (hmem e).mpr (.inr ⟨he, hid⟩), rfl⟩
      · exact .inr hd
    · rcases (hmem e).mp he with rfl | ⟨he, -⟩
      · exact List.mem_append_left _ (Option.mem_toList.mpr hwin)
      · exact List.mem_append_right _ (h.opened e he win hwin)
    · -- The id of the new window is none that another entry has.
      rcases (hmem e).mp he with rfl | ⟨he, -⟩ <;> rcases (hmem e').mp he' with rfl | ⟨he', -⟩
      · rfl
      · exact absurd hwin (hnew win (h.opened e' he' win hwin'))
      · exact absurd hwin' (hnew win (h.opened e he win hwin))
      · exact h.oneEach e he e' he' win hwin hwin'

/-! ### Any event -/

/-- The event takes the entry out of the table. -/
def Event.Closes : Event ρ → PendingEntry → Prop
  | .connect _, _ | .request _ _, _ | .windowCreated _ _, _ => False
  | .windowFailed id _, e | .resolve id _, e | .timeout id, e => e.id = id
  | .windowRemoved windowId, e => e.windowId = some windowId
  | .tabRemoved tabId, e => e.requesterTabId = some tabId
  | .cancelAll _, _ => True
  | .cancelOriginsMatching matching, e => matching e.payload.origin = true

/-- What an event settles promises with. -/
def Event.outcome : Event ρ → Outcome ρ
  | .windowFailed _ message => .failed message
  | .resolve _ result => .result result
  | .cancelAll reason => .rejected (reason.filter (· ≠ ""))
  | _ => .rejected none

variable {event : Event ρ}

/-- Only an answer settles a promise with a result. -/
theorem Event.eq_resolve {result : ρ} (h : event.outcome = .result result) :
    ∃ id, event = .resolve id result := by
  cases event with
  | resolve id answer => exact ⟨id, by rw [Outcome.result.inj h]⟩
  | _ => exact absurd h (by simp [Event.outcome])

/-- What is settled by a step: the promises of the entries that it closes, and a new request's where no
window can be created. -/
structure Steps (w : World ρ) (event : Event ρ) (w' : World ρ) : Prop where
  settled : ∀ x ∈ w.broker.settled, x ∈ w'.broker.settled
  closed : ∀ e ∈ w.broker.pending.records, event.Closes e →
    (e.deferred, event.outcome) ∈ w'.broker.settled
  newly : ∀ x ∈ w'.broker.settled, x ∈ w.broker.settled ∨
    (∃ e ∈ w.broker.pending.records, event.Closes e ∧ x = (e.deferred, event.outcome)) ∨
    ∃ message, x.2 = .failed message

theorem Broker.Settles.steps (h : w.broker.Settles deps b event.Closes event.outcome)
    (creating : List String) :
    Steps w event { w with broker := b, creating := creating } where
  settled x hx := (h.mem_settled x).mpr (.inl hx)
  closed e he hcloses := (h.mem_settled _).mpr (.inr ⟨e, he, hcloses, rfl⟩)
  newly x hx := ((h.mem_settled x).mp hx).imp_right .inl

/-- A step that settles no promise. -/
theorem Steps.of_settled_eq (hnone : ∀ e, ¬ event.Closes e)
    (hsettled : w'.broker.settled = w.broker.settled) : Steps w event w' where
  settled _ hx := hsettled ▸ hx
  closed e _ hcloses := absurd hcloses (hnone e)
  newly _ hx := .inl (hsettled ▸ hx)

theorem steps_ask (hnone : ∀ e, ¬ event.Closes e) (kind : Kind) (payload : Payload) :
    Steps w event (w.ask deps kind payload) := by
  rw [World.ask, Broker.request]
  by_cases hcreate : deps.canCreate = true
  · rw [if_pos hcreate]
    exact .of_settled_eq hnone rfl
  · rw [if_neg hcreate]
    refine ⟨fun x hx => .tail _ hx, fun e _ hcloses => absurd hcloses (hnone e), ?_⟩
    rintro x hx
    rcases mem_cons.mp hx with rfl | hx
    · exact .inr (.inr ⟨_, rfl⟩)
    · exact .inl hx

/-- **One event.** -/
theorem Ok.step (h : Ok deps w) (hfresh : Function.Injective deps.newId)
    (hstep : step deps w event = some w') : Ok deps w' ∧ Steps w event w' := by
  have hsettles : ∀ {b : Broker ρ} {creating : List String},
      w.broker.Settles deps b event.Closes event.outcome → w' = { w with broker := b, creating := creating } →
        Ok deps w' ∧ Steps w event w' := by
    rintro b creating hb rfl
    exact ⟨h.settles hb creating, hb.steps creating⟩
  rcases event with payload | ⟨kind, payload⟩ | ⟨id, windowId⟩ | ⟨id, message⟩ | windowId | tabId |
    ⟨id, result⟩ | reason | matching | id
  · obtain ⟨⟩ := hstep
    have hnone : ∀ e, ¬ (Event.connect payload : Event ρ).Closes e := fun _ h => h
    refine ⟨h.connect hfresh payload, ?_⟩
    rw [World.connect]
    rcases w.broker.pendingConnect payload with - | entry
    · exact steps_ask hnone .connect payload
    · exact .of_settled_eq hnone rfl
  · obtain ⟨-, hstep⟩ := Option.ite_none_left_eq_some.mp hstep
    obtain ⟨⟩ := hstep
    have hnone : ∀ e, ¬ (Event.request kind payload : Event ρ).Closes e := fun _ h => h
    exact ⟨h.ask hfresh kind payload, steps_ask hnone kind payload⟩
  · obtain ⟨⟨-, hnew⟩, hstep⟩ := Option.ite_none_right_eq_some.mp hstep
    obtain ⟨⟩ := hstep
    have hnone : ∀ e, ¬ (Event.windowCreated id windowId : Event ρ).Closes e := fun _ h => h
    refine ⟨h.windowCreated id hnew _, .of_settled_eq hnone ?_⟩
    rw [Broker.windowCreated]
    rcases w.broker.pending.get id with - | current <;> rfl
  · obtain ⟨-, hstep⟩ := Option.ite_none_right_eq_some.mp hstep
    exact hsettles (Broker.settles_windowFailed id message) (Option.some.inj hstep).symm
  · exact hsettles (Broker.settles_onWindowRemoved h.oneEach windowId) (Option.some.inj hstep).symm
  · exact hsettles (Broker.settles_onTabRemoved tabId) (Option.some.inj hstep).symm
  · exact hsettles (Broker.settles_resolve id result) (Option.some.inj hstep).symm
  · have hall : Broker.Settles deps w.broker _ _ _ :=
      Broker.settles_cancelEntries (b := w.broker) (p := fun _ => True) (reason.filter (· ≠ ""))
    rw [List.filter_eq_self.mpr fun _ _ => decide_eq_true trivial] at hall
    exact hsettles hall (Option.some.inj hstep).symm
  · have hmatching : Broker.Settles deps w.broker _ _ _ := Broker.settles_cancelEntries (b := w.broker)
      (p := fun e => matching e.payload.origin = true) none
    simp only [Bool.decide_eq_true] at hmatching
    exact hsettles hmatching (Option.some.inj hstep).symm
  · obtain ⟨-, hstep⟩ := Option.ite_none_right_eq_some.mp hstep
    exact hsettles (Broker.settles_timeout id) (Option.some.inj hstep).symm

/-! ### Runs -/

def Run (deps : Deps) : World ρ → List (Event ρ) → Option (World ρ) := Transition.run (step deps)

theorem Ok.run (h : Ok deps w) (hfresh : Function.Injective deps.newId) {events : List (Event ρ)}
    (hrun : Run deps w events = some w') :
    Ok deps w' ∧ ∀ x ∈ w.broker.settled, x ∈ w'.broker.settled := by
  induction events generalizing w with
  | nil =>
    obtain ⟨⟩ := hrun
    exact ⟨h, fun x hx => hx⟩
  | cons event rest ih =>
    obtain ⟨middle, hstep, hrest⟩ := Transition.run_cons_eq_some.mp hrun
    obtain ⟨hmiddle, hsteps⟩ := h.step hfresh hstep
    obtain ⟨hok, hkeep⟩ := ih hmiddle hrest
    exact ⟨hok, fun x hx => hkeep x (hsteps.settled x hx)⟩

/-- The promise waits: it has one entry, with its timer armed, and was not settled. -/
def World.Waits (w : World ρ) (deferred : ℕ) : Prop :=
  (∃ e ∈ w.broker.pending.records, e.deferred = deferred ∧ e.id ∈ w.broker.timers ∧
      ∃ m ∈ w.made, m.Opened e) ∧
    ∀ outcome, (deferred, outcome) ∉ w.broker.settled

/-- The promise was settled with `outcome` and nothing else, and has no entry any more. -/
def World.SettledWith (w : World ρ) (deferred : ℕ) (outcome : Outcome ρ) : Prop :=
  (∀ e ∈ w.broker.pending.records, e.deferred ≠ deferred) ∧
    (∀ o, (deferred, o) ∈ w.broker.settled ↔ o = outcome) ∧ w.broker.settledIds.count deferred = 1

theorem Ok.settledWith (h : Ok deps w) {deferred : ℕ} {outcome : Outcome ρ}
    (hmem : (deferred, outcome) ∈ w.broker.settled) : w.SettledWith deferred outcome := by
  have hid : deferred ∈ w.broker.settledIds := List.mem_map_of_mem hmem
  refine ⟨fun e he heq => ?_, fun o => ⟨fun ho => ?_, fun ho => ho ▸ hmem⟩, ?_⟩
  · exact h.broker.not_settled e he (heq ▸ hid)
  · exact congrArg Prod.snd (List.inj_on_of_nodup_map h.broker.once ho hmem rfl)
  · exact List.count_eq_one_of_mem h.broker.once hid

/-- **Each approval is settled once, by an answer to its prompt or by a rejection.** In every order of
events each request waits, with its timer armed, or was settled once. An answer settles the promise
under the prompt that was shown, which is the request's own or that of a connect of its origin. An
event that closes an entry settles its promise, and no later event settles it again. -/
theorem approval_settled_once (deps : Deps) (hfresh : Function.Injective deps.newId)
    (events : List (Event ρ)) (w : World ρ) (hrun : Run deps World.init events = some w) :
    (∀ m ∈ w.made, w.Waits m.deferred ∨ ∃ outcome, w.SettledWith m.deferred outcome) ∧
      ∀ event w', step deps w event = some w' →
        (∀ d result, (d, .result result) ∈ w'.broker.settled →
          (d, .result result) ∈ w.broker.settled ∨
            ∃ id prompt, event = .resolve id result ∧ w.broker.fetch id = some prompt ∧
              ∀ m ∈ w.made, m.deferred = d → m.AnsweredBy prompt) ∧
        ∀ e ∈ w.broker.pending.records, event.Closes e →
          ∀ later w'', Run deps w' later = some w'' → w''.SettledWith e.deferred event.outcome := by
  have hok := (ok_init.run hfresh hrun).1
  refine ⟨fun m hm => ?_, fun event w' hstep => ⟨fun d result hd => ?_, fun e he hcloses later w'' hlater => ?_⟩⟩
  · rcases hok.broker.covered m.deferred (hok.made_lt m hm) with ⟨e, he, heq⟩ | hsettled
    · refine .inl ⟨⟨e, he, heq, hok.broker.armed e he, hok.opener e he⟩, fun outcome ho => ?_⟩
      exact hok.broker.not_settled e he (heq ▸ List.mem_map_of_mem ho)
    · obtain ⟨⟨_, outcome⟩, hmem, rfl⟩ := List.mem_map.mp hsettled
      exact .inr ⟨outcome, hok.settledWith hmem⟩
  · obtain ⟨-, hsteps⟩ := hok.step hfresh hstep
    rcases hsteps.newly _ hd with hold | ⟨e, he, hcloses, heq⟩ | ⟨message, hfailed⟩
    · exact .inl hold
    · right
      obtain ⟨rfl, houtcome⟩ := Prod.mk.inj heq
      obtain ⟨id, rfl⟩ := Event.eq_resolve houtcome.symm
      refine ⟨id, e.prompt, rfl, ?_, fun m hm hm' => hok.answered e he m hm hm'⟩
      rw [Broker.fetch, w.broker.pending.get_eq_some.mpr ⟨he, hcloses⟩]
      rfl
    · exact absurd hfailed (by rintro ⟨⟩)
  · obtain ⟨hok', hsteps⟩ := hok.step hfresh hstep
    obtain ⟨hok'', hkeep⟩ := hok'.run hfresh hlater
    exact hok''.settledWith (hkeep _ (hsteps.closed e he hcloses))

private def lettered : Deps := ⟨fun n => String.ofList (List.replicate (n + 1) 'a'), true⟩

private theorem lettered_injective : Function.Injective lettered.newId := by
  intro m n h
  have hlength := congrArg String.length h
  simpa [lettered] using hlength

private def asked : List (Event Bool) :=
  [.request .signAction ⟨some "o", some 7, .null⟩, .windowCreated "a" (some 1)]

/-- A window that is closed without an answer. -/
theorem approval_settled_once_closed :
    ∃ w w' : World Bool, Run lettered World.init asked = some w ∧
      step lettered w (.windowRemoved 1) = some w' ∧ w'.SettledWith 0 (.rejected none) := by
  refine ⟨_, _, rfl, rfl, ?_⟩
  have hclosed := ((approval_settled_once lettered lettered_injective asked _ rfl).2
    (.windowRemoved 1) _ rfl).2
  exact hclosed ⟨"a", .signAction, ⟨some "o", none, .null⟩, 0, some 1, some 7⟩ List.mem_cons_self rfl
    [] _ rfl

private def first : Payload := ⟨some "o", some 1, .bool true⟩

private def second : Payload := ⟨some "o", some 2, .bool false⟩

private def joined : List (Event Bool) := [.connect first, .connect second]

private def shown : PendingEntry := ⟨"a", .connect, omitRequesterTabId first, 0, none, some 1⟩

/-- Neither is a result always that of a decision about the request's own payload, nor is a request always
rejected when the tab that it came from is closed: a connect that joined another is not. -/
theorem not_settled_by_own :
    (¬ ∀ (events : List (Event Bool)) (w w' : World Bool) (m : Made) (id : String) (result : Bool)
        (prompt : Prompt), Run lettered World.init events = some w → m ∈ w.made →
        (m.deferred, .result result) ∉ w.broker.settled → w.broker.fetch id = some prompt →
        step lettered w (.resolve id result) = some w' → (m.deferred, .result result) ∈ w'.broker.settled →
        prompt.payload = omitRequesterTabId m.payload) ∧
      ¬ ∀ (events : List (Event Bool)) (w w' : World Bool) (m : Made) (tabId : ℤ),
        Run lettered World.init events = some w → m ∈ w.made → w.Waits m.deferred →
        m.payload.requesterTabId = some tabId → step lettered w (.tabRemoved tabId) = some w' →
        ∃ reason, w'.SettledWith m.deferred (.rejected reason) := by
  constructor
  · intro hown
    have heq := hown joined _ _ ⟨.connect, second, 0⟩ "a" true _ rfl
      List.mem_cons_self List.not_mem_nil rfl rfl List.mem_cons_self
    have hbody : Json.Value.bool true = .bool false := congrArg Payload.body heq
    exact absurd hbody (by rintro ⟨⟩)
  · intro hclosed
    obtain ⟨reason, hnone, -⟩ := hclosed joined _ _ ⟨.connect, second, 0⟩ 2 rfl List.mem_cons_self
      ⟨⟨shown, List.mem_cons_self, rfl, List.mem_cons_self, ⟨.connect, first, 0⟩,
        List.mem_cons_of_mem _ List.mem_cons_self, rfl, rfl, rfl, rfl⟩, fun _ => List.not_mem_nil⟩ rfl rfl
    exact hnone shown List.mem_cons_self rfl

end XchainWallet.Approvals
