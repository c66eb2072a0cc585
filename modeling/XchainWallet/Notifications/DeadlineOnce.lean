import XchainWallet.Notifications.DeadlineWatcher

/-!
# Each deadline announced once

An item that stays near is delivered once as long as what the watcher remembers covers what it has
delivered. A tick forgets what its reads do not show, so it is a failed read that makes it deliver
again; a stop forgets what is not stored yet; and a tick that begins after a stop, in a poll from
before it, takes the new generation for its own and delivers. `deadlines_once_and_quiet` says that
nothing else goes wrong.
-/

namespace XchainWallet

open Transition DeadlineWorld
open Option (bind_eq_some_iff map_some)
open List (append_nil mem_append mem_filter mem_map)

/-- **Once and quiet**: no item has been delivered twice while it stayed near, and no poll has
delivered after a stop. -/
def OnceAndQuiet (w : DeadlineWorld) : Prop := w.delivered.Nodup ∧ w.late = false

/-- The tick whose reads are under way, with the items that have stayed near during it. -/
def DeadlineWorld.reading (w : DeadlineWorld) : Option (ChainTick × List NearItem) :=
  w.poll.bind fun poll =>
    match poll.phase with
    | .reading tick stayed => some (tick, stayed)
    | _ => none

/-- What the explorer answers of the items that have stayed near is true. -/
def TruthfulStep (setup : DeadlineSetup) (w : DeadlineWorld) : DeadlineAct → Prop
  | .collect answers => ∀ r ∈ w.reading, ∀ item ∈ r.2, answers.Shows setup r.1.chainId item
  | _ => True

/-- **Nothing delivered is lost sight of**: no read fails that shows a delivered item, and its terms
do not move while its chain is read; a tick begins in the generation of its poll; a stop finds every
delivery stored, and the stored keys are read back. -/
def CarefulStep (setup : DeadlineSetup) (w : DeadlineWorld) : DeadlineAct → Prop
  | .collect answers => ∀ r ∈ w.reading, ∀ item ∈ r.2, (r.1.chainId, item.key) ∈ w.delivered →
      answers.Answers setup r.1.chainId r.1.addrs item
  | .become near => ∀ r ∈ w.reading, ∀ item ∈ r.2, (r.1.chainId, item.key) ∈ w.delivered →
      item.key ∈ nearKeys near r.1.chainId → item ∈ near r.1.chainId
  | .next _ => ∀ poll ∈ w.poll, poll.pending ≠ [] → poll.generation = w.generation
  | .stop => ∀ d ∈ w.delivered, d.2 ∈ w.stored.at d.1
  | .loaded ok => ok = true ∨ w.delivered = []
  | _ => True

instance (setup : DeadlineSetup) (w : DeadlineWorld) (a : DeadlineAct) :
    Decidable (TruthfulStep setup w a) := by
  cases a <;> unfold TruthfulStep <;> infer_instance

instance (setup : DeadlineSetup) (w : DeadlineWorld) (a : DeadlineAct) :
    Decidable (CarefulStep setup w a) := by
  cases a <;> unfold CarefulStep <;> infer_instance

/-! ### What is remembered -/

namespace DeadlineWorld

/-- The keys that keep an item of a chain from being announced again: the announced ones and those
of a notification under way, or the stored ones while these are still to be read. -/
def remembered (w : DeadlineWorld) (chainId : String) : List DeadlineKey :=
  match w.poll.map DeadlinePoll.phase with
  | some .loading => w.stored.at chainId
  | some (.posting tick keys true _) =>
    if w.seenLoaded then w.seen.at chainId ++ (if tick.chainId = chainId then keys else [])
    else w.stored.at chainId
  | _ => if w.seenLoaded then w.seen.at chainId else w.stored.at chainId

/-- The announced keys once they are loaded, and the stored ones before. -/
def known (w : DeadlineWorld) (chainId : String) : List DeadlineKey :=
  if w.seenLoaded then w.seen.at chainId else w.stored.at chainId

variable {w : DeadlineWorld}

theorem remembered_idle (h : w.poll = none) : w.remembered = w.known := by
  funext chainId
  rw [remembered, h]
  rfl

/-- A phase that neither loads nor waits for a notification. -/
theorem remembered_of_phase {poll : DeadlinePoll} (h : w.poll = some poll)
    (hloading : poll.phase ≠ .loading)
    (hposting : ∀ tick keys rest, poll.phase ≠ .posting tick keys true rest) :
    w.remembered = w.known := by
  funext chainId
  rw [remembered, h, map_some]
  split
  · rename_i hphase
    exact absurd (Option.some.inj hphase) hloading
  · rename_i tick keys rest hphase
    exact absurd (Option.some.inj hphase) (hposting tick keys rest)
  · rfl

/-- During a notification its keys are remembered, if it is delivered. -/
theorem remembered_posting {poll : DeadlinePoll} (h : w.poll = some poll) {tick : ChainTick}
    {keys : List DeadlineKey} {accepted : Bool} {rest : List Deadline}
    (hphase : poll.phase = .posting tick keys accepted rest) (chainId : String) :
    w.remembered chainId = if w.seenLoaded then
        w.seen.at chainId ++ (if accepted = true ∧ tick.chainId = chainId then keys else [])
      else w.stored.at chainId := by
  rw [remembered, h, map_some, hphase]
  cases accepted with
  | true => simp only [true_and]
  | false => simp only [Bool.false_eq_true, false_and, if_false, append_nil]

theorem reading_of_phase {poll : DeadlinePoll} (h : w.poll = some poll) {tick : ChainTick}
    {stayed : List NearItem} (hphase : poll.phase = .reading tick stayed) :
    w.reading = some (tick, stayed) := by
  rw [reading, h, Option.bind_some, hphase]

theorem known_of_loaded (h : w.seenLoaded = true) : w.known = w.seen.at := by
  funext chainId
  rw [known, if_pos h]

theorem known_of_not_loaded (h : w.seenLoaded = false) : w.known = w.stored.at := by
  funext chainId
  rw [known, h, if_neg Bool.false_ne_true]

end DeadlineWorld

/-! ### The invariant -/

/-- A tick belongs to the generation of its poll, and the announced keys are loaded as long as that
lasts. -/
def TickOk (w : DeadlineWorld) (poll : DeadlinePoll) (tick : ChainTick) : Prop :=
  tick.generation = poll.generation ∧ (tick.generation = w.generation ↔ w.seenLoaded = true)

/-- What is still to be announced has not been delivered, and there is room to record it. -/
structure FreshOk (w : DeadlineWorld) (tick : ChainTick) (taken : ℕ) (fresh : List Deadline) :
    Prop where
  nodup : (fresh.map Deadline.key).Nodup
  undelivered : tick.generation = w.generation →
    ∀ key ∈ fresh.map Deadline.key, (tick.chainId, key) ∉ w.delivered
  room : tick.generation = w.generation → 0 < taken + fresh.length →
    (w.seen.at tick.chainId).length + taken + fresh.length ≤ SEEN_CAP_PER_CHAIN

/-- What holds in each phase of a poll. -/
def PhaseOk (w : DeadlineWorld) (poll : DeadlinePoll) : PollPhase → Prop
  | .settings | .addresses => True
  | .loading | .between => poll.generation = w.generation → w.seenLoaded = true
  | .reading tick stayed => TickOk w poll tick ∧
      ∀ key, (tick.chainId, key) ∈ w.delivered → key ∈ stayed.map NearItem.key
  | .notifying tick fresh => TickOk w poll tick ∧ FreshOk w tick 0 fresh
  | .posting tick keys _ rest => TickOk w poll tick ∧ FreshOk w tick keys.length rest
  | .saving out => ∀ d ∈ w.delivered, d.2 ∈ out.at d.1

/-- **The watcher remembers what it has delivered.** -/
structure Watchful (w : DeadlineWorld) : Prop where
  quiet : w.late = false
  once : w.delivered.Nodup
  near : ∀ d ∈ w.delivered, d.2 ∈ nearKeys w.near d.1
  remembered : ∀ d ∈ w.delivered, d.2 ∈ w.remembered d.1
  generation : ∀ poll ∈ w.poll, poll.generation ≤ w.generation
  phase : ∀ poll ∈ w.poll, PhaseOk w poll poll.phase

/-! ### Sets of keys -/

theorem at_set_self (seen : SeenKeys) (chainId : String) (keys : List DeadlineKey) :
    (seen.set chainId keys).at chainId = keys := by
  rw [SeenKeys.at, SeenKeys.set, Function.update_self, Option.getD_some]

theorem at_set_of_ne {chainId other : String} (h : other ≠ chainId) (seen : SeenKeys)
    (keys : List DeadlineKey) : (seen.set chainId keys).at other = seen.at other := by
  rw [SeenKeys.at, SeenKeys.set, Function.update_of_ne h, SeenKeys.at]

theorem subset_recordKeys (seen keys : List DeadlineKey) : seen ⊆ recordKeys seen keys := by
  induction keys generalizing seen with
  | nil => exact List.Subset.refl seen
  | cons key keys ih =>
    rw [recordKeys, List.foldl_cons]
    split
    · exact ih seen
    · exact List.Subset.trans (List.subset_append_left seen [key]) (ih _)

/-- Where there is room, all keys are recorded. -/
theorem keys_subset_recordKeys {seen keys : List DeadlineKey}
    (h : seen.length + keys.length ≤ SEEN_CAP_PER_CHAIN) : keys ⊆ recordKeys seen keys := by
  induction keys generalizing seen with
  | nil => exact List.nil_subset _
  | cons key keys ih =>
    rw [List.length_cons] at h
    rw [recordKeys, List.foldl_cons]
    split
    · rename_i hkept
      have hmem : key ∈ seen := by
        rcases hkept with hfull | hmem
        · omega
        · exact hmem
      exact List.cons_subset.mpr ⟨subset_recordKeys seen keys hmem, ih (by omega)⟩
    · have hlength : (seen ++ [key]).length + keys.length ≤ SEEN_CAP_PER_CHAIN := by
        rw [List.length_append, List.length_singleton]
        omega
      exact List.cons_subset.mpr
        ⟨subset_recordKeys _ keys (List.mem_append_right _ List.mem_cons_self), ih hlength⟩

/-- At most one place is taken for each key. -/
theorem length_recordKeys_le (seen keys : List DeadlineKey) :
    (recordKeys seen keys).length ≤ seen.length + keys.length := by
  induction keys generalizing seen with
  | nil => exact Nat.le_refl _
  | cons key keys ih =>
    rw [recordKeys, List.foldl_cons, List.length_cons]
    split
    · exact (ih seen).trans (by omega)
    · refine (ih (seen ++ [key])).trans ?_
      rw [List.length_append, List.length_singleton]
      omega

/-! ### What is fresh -/

theorem freshDeadlines_sublist_perm (due : List Deadline) (seen : List DeadlineKey) :
    ∃ sorted, sorted.Perm (due.filter fun d => d.key ∉ seen) ∧
      (freshDeadlines due seen).Sublist sorted :=
  ⟨_, List.mergeSort_perm _ _, List.take_sublist _ _⟩

theorem mem_freshDeadlines {due : List Deadline} {seen : List DeadlineKey} {d : Deadline}
    (h : d ∈ freshDeadlines due seen) : d ∈ due ∧ d.key ∉ seen := by
  obtain ⟨sorted, hperm, hsub⟩ := freshDeadlines_sublist_perm due seen
  have hmem := mem_filter.mp (hperm.mem_iff.mp (hsub.subset h))
  exact ⟨hmem.1, of_decide_eq_true hmem.2⟩

theorem nodup_freshDeadlines {due : List Deadline} (h : (due.map Deadline.key).Nodup)
    (seen : List DeadlineKey) : ((freshDeadlines due seen).map Deadline.key).Nodup := by
  obtain ⟨sorted, hperm, hsub⟩ := freshDeadlines_sublist_perm due seen
  have hsorted : (sorted.map Deadline.key).Nodup :=
    (hperm.map Deadline.key).nodup_iff.mpr (h.sublist (List.filter_sublist.map _))
  exact hsorted.sublist (hsub.map _)

theorem length_freshDeadlines_le (due : List Deadline) (seen : List DeadlineKey) :
    (freshDeadlines due seen).length ≤ SEEN_CAP_PER_CHAIN - seen.length := by
  rw [freshDeadlines, List.length_take]
  exact Nat.min_le_left _ _

/-- A notification is about the front of what is fresh. -/
theorem nextNotification_append (fresh : List Deadline) :
    (nextNotification fresh).1 ++ (nextNotification fresh).2 = fresh := by
  rw [nextNotification]
  split
  · exact append_nil fresh
  · rw [List.splitAt_eq]
    exact List.take_append_drop 1 fresh

/-! ### Steps -/

section Steps

variable {setup : DeadlineSetup} {w : DeadlineWorld}

variable {tick : ChainTick}

/-- What is still to be announced stays so where less has been delivered. -/
theorem FreshOk.mono {w' : DeadlineWorld} {taken : ℕ} {fresh : List Deadline}
    (h : FreshOk w tick taken fresh) (hgeneration : w'.generation = w.generation)
    (hseen : w'.seen = w.seen) (hdelivered : w'.delivered ⊆ w.delivered) :
    FreshOk w' tick taken fresh where
  nodup := h.nodup
  undelivered := by
    intro hcurrent key hkey hmem
    exact h.undelivered (hcurrent.trans hgeneration) key hkey (hdelivered hmem)
  room := by
    intro hcurrent hsome
    rw [hseen]
    exact h.room (hcurrent.trans hgeneration) hsome

theorem remembered_become (w : DeadlineWorld) (near : String → List NearItem)
    (delivered : List (String × DeadlineKey)) :
    { w with
      near := near
      poll := w.poll.map fun poll => poll.restay near
      delivered := delivered : DeadlineWorld }.remembered = w.remembered := by
  funext chainId
  rw [remembered, remembered]
  rcases w.poll with _ | ⟨generation, pending, changed, phase⟩
  · rfl
  · cases phase <;> rfl

/-- Items become near and cease to be. -/
theorem Watchful.become (h : Watchful w) {near : String → List NearItem}
    (hcareful : CarefulStep setup w (.become near)) :
    Watchful { w with
      near := near
      poll := w.poll.map (·.restay near)
      delivered := w.delivered.filter fun d => d.2 ∈ nearKeys near d.1 } where
  quiet := h.quiet
  once := h.once.filter _
  near := fun d hd => of_decide_eq_true (mem_filter.mp hd).2
  remembered := by
    rw [remembered_become]
    exact fun d hd => h.remembered d (List.mem_of_mem_filter hd)
  generation := by
    intro poll hpoll
    obtain ⟨before, hbefore, rfl⟩ := Option.map_eq_some_iff.mp hpoll
    exact h.generation before hbefore
  phase := by
    intro poll hpoll
    obtain ⟨before, hbefore, rfl⟩ := Option.map_eq_some_iff.mp hpoll
    have hphase := h.phase before hbefore
    have hfiltered : (w.delivered.filter fun d => d.2 ∈ nearKeys near d.1) ⊆
        w.delivered := List.filter_subset_self _
    obtain ⟨generation, pending, changed, phase⟩ := before
    cases phase with
    | settings | addresses => trivial
    | loading | between => exact hphase
    | reading tick stayed =>
      refine ⟨hphase.1, fun key hkey => ?_⟩
      obtain ⟨hdelivered, hnear⟩ := mem_filter.mp hkey
      obtain ⟨item, hitem, rfl⟩ := mem_map.mp (hphase.2 key hdelivered)
      have hstays := hcareful _ (reading_of_phase hbefore rfl) item hitem hdelivered
        (of_decide_eq_true hnear)
      exact mem_map.mpr ⟨item, mem_filter.mpr ⟨hitem, decide_eq_true hstays⟩, rfl⟩
    | notifying tick fresh | posting tick keys accepted rest =>
      exact ⟨hphase.1, hphase.2.mono rfl rfl hfiltered⟩
    | saving out => exact fun d hd => hphase d (hfiltered hd)

/-- `stop` leaves no tick in the current generation. -/
theorem Watchful.stop (h : Watchful w) (hcareful : CarefulStep setup w .stop) : Watchful { w with
      generation := w.generation + 1
      seen := fun _ => none
      seenLoaded := false
      seenDirty := false } where
  quiet := h.quiet
  once := h.once
  near := h.near
  remembered := by
    intro d hd
    have hstored := hcareful d hd
    rw [DeadlineWorld.remembered]
    split
    · exact hstored
    · exact hstored
    · exact hstored
  generation := fun poll hpoll => (h.generation poll hpoll).trans (Nat.le_succ _)
  phase := by
    intro poll hpoll
    have hphase := h.phase poll hpoll
    have hearlier : poll.generation ≠ w.generation + 1 :=
      (Nat.lt_succ_of_le (h.generation poll hpoll)).ne
    generalize poll.phase = phase at hphase
    cases phase with
    | settings | addresses => trivial
    | loading | between => exact fun hcurrent => absurd hcurrent hearlier
    | reading tick stayed =>
      have hstale : tick.generation ≠ w.generation + 1 := hphase.1.1 ▸ hearlier
      exact ⟨⟨hphase.1.1, iff_of_false hstale Bool.false_ne_true⟩, hphase.2⟩
    | notifying tick fresh | posting tick keys accepted rest =>
      have hstale : tick.generation ≠ w.generation + 1 := hphase.1.1 ▸ hearlier
      exact ⟨⟨hphase.1.1, iff_of_false hstale Bool.false_ne_true⟩, hphase.2.nodup,
        fun hcurrent => absurd hcurrent hstale, fun hcurrent => absurd hcurrent hstale⟩
    | saving out => exact hphase

/-- A change of the poll alone, between phases in which what is known is what is remembered. -/
theorem Watchful.setPoll (h : Watchful w) {poll : Option DeadlinePoll}
    (hknown : w.remembered = w.known) (hnext : (w.setPoll poll).remembered = w.known)
    (hgeneration : ∀ p ∈ poll, p.generation ≤ w.generation)
    (hphase : ∀ p ∈ poll, PhaseOk (w.setPoll poll) p p.phase) : Watchful (w.setPoll poll) where
  quiet := h.quiet
  once := h.once
  near := h.near
  remembered := by
    rw [hnext, ← hknown]
    exact h.remembered
  generation := hgeneration
  phase := hphase

variable {poll : DeadlinePoll}

/-- The poll goes on to the next chain. -/
theorem Watchful.goOn (h : Watchful w) (hpoll : w.poll = some poll)
    (hknown : w.remembered = w.known)
    (hloaded : poll.generation = w.generation → w.seenLoaded = true) :
    Watchful (w.setPoll (some poll.goOn)) := by
  have hremembered : (w.setPoll (some poll.goOn)).remembered = w.known :=
    remembered_of_phase rfl (by rintro ⟨⟩) (by rintro _ _ _ ⟨⟩)
  refine h.setPoll hknown hremembered ?_ ?_
  · rintro p ⟨⟩
    exact h.generation poll hpoll
  · rintro p ⟨⟩
    exact hloaded

/-- The end of a poll, or the tick of its next chain. -/
theorem Watchful.nextChain (h : Watchful w) (hpoll : w.poll = some poll)
    (hbetween : poll.phase = .between) (hasSdk : Bool)
    (hcareful : CarefulStep setup w (.next hasSdk)) : Watchful (w.nextChain poll hasSdk) := by
  have hknown : w.remembered = w.known := remembered_of_phase hpoll
    (by rw [hbetween]; rintro ⟨⟩) (by rw [hbetween]; rintro _ _ _ ⟨⟩)
  have hgeneration := h.generation poll hpoll
  have hloaded : poll.generation = w.generation → w.seenLoaded = true := by
    have hphase := h.phase poll hpoll
    rwa [hbetween] at hphase
  rw [DeadlineWorld.nextChain]
  split
  · rw [finish]
    split
    · exact h.setPoll hknown (remembered_idle rfl) (by rintro p ⟨⟩) (by rintro p ⟨⟩)
    · rename_i hcurrent
      have hloaded := hloaded (not_not.mp hcurrent)
      have hseen : ∀ d ∈ w.delivered, d.2 ∈ w.seen.at d.1 := by
        intro d hd
        rw [← known_of_loaded hloaded, ← hknown]
        exact h.remembered d hd
      split
      · refine ⟨h.quiet, h.once, h.near, fun d hd => ?_, ?_, ?_⟩
        · rw [remembered_of_phase rfl (by rintro ⟨⟩) (by rintro _ _ _ ⟨⟩), known, if_pos hloaded]
          exact hseen d hd
        · rintro p ⟨⟩
          exact hgeneration
        · rintro p ⟨⟩
          exact hseen
      · exact h.setPoll hknown (remembered_idle rfl) (by rintro p ⟨⟩)
          (by rintro p ⟨⟩)
  · rename_i chainId addrs pending hpending
    have hcurrent : poll.generation = w.generation :=
      hcareful poll hpoll (by rw [hpending]; exact List.cons_ne_nil _ _)
    cases hasSdk with
    | false =>
      have hremembered : (w.setPoll (some { poll with
          pending := pending
          phase := .between })).remembered = w.known :=
        remembered_of_phase rfl (by rintro ⟨⟩) (by rintro _ _ _ ⟨⟩)
      exact h.setPoll hknown hremembered (by rintro p ⟨⟩; exact hgeneration)
        (by rintro p ⟨⟩; exact hloaded)
    | true =>
      have hremembered : (w.setPoll (some { poll with
          pending := pending
          phase := .reading ⟨chainId, addrs, w.generation⟩ (w.near chainId) })).remembered =
            w.known :=
        remembered_of_phase rfl (by rintro ⟨⟩) (by rintro _ _ _ ⟨⟩)
      refine h.setPoll hknown hremembered (by rintro p ⟨⟩; exact hgeneration) ?_
      rintro p ⟨⟩
      exact ⟨⟨hcurrent.symm, iff_of_true rfl (hloaded hcurrent)⟩, fun key hkey => h.near _ hkey⟩

/-- **A tick whose reads show what was delivered keeps it announced.** -/
theorem Watchful.collectChain (h : Watchful w) (hpoll : w.poll = some poll) {stayed : List NearItem}
    (hreading : poll.phase = .reading tick stayed) {answers : TickAnswers}
    (htruthful : TruthfulStep setup w (.collect answers))
    (hcareful : CarefulStep setup w (.collect answers)) :
    Watchful (collectChain setup w poll tick answers) := by
  have hknown : w.remembered = w.known := remembered_of_phase hpoll
    (by rw [hreading]; rintro ⟨⟩) (by rw [hreading]; rintro _ _ _ ⟨⟩)
  have hphase := h.phase poll hpoll
  rw [hreading] at hphase
  obtain ⟨⟨htick, hcurrent⟩, hstayed⟩ := hphase
  have hdue : ∀ key, (tick.chainId, key) ∈ w.delivered →
      key ∈ (collectDeadlines setup tick.chainId answers tick.addrs).map Deadline.key := by
    intro key hkey
    obtain ⟨item, hitem, rfl⟩ := mem_map.mp (hstayed key hkey)
    have hread := reading_of_phase hpoll hreading
    exact (htruthful _ hread item hitem).mem_collectDeadlines (hcareful _ hread item hitem hkey)
  have hnodup := nodup_collectDeadlines setup tick.chainId answers tick.addrs
  rw [DeadlineWorld.collectChain]
  generalize collectDeadlines setup tick.chainId answers tick.addrs = due at hdue hnodup ⊢
  have hkept : w.seenLoaded = true → ∀ d ∈ w.delivered,
      d.2 ∈ (w.seen.set tick.chainId (prune due (w.seen.at tick.chainId))).at d.1 := by
    intro hloaded d hd
    have hseen : d.2 ∈ w.seen.at d.1 := by
      rw [← known_of_loaded hloaded, ← hknown]
      exact h.remembered d hd
    by_cases hchain : d.1 = tick.chainId
    · rw [hchain] at hseen ⊢
      rw [at_set_self]
      exact mem_filter.mpr ⟨hseen, decide_eq_true (hdue d.2 (hchain ▸ hd))⟩
    · rwa [at_set_of_ne hchain]
  refine ⟨h.quiet, h.once, h.near, fun d hd => ?_, ?_, ?_⟩
  · rw [remembered_of_phase rfl (by dsimp only; split <;> rintro ⟨⟩)
      (by dsimp only; split <;> rintro _ _ _ ⟨⟩)]
    cases hloaded : w.seenLoaded with
    | true =>
      rw [known, if_pos rfl]
      exact hkept hloaded d hd
    | false =>
      rw [known, if_neg Bool.false_ne_true]
      have hstored := h.remembered d hd
      rwa [hknown, known_of_not_loaded hloaded] at hstored
  · rintro p ⟨⟩
    exact h.generation poll hpoll
  · rintro p ⟨⟩
    dsimp only
    split
    · exact fun hgeneration => hcurrent.mp (htick.trans hgeneration)
    · refine ⟨⟨htick, hcurrent⟩, nodup_freshDeadlines hnodup _, fun hgeneration key hkey hmem => ?_,
        fun _ hsome => ?_⟩
      · obtain ⟨d, hd, rfl⟩ := mem_map.mp hkey
        have hseen := hkept (hcurrent.mp hgeneration) _ hmem
        rw [at_set_self] at hseen
        exact (mem_freshDeadlines hd).2 hseen
      · dsimp only
        rw [at_set_self]
        have hlength := length_freshDeadlines_le due (prune due (w.seen.at tick.chainId))
        omega

variable {keys : List DeadlineKey}

theorem mem_shown {chainId : String} {accepted : Bool} {d : String × DeadlineKey}
    (h : d ∈ w.shown chainId keys accepted) :
    accepted = true ∧ d.1 = chainId ∧ d.2 ∈ keys ∧ d.2 ∈ nearKeys w.near d.1 := by
  rw [shown] at h
  split at h
  · rename_i haccepted
    obtain ⟨key, hkey, rfl⟩ := mem_map.mp h
    obtain ⟨hmem, hnear⟩ := mem_filter.mp hkey
    exact ⟨haccepted, rfl, hmem, of_decide_eq_true hnear⟩
  · cases h

theorem nodup_shown {chainId : String} {accepted : Bool} (h : keys.Nodup) :
    (w.shown chainId keys accepted).Nodup := by
  rw [shown]
  split
  · exact (h.filter _).map (Prod.mk_right_injective chainId)
  · exact List.nodup_nil

/-- **A notification in the tick's generation is the item's first.** -/
theorem Watchful.notifyNext (h : Watchful w) (hpoll : w.poll = some poll) {fresh : List Deadline}
    (hnotifying : poll.phase = .notifying tick fresh) (accepted : Bool) :
    Watchful (w.notifyNext poll tick fresh accepted) := by
  have hknown : w.remembered = w.known := remembered_of_phase hpoll
    (by rw [hnotifying]; rintro ⟨⟩) (by rw [hnotifying]; rintro _ _ _ ⟨⟩)
  have hphase := h.phase poll hpoll
  rw [hnotifying] at hphase
  obtain ⟨⟨htick, hcurrent⟩, hfresh⟩ := hphase
  rw [DeadlineWorld.notifyNext]
  split
  · exact h.goOn hpoll hknown fun hgeneration => hcurrent.mp (htick.trans hgeneration)
  · rename_i hgo
    rw [not_or, not_or, not_not] at hgo
    obtain ⟨hsome, hgeneration, -⟩ := hgo
    have hloaded := hcurrent.mp hgeneration
    have happend := nextNotification_append fresh
    generalize (nextNotification fresh).1 = now, (nextNotification fresh).2 = rest at happend ⊢
    subst happend
    have hnodup := hfresh.nodup
    rw [List.map_append, List.nodup_append] at hnodup
    obtain ⟨hnow, hrest, hapart⟩ := hnodup
    have hundelivered := hfresh.undelivered hgeneration
    rw [List.map_append] at hundelivered
    have hroom := hfresh.room hgeneration (by
      rw [Nat.zero_add]
      exact List.length_pos_iff.mpr hsome)
    rw [List.length_append, Nat.add_zero] at hroom
    rw [announce]
    refine ⟨?_, ?_, ?_, ?_, ?_, ?_⟩
    · dsimp only
      rw [h.quiet, ← htick, hgeneration, decide_eq_false (not_not.mpr rfl), Bool.and_false]
      rfl
    · refine List.nodup_append.mpr ⟨nodup_shown hnow, h.once, ?_⟩
      rintro d hd d' hd' rfl
      obtain ⟨-, hchain, hmem, -⟩ := mem_shown hd
      refine hundelivered d.2 (List.mem_append_left _ hmem) ?_
      rwa [← hchain]
    · intro d hd
      rcases mem_append.mp hd with hd | hd
      · exact (mem_shown hd).2.2.2
      · exact h.near d hd
    · intro d hd
      rw [remembered_posting rfl rfl, if_pos hloaded]
      rcases mem_append.mp hd with hd | hd
      · obtain ⟨haccepted, hchain, hmem, -⟩ := mem_shown hd
        rw [if_pos ⟨haccepted, hchain.symm⟩]
        exact List.mem_append_right _ hmem
      · have hseen := h.remembered d hd
        rw [hknown, known_of_loaded hloaded] at hseen
        exact List.mem_append_left _ hseen
    · rintro p ⟨⟩
      exact h.generation poll hpoll
    · rintro p ⟨⟩
      refine ⟨⟨htick, hcurrent⟩, hrest, fun _ key hkey hmem => ?_, fun _ _ => ?_⟩
      · rcases mem_append.mp hmem with hmem | hmem
        · exact hapart key (mem_shown hmem).2.2.1 key hkey rfl
        · exact hundelivered key (List.mem_append_right _ hkey) hmem
      · rw [List.length_map]
        dsimp only
        omega

/-- **A delivery is recorded** as long as its tick's generation lasts. -/
theorem Watchful.record (h : Watchful w) (hpoll : w.poll = some poll) {accepted : Bool}
    {rest : List Deadline} (hposting : poll.phase = .posting tick keys accepted rest) :
    Watchful (w.record poll tick keys accepted rest) := by
  have hphase := h.phase poll hpoll
  rw [hposting] at hphase
  obtain ⟨⟨htick, hcurrent⟩, hfresh⟩ := hphase
  have hgenerations : ∀ p ∈ (w.record poll tick keys accepted rest).poll,
      p.generation ≤ (w.record poll tick keys accepted rest).generation := by
    rintro p ⟨⟩
    exact h.generation poll hpoll
  have hremembered : ∀ d ∈ w.delivered, d.2 ∈ if w.seenLoaded then
      w.seen.at d.1 ++ (if accepted = true ∧ tick.chainId = d.1 then keys else [])
        else w.stored.at d.1 := by
    intro d hd
    rw [← remembered_posting hpoll hposting]
    exact h.remembered d hd
  by_cases hrecorded : accepted = true ∧ tick.generation = w.generation
  · obtain ⟨haccepted, hgeneration⟩ := hrecorded
    have hloaded := hcurrent.mp hgeneration
    have hkeys : keys ⊆ recordKeys (w.seen.at tick.chainId) keys := by
      rcases Nat.eq_zero_or_pos keys.length with hnone | hsome
      · rw [List.length_eq_zero_iff.mp hnone]
        exact List.nil_subset _
      · have hroom := hfresh.room hgeneration (by omega)
        exact keys_subset_recordKeys (by omega)
    refine ⟨h.quiet, h.once, h.near, fun d hd => ?_, hgenerations, ?_⟩
    · rw [remembered_of_phase rfl (by rintro ⟨⟩) (by rintro _ _ _ ⟨⟩), known]
      have hmem := hremembered d hd
      rw [if_pos hloaded] at hmem
      rw [DeadlineWorld.record, if_pos hloaded, if_pos ⟨haccepted, hgeneration⟩]
      by_cases hchain : d.1 = tick.chainId
      · rw [hchain, if_pos ⟨haccepted, rfl⟩] at hmem
        rw [hchain, at_set_self]
        rcases mem_append.mp hmem with hmem | hmem
        · exact subset_recordKeys _ _ hmem
        · exact hkeys hmem
      · rw [if_neg fun hsame => hchain hsame.2.symm, append_nil] at hmem
        rwa [at_set_of_ne hchain]
    · rintro p ⟨⟩
      refine ⟨⟨htick, hcurrent⟩, hfresh.nodup, hfresh.undelivered, fun _ hsome => ?_⟩
      have hroom := hfresh.room hgeneration (by omega)
      have hlength := length_recordKeys_le (w.seen.at tick.chainId) keys
      rw [DeadlineWorld.record, if_pos ⟨haccepted, hgeneration⟩]
      dsimp only
      rw [at_set_self]
      omega
  · refine ⟨h.quiet, h.once, h.near, fun d hd => ?_, hgenerations, ?_⟩
    · rw [remembered_of_phase rfl (by rintro ⟨⟩) (by rintro _ _ _ ⟨⟩), known]
      have hmem := hremembered d hd
      rw [DeadlineWorld.record, if_neg hrecorded]
      cases hloaded : w.seenLoaded with
      | true =>
        rw [hloaded, if_pos rfl, if_neg fun hkept => hrecorded ⟨hkept.1, hcurrent.mpr hloaded⟩,
          append_nil] at hmem
        exact hmem
      | false =>
        rw [hloaded] at hmem
        exact hmem
    · rintro p ⟨⟩
      refine ⟨⟨htick, hcurrent⟩, hfresh.nodup, hfresh.undelivered, fun hgeneration hsome => ?_⟩
      have hroom := hfresh.room hgeneration (by omega)
      rw [DeadlineWorld.record, if_neg hrecorded]
      dsimp only
      omega

/-- The active addresses are there: the stored keys are read where they have not been. -/
theorem Watchful.listChains (h : Watchful w) (hpoll : w.poll = some poll)
    (hphase : poll.phase = .addresses) (pending : Option (List (String × List String))) :
    Watchful (w.listChains poll pending) := by
  have hknown : w.remembered = w.known := remembered_of_phase hpoll
    (by rw [hphase]; rintro ⟨⟩) (by rw [hphase]; rintro _ _ _ ⟨⟩)
  cases pending with
  | none =>
    exact h.setPoll hknown (remembered_idle rfl) (by rintro p ⟨⟩) (by rintro p ⟨⟩)
  | some pending =>
    refine ⟨h.quiet, h.once, h.near, fun d hd => ?_, ?_, ?_⟩
    · have hmem := h.remembered d hd
      rw [hknown, known] at hmem
      rw [DeadlineWorld.listChains]
      cases hloaded : w.seenLoaded with
      | true =>
        rw [hloaded, if_pos rfl] at hmem
        rw [remembered_of_phase rfl (by rintro ⟨⟩) (by rintro _ _ _ ⟨⟩), known, if_pos rfl]
        exact hmem
      | false =>
        rw [hloaded, if_neg Bool.false_ne_true] at hmem
        exact hmem
    · rintro p ⟨⟩
      exact h.generation poll hpoll
    · rintro p ⟨⟩
      dsimp only
      split
      · exact fun _ => rfl
      · exact fun _ => rfl

/-- The stored keys are read back. -/
theorem Watchful.loaded (h : Watchful w) (hpoll : w.poll = some poll)
    (hphase : poll.phase = .loading) {ok : Bool} (hcareful : CarefulStep setup w (.loaded ok)) :
    Watchful { w with
      seen := if ok then fun chainId => (w.stored chainId).or (w.seen chainId) else w.seen
      poll := some poll.goOn } := by
  have hstored : ∀ d ∈ w.delivered, d.2 ∈ w.stored.at d.1 := by
    intro d hd
    have hmem := h.remembered d hd
    rwa [DeadlineWorld.remembered, hpoll, map_some, hphase] at hmem
  refine ⟨h.quiet, h.once, h.near, fun d hd => ?_, ?_, ?_⟩
  · rw [remembered_of_phase rfl (by rintro ⟨⟩) (by rintro _ _ _ ⟨⟩), known]
    have hmem := hstored d hd
    cases hloaded : w.seenLoaded with
    | false =>
      rw [if_neg Bool.false_ne_true]
      exact hmem
    | true =>
      rw [if_pos rfl]
      rcases hcareful with rfl | hnone
      · rw [SeenKeys.at] at hmem ⊢
        dsimp only
        rw [if_pos rfl]
        cases hchain : w.stored d.1 with
        | none =>
          rw [hchain] at hmem
          cases hmem
        | some keys =>
          rw [hchain] at hmem
          exact hmem
      · rw [hnone] at hd
        cases hd
  · rintro p ⟨⟩
    exact h.generation poll hpoll
  · rintro p ⟨⟩
    have hloading := h.phase poll hpoll
    rwa [hphase] at hloading

/-- The announced keys are stored, or are still to be. -/
theorem Watchful.saved (h : Watchful w) (hpoll : w.poll = some poll) {out : SeenKeys}
    (hphase : poll.phase = .saving out) (ok : Bool) :
    Watchful { w with
      stored := if ok then out else w.stored
      seenDirty := if ok then false else w.seenDirty
      poll := none } := by
  have hknown : w.remembered = w.known := remembered_of_phase hpoll
    (by rw [hphase]; rintro ⟨⟩) (by rw [hphase]; rintro _ _ _ ⟨⟩)
  have hout := h.phase poll hpoll
  rw [hphase] at hout
  refine ⟨h.quiet, h.once, h.near, fun d hd => ?_, by rintro p ⟨⟩, by rintro p ⟨⟩⟩
  rw [remembered_idle rfl, known]
  have hmem := h.remembered d hd
  rw [hknown, known] at hmem
  cases hloaded : w.seenLoaded with
  | true =>
    rw [hloaded, if_pos rfl] at hmem
    exact hmem
  | false =>
    rw [hloaded, if_neg Bool.false_ne_true] at hmem
    rw [if_neg Bool.false_ne_true]
    cases ok with
    | true => exact hout d hd
    | false => exact hmem

/-- **Every careful step with truthful answers keeps the watcher watchful.** -/
theorem Watchful.step (h : Watchful w) {a : DeadlineAct} (htruthful : TruthfulStep setup w a)
    (hcareful : CarefulStep setup w a) {w' : DeadlineWorld} (hstep : w.step setup a = some w') :
    Watchful w' := by
  cases a with
  | become near =>
    obtain ⟨⟩ := hstep
    exact h.become hcareful
  | poll =>
    obtain ⟨⟩ := hstep
    cases hpoll : w.poll with
    | none =>
      refine h.setPoll (remembered_idle hpoll)
        (remembered_of_phase rfl (by rintro ⟨⟩) (by rintro _ _ _ ⟨⟩)) ?_ ?_
      · rintro p ⟨⟩
        exact Nat.le_refl _
      · rintro p ⟨⟩
        trivial
    | some poll => exact h
  | stop =>
    obtain ⟨⟩ := hstep
    exact h.stop hcareful
  | settings featureOn =>
    obtain ⟨poll, hpoll, hstep⟩ := bind_eq_some_iff.mp hstep
    split at hstep
    · rename_i hphase
      obtain ⟨⟩ := hstep
      have hknown : w.remembered = w.known := remembered_of_phase hpoll
        (by rw [hphase]; rintro ⟨⟩) (by rw [hphase]; rintro _ _ _ ⟨⟩)
      split
      · refine h.setPoll hknown
          (remembered_of_phase rfl (by rintro ⟨⟩) (by rintro _ _ _ ⟨⟩)) ?_ ?_
        · rintro p ⟨⟩
          exact h.generation poll hpoll
        · rintro p ⟨⟩
          trivial
      · exact h.setPoll hknown (remembered_idle rfl) (by rintro p ⟨⟩)
          (by rintro p ⟨⟩)
    · cases hstep
  | addresses listed =>
    obtain ⟨poll, hpoll, hstep⟩ := bind_eq_some_iff.mp hstep
    split at hstep
    · rename_i hphase
      obtain ⟨⟩ := hstep
      exact h.listChains hpoll hphase _
    · cases hstep
  | loaded ok =>
    obtain ⟨poll, hpoll, hstep⟩ := bind_eq_some_iff.mp hstep
    split at hstep
    · rename_i hphase
      obtain ⟨⟩ := hstep
      exact h.loaded hpoll hphase hcareful
    · cases hstep
  | next hasSdk =>
    obtain ⟨poll, hpoll, hstep⟩ := bind_eq_some_iff.mp hstep
    split at hstep
    · rename_i hphase
      obtain ⟨⟩ := hstep
      exact h.nextChain hpoll hphase hasSdk hcareful
    · cases hstep
  | collect answers =>
    obtain ⟨poll, hpoll, hstep⟩ := bind_eq_some_iff.mp hstep
    split at hstep
    · rename_i hphase
      obtain ⟨⟩ := hstep
      exact h.collectChain hpoll hphase htruthful hcareful
    · cases hstep
  | notify accepted =>
    obtain ⟨poll, hpoll, hstep⟩ := bind_eq_some_iff.mp hstep
    split at hstep
    · rename_i hphase
      obtain ⟨⟩ := hstep
      exact h.notifyNext hpoll hphase accepted
    · cases hstep
  | posted =>
    obtain ⟨poll, hpoll, hstep⟩ := bind_eq_some_iff.mp hstep
    split at hstep
    · rename_i hphase
      obtain ⟨⟩ := hstep
      exact h.record hpoll hphase
    · cases hstep
  | saved ok =>
    obtain ⟨poll, hpoll, hstep⟩ := bind_eq_some_iff.mp hstep
    split at hstep
    · rename_i hphase
      obtain ⟨⟩ := hstep
      exact h.saved hpoll hphase ok
    · cases hstep

end Steps

theorem watchful_start (near : String → List NearItem) (stored : SeenKeys) :
    Watchful (start near stored) where
  quiet := rfl
  once := List.nodup_nil
  near := by rintro d ⟨⟩
  remembered := by rintro d ⟨⟩
  generation := by rintro poll ⟨⟩
  phase := by rintro poll ⟨⟩

/-- **An item that stays near is delivered once, and no poll delivers after a stop**, in every run
of polls, stops, restarts and failures whose steps are careful. -/
theorem deadlines_once_and_quiet (setup : DeadlineSetup) (near : String → List NearItem)
    (stored : SeenKeys) (acts : List DeadlineAct)
    (htruthful : Under (TruthfulStep setup) (DeadlineWorld.step setup)
      (DeadlineWorld.start near stored) acts)
    (hcareful : Under (CarefulStep setup) (DeadlineWorld.step setup)
      (DeadlineWorld.start near stored) acts) :
    Throughout OnceAndQuiet (DeadlineWorld.step setup) (DeadlineWorld.start near stored) acts := by
  have hwatchful := throughout_of_under
    (fun w a w' h hguard hstep => Watchful.step h hguard.1 hguard.2 hstep)
    (watchful_start near stored) (htruthful.and hcareful)
  exact hwatchful.mono fun w h => ⟨h.once, h.quiet⟩

/-! ### Runs -/

private def dayWindow : DeadlineSetup where
  windowSeconds := 86400
  coinForChain := fun _ => some "bitcoin"

private def expiringOrder : NearItem where
  key := ⟨.order, "7"⟩
  owner := "mine"
  voters := []
  deadline := 1800

private def orderRow : DeadlineRow where
  members := fun name =>
    if name = "action_index" then some (.number 7)
    else if name = "expiration" then some (.number 1800)
    else none
  state := none

/-- An order that ends at 1800 is near on both chains, and nothing is stored. -/
private def nearOrder : DeadlineWorld := .start (fun _ => [expiringOrder]) fun _ => none

private def answersWith (status : Option StatusMaps) : TickAnswers where
  coin := some "BTC"
  status := status
  listed := fun kind _ => if kind = .order then some [orderRow] else some []
  action := fun _ => none
  polls := some []
  votes := fun _ => some []

/-- What the explorer answers at 900. -/
private def goodAnswers : TickAnswers := answersWith <| some {
  lastBlockTime := fun _ => some (.number 900)
  chainTip := fun _ => none
  lastBlock := fun _ => none }

/-- A poll up to its first tick. -/
private def opening (chainIds : List String) : List DeadlineAct :=
  [.poll, .settings (some true), .addresses (some (chainIds.map (WatchedAddress.mk · "mine")))]

/-- The first poll delivers and stores. -/
private def firstPoll : List DeadlineAct :=
  opening ["btc"] ++ [.loaded true, .next true, .collect goodAnswers, .notify true, .posted,
    .notify true, .next true, .saved true]

/-- A tick that finds nothing to deliver. -/
private def quietTick (answers : TickAnswers) : List DeadlineAct :=
  [.next true, .collect answers, .next true]

/-- A restart after the first poll: the order is not delivered again. -/
theorem deadlines_once_and_quiet_restart :
    Throughout OnceAndQuiet (DeadlineWorld.step dayWindow) nearOrder
      (firstPoll ++ opening ["btc"] ++ quietTick goodAnswers ++ .stop :: opening ["btc"] ++
        .loaded true :: quietTick goodAnswers) :=
  deadlines_once_and_quiet dayWindow (fun _ => [expiringOrder]) (fun _ => none)
    (firstPoll ++ opening ["btc"] ++ quietTick goodAnswers ++ .stop :: opening ["btc"] ++
      .loaded true :: quietTick goodAnswers) (by decide +kernel) (by decide +kernel)

/-- The second poll fails to read the status, and the third delivers again. -/
private def failedPoll : List DeadlineAct :=
  firstPoll ++ opening ["btc"] ++ quietTick (answersWith none) ++ .saved true :: opening ["btc"] ++
    [.next true, .collect goodAnswers, .notify true]

/-- A poll of two chains is stopped while it reads the first. -/
private def stoppedPoll : List DeadlineAct :=
  opening ["btc", "ltc"] ++ [.loaded true, .next true, .stop, .collect goodAnswers, .notify true,
    .next true, .collect goodAnswers, .notify true]

private theorem isSome_failedPoll : (run (step dayWindow) nearOrder failedPoll).isSome := by
  decide +kernel

private theorem isSome_stoppedPoll : (run (step dayWindow) nearOrder stoppedPoll).isSome := by
  decide +kernel

/-- A failed read announces an order again, and the tick of a second chain delivers after a stop. -/
theorem not_deadlines_once_and_quiet :
    (¬∀ setup near stored acts, Under (TruthfulStep setup) (DeadlineWorld.step setup)
      (DeadlineWorld.start near stored) acts →
        Throughout (fun w => w.delivered.Nodup) (DeadlineWorld.step setup)
          (DeadlineWorld.start near stored) acts) ∧
    ¬∀ setup near stored acts, Under (TruthfulStep setup) (DeadlineWorld.step setup)
      (DeadlineWorld.start near stored) acts →
        Throughout (fun w => w.late = false) (DeadlineWorld.step setup)
          (DeadlineWorld.start near stored) acts := by
  refine ⟨fun hall => ?_, fun hall => ?_⟩
  · have honce := (hall dayWindow (fun _ => [expiringOrder]) (fun _ => none) failedPoll
      (by decide +kernel)).last (Option.some_get isSome_failedPoll).symm
    exact absurd honce (by decide +kernel)
  · have hquiet := (hall dayWindow (fun _ => [expiringOrder]) (fun _ => none) stoppedPoll
      (by decide +kernel)).last (Option.some_get isSome_stoppedPoll).symm
    exact absurd hquiet (by decide +kernel)

end XchainWallet
