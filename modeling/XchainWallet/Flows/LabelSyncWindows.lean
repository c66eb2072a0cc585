import XchainWallet.Flows.LabelSyncScheduler

/-!
# One label-sync request per unlock window

The due time is within the ceiling in every run. The other two promises rest on what `fire` tested
before its `await`: they are kept in every run in which no check that answers is overtaken by a lock,
by another check or by a change of the setting, and two checks under way at once break the first of
them.
-/

namespace XchainWallet

open Transition LabelSyncScheduler

/-! ### What the scheduler holds of the edits -/

namespace LabelSyncScheduler

variable {s : LabelSyncScheduler} {opts : LabelSyncOpts} {edits : List ℤ}

/-- The scheduler counts the edits `edits` that are not published, and is due within the ceiling of
the first of them. -/
structure Tracks (s : LabelSyncScheduler) (opts : LabelSyncOpts) (edits : List ℤ) : Prop where
  count : s.changeCount = edits.length
  first : s.firstChangeAt = edits.head?
  due : ∀ dueAt, s.dueAt = some dueAt →
    ∃ first, edits.head? = some first ∧ dueAt ≤ first + opts.maxWaitMs

theorem Tracks.disarm (h : s.Tracks opts edits) : s.disarm.Tracks opts edits :=
  ⟨h.count, h.first, nofun⟩

theorem tracks_reset : s.reset.Tracks opts [] := ⟨rfl, rfl, nofun⟩

/-- **The ceiling.** What `arm` sets is never past the first edit plus the maximum wait. -/
theorem Tracks.arm (h : s.Tracks opts edits) (now : ℤ) : (s.arm opts now).Tracks opts edits := by
  unfold LabelSyncScheduler.arm
  split
  · exact h
  split
  · exact h
  · rename_i hcount
    split
    · exact h
    · refine ⟨h.count, h.first, fun dueAt hdue => ?_⟩
      obtain ⟨first, hfirst⟩ : ∃ first, edits.head? = some first := by
        cases edits with
        | nil => exact absurd h.count hcount
        | cons first rest => exact ⟨first, rfl⟩
      have hat : dueAt = s.nextDueAt opts now := (Option.some.inj hdue).symm
      refine ⟨first, hfirst, ?_⟩
      rw [hat, nextDueAt, h.first, hfirst]
      exact min_le_right _ _

theorem Tracks.noted (h : s.Tracks opts edits) (walletId : Option String) (now : ℤ) :
    (s.noted walletId now).Tracks opts (edits ++ [now]) := by
  refine ⟨?_, ?_, fun dueAt hdue => ?_⟩
  · simp [LabelSyncScheduler.noted, h.count]
  · rw [List.head?_append, ← h.first]
    cases hfirst : s.firstChangeAt <;> simp [LabelSyncScheduler.noted, hfirst]
  · obtain ⟨first, hfirst, hle⟩ := h.due dueAt hdue
    exact ⟨first, by rw [List.head?_append, hfirst]; rfl, hle⟩

variable {s' : LabelSyncScheduler}

/-- **What a note does.** It is refused, or comes after disposal, or books the edit and may arm. -/
theorem noteLabelChange_cases {change : LabelChange} {now armNow : ℤ} {result : NoteResult}
    (hnote : s.noteLabelChange opts change now armNow = .ok (s', result)) :
    (s.disposed = true ∧ s' = s) ∨ s.disposed ≠ true ∧ (s' = s.noted change.walletId now ∨
        s' = (s.noted change.walletId now).arm opts armNow) := by
  unfold noteLabelChange at hnote
  split at hnote
  · cases hnote
  split at hnote
  · rename_i hdisposed
    cases hnote
    exact .inl ⟨hdisposed, rfl⟩
  · rename_i hdisposed
    refine .inr ⟨hdisposed, ?_⟩
    dsimp only at hnote
    split_ifs at hnote <;> cases hnote
    · exact .inl rfl
    · exact .inl rfl
    · exact .inr rfl

theorem Tracks.noteLabelChange (h : s.Tracks opts edits) {change : LabelChange} {now armNow : ℤ}
    {result : NoteResult} (hnote : s.noteLabelChange opts change now armNow = .ok (s', result)) :
    s'.Tracks opts (if s.disposed then edits else edits ++ [now]) := by
  have hnoted := h.noted change.walletId now
  rcases noteLabelChange_cases hnote with ⟨hdisposed, rfl⟩ | ⟨hdisposed, rfl | rfl⟩
  · rw [if_pos hdisposed]
    exact h
  · rw [if_neg hdisposed]
    exact hnoted
  · rw [if_neg hdisposed]
    exact hnoted.arm armNow

/-! ### Windows -/

@[simp]
theorem windowId_arm (now : ℤ) : (s.arm opts now).windowId = s.windowId := by
  unfold arm
  split_ifs <;> rfl

@[simp]
theorem attemptWindowId_arm (now : ℤ) : (s.arm opts now).attemptWindowId = s.attemptWindowId := by
  unfold arm
  split_ifs <;> rfl

/-- A note opens no window and consumes none. -/
theorem windows_noteLabelChange {change : LabelChange} {now armNow : ℤ} {result : NoteResult}
    (hnote : s.noteLabelChange opts change now armNow = .ok (s', result)) :
    s'.windowId = s.windowId ∧ s'.attemptWindowId = s.attemptWindowId := by
  rcases noteLabelChange_cases hnote with ⟨-, rfl⟩ | ⟨-, rfl | rfl⟩
  · exact ⟨rfl, rfl⟩
  · exact ⟨rfl, rfl⟩
  · exact ⟨windowId_arm armNow, attemptWindowId_arm armNow⟩

end LabelSyncScheduler

/-! ### The invariant -/

namespace LabelSyncWorld

variable {w w' : LabelSyncWorld}

/-- The requests so far were raised in windows that are consumed. -/
structure Consumed (w : LabelSyncWorld) : Prop where
  once : (w.requests.map PublishRequest.windowId).Nodup
  allowed : ∀ r ∈ w.requests, r.unlocked = true ∧ r.enabled = true
  raised : ∀ r ∈ w.requests, r.windowId ≤ w.scheduler.windowId ∧
    (r.windowId = w.scheduler.windowId → w.scheduler.attemptWindowId = some w.scheduler.windowId)

structure Ok (w : LabelSyncWorld) : Prop where
  tracks : w.scheduler.Tracks w.opts w.unpublished
  consumed : w.Consumed

theorem Ok.kept (hok : w.Ok) : w.Kept := ⟨hok.consumed.once, hok.consumed.allowed, hok.tracks.due⟩

theorem ok_fresh (opts : LabelSyncOpts) (enabled : Bool) : (fresh opts enabled).Ok :=
  ⟨⟨rfl, rfl, nofun⟩, ⟨List.nodup_nil, nofun, nofun⟩⟩

/-- A step that raises nothing keeps the books of the windows: the window is the same and stays
consumed, or it is a later one. -/
theorem Consumed.of_windows (h : w.Consumed) (hrequests : w'.requests = w.requests)
    (hwindow : (w'.scheduler.windowId = w.scheduler.windowId ∧
        (w.scheduler.attemptWindowId = some w.scheduler.windowId →
          w'.scheduler.attemptWindowId = some w.scheduler.windowId)) ∨
      w.scheduler.windowId < w'.scheduler.windowId) : w'.Consumed := by
  refine ⟨hrequests ▸ h.once, hrequests ▸ h.allowed, fun r hr => ?_⟩
  obtain ⟨hle, hconsumed⟩ := h.raised r (hrequests ▸ hr)
  rcases hwindow with ⟨hsame, hstill⟩ | hlater
  · rw [hsame]
    exact ⟨hle, fun hr => hstill (hconsumed hr)⟩
  · exact ⟨by omega, fun hr => by omega⟩

/-- A step that leaves windows and requests alone. -/
theorem Consumed.of_same (h : w.Consumed) (hrequests : w'.requests = w.requests)
    (hwindow : w'.scheduler.windowId = w.scheduler.windowId)
    (hattempt : w'.scheduler.attemptWindowId = w.scheduler.attemptWindowId) : w'.Consumed :=
  h.of_windows hrequests (.inl ⟨hwindow, fun hconsumed => hattempt.trans hconsumed⟩)

theorem Ok.fired (hok : w.Ok) (reason : PublishReason) {s : LabelSyncScheduler}
    (htracks : s.Tracks w.opts w.unpublished) (hwindow : s.windowId = w.scheduler.windowId)
    (hattempt : s.attemptWindowId = w.scheduler.attemptWindowId) :
    (w.fired reason s.fire).Ok :=
  ⟨⟨htracks.count, htracks.first, nofun⟩, hok.consumed.of_same rfl hwindow hattempt⟩

/-- **A check that was not overtaken.** What it raises is the first request of the window. -/
theorem Ok.resumed (hok : w.Ok) {i : ℕ} {check : EnabledCheck} {enabled : Option Bool} {now : ℤ}
    (hnot : enabled = some true → w.scheduler.unlocked = true ∧
      w.scheduler.attemptWindowId ≠ some w.scheduler.windowId ∧ w.enabled = true) :
    (w.resumed i check enabled now).Ok := by
  cases enabled with
  | none => exact ⟨hok.tracks, hok.consumed.of_same (List.append_nil _) rfl rfl⟩
  | some enabled =>
    cases enabled with
    | false =>
      exact ⟨tracks_reset, hok.consumed.of_same (List.append_nil _) rfl rfl⟩
    | true =>
      obtain ⟨hunlocked, hfree, henabled⟩ := hnot rfl
      have hnew : ∀ r ∈ w.requests, r.windowId ≠ w.scheduler.windowId := fun r hr hsame =>
        hfree ((hok.consumed.raised r hr).2 hsame)
      refine ⟨⟨hok.tracks.count, hok.tracks.first, hok.tracks.due⟩, ?_, ?_, ?_⟩
      · simp only [LabelSyncWorld.resumed, resume, Option.toList_some,
          List.map_cons, List.map_nil, List.map_append]
        refine List.Nodup.append hok.consumed.once (List.nodup_cons.mpr ⟨nofun, List.nodup_nil⟩) ?_
        intro id hid hid'
        obtain ⟨r, hr, rfl⟩ := List.mem_map.mp hid
        exact hnew r hr (List.mem_singleton.mp hid')
      · intro r hr
        rcases List.mem_append.mp hr with hr | hr
        · exact hok.consumed.allowed r hr
        · rw [List.mem_singleton.mp hr]
          exact ⟨hunlocked, henabled⟩
      · intro r hr
        rcases List.mem_append.mp hr with hr | hr
        · exact ⟨(hok.consumed.raised r hr).1, fun _ => rfl⟩
        · rw [List.mem_singleton.mp hr]
          exact ⟨le_rfl, fun _ => rfl⟩

/-- **One step.** A step whose check, if it answers, was not overtaken keeps the invariant. -/
theorem Ok.step {a : LabelSyncAct} (hok : w.Ok) (hnot : w.NotOvertaken a)
    (h : LabelSyncWorld.step w a = some w') : w'.Ok := by
  cases a with
  | noteLabelChange change now armNow =>
    simp only [LabelSyncWorld.step] at h
    split at h
    · cases h
      exact hok
    · rename_i s result hnote
      cases h
      obtain ⟨hwindow, hattempt⟩ := windows_noteLabelChange hnote
      exact ⟨hok.tracks.noteLabelChange hnote, hok.consumed.of_same rfl hwindow hattempt⟩
  | beginUnlockWindow now =>
    cases h
    by_cases hdisposed : w.scheduler.disposed = true
    · have hsame : w.scheduler.beginUnlockWindow w.opts now = w.scheduler := if_pos hdisposed
      rw [hsame]
      exact ⟨hok.tracks, hok.consumed.of_same rfl rfl rfl⟩
    · rw [beginUnlockWindow, if_neg hdisposed]
      have hopened : w.scheduler.opened.Tracks w.opts w.unpublished :=
        ⟨hok.tracks.count, hok.tracks.first, hok.tracks.due⟩
      refine ⟨hopened.arm now, hok.consumed.of_windows rfl (.inr ?_)⟩
      rw [windowId_arm]
      exact Nat.lt_succ_self _
  | endUnlockWindow | dispose =>
    cases h
    exact ⟨⟨hok.tracks.count, hok.tracks.first, nofun⟩, hok.consumed.of_same rfl rfl rfl⟩
  | timerFires =>
    obtain ⟨reason, -, rfl⟩ := Option.map_eq_some_iff.mp h
    exact hok.fired reason hok.tracks rfl rfl
  | flush =>
    cases h
    exact hok.fired .flush hok.tracks.disarm rfl rfl
  | readsSetting i =>
    obtain ⟨check, -, h⟩ := Option.bind_eq_some_iff.mp h
    split at h
    · cases h
    · cases h
      exact ⟨hok.tracks, hok.consumed.of_same rfl rfl rfl⟩
  | answered i now =>
    obtain ⟨check, hcheck, h⟩ := Option.bind_eq_some_iff.mp h
    obtain ⟨enabled, hanswer, h⟩ := Option.bind_eq_some_iff.mp h
    cases h
    exact hok.resumed fun henabled => hnot check hcheck (hanswer.trans henabled)
  | threw i =>
    obtain ⟨check, -, h⟩ := Option.bind_eq_some_iff.mp h
    cases h
    exact hok.resumed nofun
  | setEnabled enabled =>
    cases h
    exact ⟨hok.tracks, hok.consumed.of_same rfl rfl rfl⟩
  | markPublished =>
    cases h
    by_cases hdisposed : w.scheduler.disposed = true
    · have hsame : w.scheduler.markPublished = w.scheduler := if_pos hdisposed
      rw [hsame, if_pos hdisposed]
      exact ⟨hok.tracks, hok.consumed.of_same rfl rfl rfl⟩
    · rw [markPublished, if_neg hdisposed, if_neg hdisposed]
      exact ⟨tracks_reset, hok.consumed.of_windows rfl (.inl ⟨rfl, fun _ => rfl⟩)⟩
  | clearPending =>
    cases h
    exact ⟨tracks_reset, hok.consumed.of_same rfl rfl rfl⟩

/-- **One request per unlock window.** A run in which no check that answers was overtaken keeps,
in every state it passes through, all that the scheduler promises. -/
theorem kept_of_notOvertaken (opts : LabelSyncOpts) (enabled : Bool) {as : List LabelSyncAct}
    (hnot : Under LabelSyncWorld.NotOvertaken step (fresh opts enabled) as) :
    Throughout Kept step (fresh opts enabled) as :=
  (throughout_of_under (fun _ _ _ hok hnot h => Ok.step hok hnot h) (ok_fresh opts enabled)
    hnot).mono fun _ hok => hok.kept

/-! ### Two checks at once -/

private def byDefault : LabelSyncOpts := ⟨none, none, true⟩

/-- A rename whose timer fires, while a lock and an unlock come only after the answer. -/
private def renamed : List LabelSyncAct :=
  [.noteLabelChange ⟨["walletId"], some "w"⟩ 0 0, .timerFires, .readsSetting 0, .answered 0 45000,
    .endUnlockWindow]

theorem kept_renamed : Throughout Kept step (fresh byDefault true) renamed :=
  kept_of_notOvertaken byDefault true (by decide)

/-- The timer and a flush each pass the test of the window before either check answers. -/
private def overtaken : List LabelSyncAct :=
  [.noteLabelChange ⟨["walletId"], some "w"⟩ 0 0, .timerFires, .flush, .readsSetting 0,
    .readsSetting 1, .answered 0 45000, .answered 0 45001]

private theorem windows_overtaken : (run step (fresh byDefault true) overtaken).map
      (fun w => w.requests.map PublishRequest.windowId) = some [1, 1] := by
  decide

/-- Two publishes requested in one unlock window. -/
theorem not_kept_overtaken :
    ¬∀ (opts : LabelSyncOpts) (enabled : Bool) (as : List LabelSyncAct) (w : LabelSyncWorld),
      run step (fresh opts enabled) as = some w → w.Kept := by
  intro h
  obtain ⟨w, hrun, hwindows⟩ := Option.map_eq_some_iff.mp windows_overtaken
  have honce := (h byDefault true overtaken w hrun).once
  rw [hwindows] at honce
  exact absurd honce (by decide)

end LabelSyncWorld

end XchainWallet
