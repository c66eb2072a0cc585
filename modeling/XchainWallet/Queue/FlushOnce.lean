import XchainWallet.Queue.FlushSafe

/-!
# Any number of passes are one flush

The journal and the vault have no transaction in common. What makes the flush safe all the same
is that a record can be replayed again from wherever a pass was cut off, and that a record is
retired only when the saved vault leaves its replay nothing to do. So from every state of a run,
one more complete flush leaves what one complete flush of the first journal would have left
(`flush_restarts`). Both facts rest on the vault changing under no pass, and nothing in the code
keeps one pass from beginning while another is under way: `overlapping_passes_lose_a_discard`
shows what two passes do to one record.
-/

namespace XchainWallet

open Function Transition FlushWorld

/-- The action records no new write. -/
def FlushAct.KeepsJournal : FlushAct → Prop
  | .record _ => False
  | _ => True

/-- The records that the pass has still to replay, the current one first. -/
def Pass.left (pass : Pass) : List OwedObj :=
  match pass.pc with
  | .reading owed _ | .writing owed _ _ => owed :: pass.todo
  | .saving | .retiring => pass.todo

namespace FlushWorld

variable {s s' : FlushWorld} {J : List OwedRecord} {vault : PendingTxs} {i : ℕ} {pass : Pass}

/-- The records leave out of `J` only what the vault leaves nothing to do. -/
structure Covers (s : FlushWorld) (J records : List OwedRecord) : Prop where
  sublist : records.Sublist J
  owed : ∀ o ∈ s.owed, o.val ∈ records
  settles : ∀ owed ∈ J, owed ∉ records →
    owed.Settles (s.memory owed.pendingTxId) ∧ owed.Settles (s.disk owed.pendingTxId)

/-- What a run that records nothing keeps, from the journal `J` and the vault on. -/
structure Tracks (J : List OwedRecord) (vault : PendingTxs) (s : FlushWorld) : Prop where
  continues : ∀ owed ∈ J, owed.Continues (vault owed.pendingTxId) (s.memory owed.pendingTxId) ∧
      owed.Continues (vault owed.pendingTxId) (s.disk owed.pendingTxId)
  unnamed : ∀ p, (∀ owed ∈ J, owed.pendingTxId ≠ p) → s.memory p = vault p ∧ s.disk p = vault p
  unloaded : s.loaded = false → s.owed = [] ∧ s.saves = []
  live : s.loaded = true → s.Covers J (s.owed.map OwedObj.val)
  stored : s.Covers J (restoredJournal s.journal)
  saving : ∀ save ∈ s.saves, s.Covers J save
  left : ∀ i pass, s.passes i = some pass → ∀ x ∈ pass.left, x ∈ s.owed

/-! ### Steps that leave the vault alone -/

theorem Covers.congr {records : List OwedRecord} (h : s.Covers J records)
    (howed : ∀ o ∈ s'.owed, o ∈ s.owed) (hmemory : s'.memory = s.memory)
    (hdisk : s'.disk = s.disk) : s'.Covers J records where
  sublist := h.sublist
  owed := fun o ho => h.owed o (howed o ho)
  settles := by
    rw [hmemory, hdisk]
    exact h.settles

/-- A step that leaves the vault, the journals and the saves alone. -/
theorem Tracks.congr (h : s.Tracks J vault) (hmemory : s'.memory = s.memory)
    (hdisk : s'.disk = s.disk) (howed : s'.owed = s.owed) (hloaded : s'.loaded = s.loaded)
    (hjournal : s'.journal = s.journal) (hsaves : ∀ save ∈ s'.saves, save ∈ s.saves)
    (hleft : ∀ i pass, s'.passes i = some pass → ∀ x ∈ pass.left, x ∈ s.owed) :
    s'.Tracks J vault := by
  have hcovers : ∀ {records}, s.Covers J records → s'.Covers J records :=
    fun h => h.congr (by rw [howed]; exact fun _ ho => ho) hmemory hdisk
  refine ⟨?_, ?_, ?_, ?_, ?_, fun save hsave => hcovers (h.saving save (hsaves save hsave)), ?_⟩
  · rw [hmemory, hdisk]
    exact h.continues
  · rw [hmemory, hdisk]
    exact h.unnamed
  · intro hl
    rw [hloaded] at hl
    obtain ⟨ho, hs⟩ := h.unloaded hl
    rw [hs] at hsaves
    exact ⟨howed.trans ho, List.eq_nil_iff_forall_not_mem.mpr fun save hsave =>
      absurd (hsaves save hsave) List.not_mem_nil⟩
  · rw [hloaded, howed]
    exact fun hl => hcovers (h.live hl)
  · rw [hjournal]
    exact hcovers h.stored
  · rw [howed]
    exact hleft

end FlushWorld

namespace Pass

variable {startedAt : ℕ} {settled todo : List OwedObj} {pass : Pass} {owed : OwedObj}

theorem mem_left_next {next : Pass} (h : Pass.next startedAt settled todo = some next)
    {x : OwedObj} (hx : x ∈ next.left) : x ∈ todo := by
  cases todo with
  | nil =>
    rw [Pass.next] at h
    split at h
    · cases h
    · obtain ⟨⟩ := h
      exact hx
  | cons owed todo =>
    obtain ⟨⟩ := h
    exact hx

theorem mem_left_judge {rest : List Stage} {verdict : Verdict} {next : Pass}
    (h : pass.judge owed rest verdict = some next) {x : OwedObj} (hx : x ∈ next.left) :
    x ∈ owed :: pass.todo := by
  rw [judge] at h
  split at h
  · exact List.mem_cons_of_mem _ (mem_left_next h hx)
  · split at h
    · obtain ⟨⟩ := h
      exact hx
    · exact List.mem_cons_of_mem _ (mem_left_next h hx)

end Pass

namespace FlushWorld

variable {s s' : FlushWorld} {J : List OwedRecord} {vault : PendingTxs} {i : ℕ} {pass : Pass}

/-- After a step of one pass, the others have what they had. -/
private theorem left_update {next : Option Pass}
    (h : ∀ i pass, s.passes i = some pass → ∀ x ∈ pass.left, x ∈ s.owed)
    (hnext : ∀ pass, next = some pass → ∀ x ∈ pass.left, x ∈ s.owed) :
    ∀ j pass, update s.passes i next j = some pass → ∀ x ∈ pass.left, x ∈ s.owed := by
  intro j pass hj
  by_cases hji : j = i
  · subst hji
    rw [update_self] at hj
    exact hnext pass hj
  · rw [update_of_ne hji] at hj
    exact h j pass hj

private theorem Tracks.read {now : String} {fault : Bool} (h : s.Tracks J vault)
    (hstep : s.read i now fault = some s') : s'.Tracks J vault := by
  obtain ⟨pass, owed, stage, rest, hpass, hpc, hcases⟩ := read_cases hstep
  have hleft : ∀ x ∈ owed :: pass.todo, x ∈ s.owed := by
    have hl := h.left i pass hpass
    rwa [Pass.left, hpc] at hl
  have hjudge : ∀ verdict, (s.setPass i (pass.judge owed rest verdict)).Tracks J vault :=
    fun verdict => h.congr rfl rfl rfl rfl rfl (fun _ hs => hs) <|
      left_update h.left fun p hp x hx => hleft x (Pass.mem_left_judge hp hx)
  rcases hcases with rfl | ⟨-, rfl⟩ | ⟨-, rfl⟩
  · exact hjudge _
  · exact hjudge _
  · refine h.congr rfl rfl rfl rfl rfl (fun _ hs => hs) <| left_update h.left fun p hp => ?_
    obtain ⟨⟩ := hp
    exact hleft

/-- Once a vault holds what the stages of a record that is still owed have made of it, the
journals that left records out left them out rightly. -/
private theorem Tracks.setVault {memory disk : PendingTxs} {owed : OwedObj}
    (h : s.Tracks J vault) (hJ : Keyed.Distinct OwedRecord.pendingTxId J) (howed : owed ∈ s.owed)
    (hother : ∀ p, p ≠ owed.pendingTxId → memory p = s.memory p)
    (hcontinues : owed.val.Continues (s.memory owed.pendingTxId) (memory owed.pendingTxId))
    (hdisk : disk = memory ∨ disk = s.disk) : { s with memory, disk }.Tracks J vault := by
  have hloaded : s.loaded = true := by
    by_contra hl
    rw [(h.unloaded (Bool.not_eq_true _ ▸ hl)).1] at howed
    cases howed
  have hmem : owed.val ∈ J := (h.live hloaded).sublist.subset (List.mem_map_of_mem howed)
  have hne : ∀ o ∈ J, o ≠ owed.val → o.pendingTxId ≠ owed.pendingTxId := by
    intro o ho hne heq
    have hfind := (Keyed.find_eq_some hJ).mpr ⟨ho, heq⟩
    rw [(Keyed.find_eq_some hJ).mpr ⟨hmem, rfl⟩] at hfind
    exact hne (Option.some.inj hfind).symm
  have hcovers : ∀ {records}, s.Covers J records →
      { s with memory, disk }.Covers J records := by
    intro records hc
    refine ⟨hc.sublist, hc.owed, fun o ho hnot => ?_⟩
    have ho' : o ≠ owed.val := fun heq => hnot (heq ▸ hc.owed owed howed)
    obtain ⟨hm, hd⟩ := hc.settles o ho hnot
    have hm : o.Settles (memory o.pendingTxId) := by
      rw [hother o.pendingTxId (hne o ho ho')]
      exact hm
    refine ⟨hm, ?_⟩
    rcases hdisk with rfl | rfl
    · exact hm
    · exact hd
  have hnow : ∀ o ∈ J, o.Continues (vault o.pendingTxId) (memory o.pendingTxId) := by
    intro o ho
    by_cases heq : o = owed.val
    · subst heq
      exact (h.continues _ ho).1.trans hcontinues
    · rw [hother o.pendingTxId (hne o ho heq)]
      exact (h.continues o ho).1
  have hunnamed : ∀ p, (∀ o ∈ J, o.pendingTxId ≠ p) → memory p = vault p := by
    intro p hp
    rw [hother p (hp owed.val hmem).symm]
    exact (h.unnamed p hp).1
  refine ⟨fun o ho => ⟨hnow o ho, ?_⟩, fun p hp => ⟨hunnamed p hp, ?_⟩, h.unloaded,
    fun hl => hcovers (h.live hl), hcovers h.stored, fun save hs => hcovers (h.saving save hs),
    h.left⟩
  · rcases hdisk with rfl | rfl
    · exact hnow o ho
    · exact (h.continues o ho).2
  · rcases hdisk with rfl | rfl
    · exact hunnamed p hp
    · exact (h.unnamed p hp).2

private theorem Tracks.write {fault : Bool} (h : s.Tracks J vault)
    (hJ : Keyed.Distinct OwedRecord.pendingTxId J) (hs : s.Sound)
    (hstep : s.write i fault = some s') : s'.Tracks J vault := by
  obtain ⟨pass, owed, rest, settling, hpass, hpc, hcases⟩ := write_cases hstep
  have hleft : ∀ x ∈ owed :: pass.todo, x ∈ s.owed := by
    have hl := h.left i pass hpass
    rwa [Pass.left, hpc] at hl
  have hjudge : ∀ {t : FlushWorld} (verdict), t.Tracks J vault → t.owed = s.owed →
      (t.setPass i (pass.judge owed rest verdict)).Tracks J vault := by
    intro t verdict ht howed
    refine ht.congr rfl rfl rfl rfl rfl (fun _ hs => hs) <|
      left_update ht.left fun p hp x hx => ?_
    rw [howed]
    exact hleft x (Pass.mem_left_judge hp hx)
  rcases hcases with rfl | ⟨memory, disk, hmemory, hdisk, rfl⟩
  · exact hjudge _ h rfl
  · refine hjudge _ (h.setVault hJ (hleft owed (.head _)) ?_ ?_ hdisk) rfl
    · intro p hp
      rw [hmemory, update_of_ne hp]
    · have hsound := hs.pass i pass hpass
      rw [Pass.Sound, hpc] at hsound
      obtain ⟨-, hverdict, stage, now, ⟨start, hway⟩, hsettling⟩ := hsound
      rw [hmemory, update_self, hsettling]
      exact hway.continues (.inl (hsettling ▸ hverdict))

private theorem Tracks.toDisk (h : s.Tracks J vault) :
    { s with disk := s.memory }.Tracks J vault := by
  have hcovers : ∀ {records}, s.Covers J records →
      { s with disk := s.memory }.Covers J records := fun hc =>
    ⟨hc.sublist, hc.owed, fun o ho hnot => ⟨(hc.settles o ho hnot).1, (hc.settles o ho hnot).1⟩⟩
  exact ⟨fun o ho => ⟨(h.continues o ho).1, (h.continues o ho).1⟩,
    fun p hp => ⟨(h.unnamed p hp).1, (h.unnamed p hp).1⟩, h.unloaded, fun hl => hcovers (h.live hl),
    hcovers h.stored, fun save hs => hcovers (h.saving save hs), h.left⟩

private theorem Tracks.toMemory (h : s.Tracks J vault) :
    { s with memory := s.disk }.Tracks J vault := by
  have hcovers : ∀ {records}, s.Covers J records →
      { s with memory := s.disk }.Covers J records := fun hc =>
    ⟨hc.sublist, hc.owed, fun o ho hnot => ⟨(hc.settles o ho hnot).2, (hc.settles o ho hnot).2⟩⟩
  exact ⟨fun o ho => ⟨(h.continues o ho).2, (h.continues o ho).2⟩,
    fun p hp => ⟨(h.unnamed p hp).2, (h.unnamed p hp).2⟩, h.unloaded, fun hl => hcovers (h.live hl),
    hcovers h.stored, fun save hs => hcovers (h.saving save hs), h.left⟩

private theorem Tracks.save {fault : Bool} (h : s.Tracks J vault)
    (hstep : s.save i fault = some s') : s'.Tracks J vault := by
  obtain ⟨pass, hpass, hpc, hcases⟩ := save_cases hstep
  have hleft := h.left i pass hpass
  rw [Pass.left, hpc] at hleft
  rcases hcases with rfl | rfl
  · exact h.congr rfl rfl rfl rfl rfl (fun _ hs => hs) <| left_update h.left fun p hp => by cases hp
  · refine h.toDisk.congr rfl rfl rfl rfl rfl (fun _ hs => hs) <|
      left_update h.toDisk.left fun p hp => ?_
    obtain ⟨⟩ := hp
    exact hleft

/-- What a pass retires has nothing left to do, in memory and on disk. -/
theorem settles_of_retire (hs : s.Sound) (hstep : s.retire i = some s') {o : OwedObj}
    (ho : o ∈ s.owed) (hretired : o ∉ s'.owed) :
    o.val.Settles (s.memory o.pendingTxId) ∧ o.val.Settles (s.disk o.pendingTxId) := by
  obtain ⟨pass, hpass, hpc, rfl⟩ := retire_cases hstep
  have hsound := hs.pass i pass hpass
  rw [Pass.Sound, hpc] at hsound
  obtain ⟨hbetween, hdisk⟩ := hsound
  rw [persistOwed_owed] at hretired
  have hsettled : ∃ x ∈ pass.settled, x.ref = o.ref := by
    by_contra hno
    refine hretired (List.mem_filter.mpr ⟨ho, ?_⟩)
    simp only [decide_eq_true_eq]
    exact fun x hx href => hno ⟨x, hx, href⟩
  obtain ⟨x, hx, href⟩ := hsettled
  obtain rfl := hbetween.same o ho x (List.mem_append_left _ hx) href.symm
  exact ⟨hbetween.settles o hx, hdisk o hx⟩

private theorem Tracks.persistOwed (h : s.Tracks J vault) : s.persistOwed.Tracks J vault := by
  rw [FlushWorld.persistOwed]
  split
  · next hl =>
    have hcovers : ∀ {records}, s.Covers J records →
        { s with saves := s.saves ++ [s.owed.map OwedObj.val] }.Covers J records :=
      fun hc => hc.congr (fun o ho => ho) rfl rfl
    refine ⟨h.continues, h.unnamed, fun hl' => ?_, fun hl => hcovers (h.live hl),
      hcovers h.stored, fun save hsave => ?_, h.left⟩
    · cases hl.symm.trans hl'
    · rcases List.mem_append.mp hsave with hsave | hsave
      · exact hcovers (h.saving save hsave)
      · rw [List.mem_singleton.mp hsave]
        exact hcovers (h.live hl)
  · exact h

private theorem Tracks.retire (h : s.Tracks J vault) (hs : s.Sound)
    (hstep : s.retire i = some s') : s'.Tracks J vault := by
  have hsettles := fun {o} => settles_of_retire (o := o) hs hstep
  obtain ⟨pass, hpass, hpc, rfl⟩ := retire_cases hstep
  have hnone : ∀ j pass', update s.passes i none j = some pass' → False := by
    intro j pass' hj
    by_cases hji : j = i
    · simp [hji] at hj
    · rw [update_of_ne hji] at hj
      exact hji (hs.alone j i (by simp [hj]) (by simp [hpass]))
  generalize howed : (s.owed.filter fun o => ∀ x ∈ pass.settled, x.ref ≠ o.ref) = owed at *
  have hsub : owed.Sublist s.owed := howed ▸ List.filter_sublist
  have ht : ({ s with owed }.setPass i none).Tracks J vault := by
    have hcovers : ∀ {records}, s.Covers J records →
        ({ s with owed }.setPass i none).Covers J records :=
      fun hc => hc.congr (fun o ho => hsub.subset ho) rfl rfl
    refine ⟨h.continues, h.unnamed, fun hl => ?_, fun hl => ?_, hcovers h.stored,
      fun save hsave => hcovers (h.saving save hsave), fun j p hj => (hnone j p hj).elim⟩
    · obtain ⟨hempty, hsaves⟩ := h.unloaded hl
      exact ⟨List.sublist_nil.mp (hempty ▸ hsub), hsaves⟩
    · have hc := h.live hl
      refine ⟨(hsub.map _).trans hc.sublist, fun o ho => List.mem_map_of_mem ho, fun o ho hnot => ?_⟩
      by_cases hlive : o ∈ s.owed.map OwedObj.val
      · obtain ⟨x, hx, rfl⟩ := List.mem_map.mp hlive
        refine hsettles hx fun hkept => hnot (List.mem_map_of_mem ?_)
        rw [persistOwed_owed] at hkept
        exact hkept
      · exact hc.settles o ho hlive
  exact ht.persistOwed

private theorem Tracks.load (h : s.Tracks J vault) (hstep : s.load = some s') :
    s'.Tracks J vault := by
  rw [FlushWorld.load] at hstep
  split at hstep
  · cases hstep
  · next hl =>
    obtain ⟨hempty, hsaves⟩ := h.unloaded (Bool.not_eq_true _ ▸ hl)
    simp only [hempty, List.isEmpty_nil, if_true] at hstep
    have hread := Journal.mergeOwedSettlements_nil s.journal s.nextRef
    generalize mergeOwedSettlements [] s.journal [] s.nextRef [] = merged at hstep hread
    obtain ⟨⟩ := hstep
    have hstored : Covers { s with owed := merged.1, nextRef := merged.2, loaded := true } J
        (restoredJournal s.journal) :=
      ⟨h.stored.sublist, fun o ho => hread ▸ List.mem_map_of_mem ho, h.stored.settles⟩
    refine ⟨h.continues, h.unnamed, fun hl => Bool.noConfusion hl, fun _ => ?_, hstored, ?_, ?_⟩
    · rw [hread]
      exact hstored
    · intro save hsave
      have hsave : save ∈ s.saves := hsave
      rw [hsaves] at hsave
      cases hsave
    · intro i pass hi x hx
      have hx := h.left i pass hi x hx
      rw [hempty] at hx
      cases hx

private theorem Tracks.begin (h : s.Tracks J vault) (hstep : s.begin i = some s') :
    s'.Tracks J vault := by
  rw [FlushWorld.begin] at hstep
  split at hstep
  · obtain ⟨⟩ := hstep
    exact h.congr rfl rfl rfl rfl rfl (fun _ hs => hs) <|
      left_update h.left fun p hp x hx => Pass.mem_left_next hp hx
  · cases hstep

private theorem Tracks.journalLands {k : ℕ} {save : List OwedRecord} (h : s.Tracks J vault)
    (hJ : ∃ journal, J = restoredJournal journal) (hsave : save ∈ s.saves) :
    { s with journal := save, saves := s.saves.eraseIdx k }.Tracks J vault := by
  have hcovers : ∀ {records}, s.Covers J records →
      { s with journal := save, saves := s.saves.eraseIdx k }.Covers J records :=
    fun hc => hc.congr (fun o ho => ho) rfl rfl
  refine ⟨h.continues, h.unnamed, fun hl => ?_, fun hl => hcovers (h.live hl), ?_, ?_, h.left⟩
  · obtain ⟨hempty, hsaves⟩ := h.unloaded hl
    rw [hsaves] at hsave
    cases hsave
  · have hc := h.saving save hsave
    obtain ⟨journal, rfl⟩ := hJ
    rw [Journal.restoredJournal_of_sublist hc.sublist]
    exact hcovers hc
  · exact fun save' hsave' => hcovers (h.saving save' (List.mem_of_mem_eraseIdx hsave'))

private theorem Tracks.crash (h : s.Tracks J vault) : s.crash.Tracks J vault := by
  have hc := h.toMemory.stored
  have hstored : s.crash.Covers J (restoredJournal s.journal) :=
    ⟨hc.sublist, fun o ho => (List.not_mem_nil ho).elim, hc.settles⟩
  exact ⟨h.toMemory.continues, h.toMemory.unnamed, fun _ => ⟨rfl, rfl⟩, fun hl => (nomatch hl),
    hstored, fun save hsave => (List.not_mem_nil hsave).elim, fun i pass hi => (nomatch hi)⟩

private theorem Tracks.lock (h : s.Tracks J vault) : s.lock.Tracks J vault := by
  refine h.toMemory.congr rfl rfl rfl rfl rfl (fun _ hs => hs) fun i pass hi => ?_
  have hi : (s.passes i).filter (fun pass => Retires pass) = some pass := hi
  exact h.left i pass (Option.filter_eq_some_iff.mp hi).1

/-- One step that records nothing and begins no pass beside another. -/
theorem Tracks.step {a : FlushAct} (h : s.Tracks J vault)
    (hJ : ∃ journal, J = restoredJournal journal) (hs : s.Sound) (hkeeps : a.KeepsJournal)
    (hstep : s.step a = some s') : s'.Tracks J vault := by
  cases a with
  | load => exact h.load hstep
  | record record => exact hkeeps.elim
  | journalLands k =>
    obtain ⟨save, hsave, rfl⟩ := Option.map_eq_some_iff.mp hstep
    exact h.journalLands hJ (List.mem_of_getElem? hsave)
  | journalRefused k =>
    obtain ⟨⟩ := hstep
    exact h.congr rfl rfl rfl rfl rfl (fun _ hs => List.mem_of_mem_eraseIdx hs) h.left
  | begin i => exact h.begin hstep
  | read i now fault => exact h.read hstep
  | write i fault =>
    obtain ⟨journal, rfl⟩ := hJ
    exact h.write (Journal.distinct_restoredJournal journal) hs hstep
  | save i fault => exact h.save hstep
  | retire i => exact h.retire hs hstep
  | lock =>
    obtain ⟨⟩ := hstep
    exact h.lock
  | crash =>
    obtain ⟨⟩ := hstep
    exact h.crash

theorem Tracks.boot (autoSave : Bool) (journal : List OwedRecord) (vault : PendingTxs) :
    (boot autoSave journal vault).Tracks (restoredJournal journal) vault where
  continues := fun owed _ => ⟨.refl _ _, .refl _ _⟩
  unnamed := fun _ _ => ⟨rfl, rfl⟩
  unloaded := fun _ => ⟨rfl, rfl⟩
  live := fun hl => by cases hl
  stored := ⟨.refl _, fun o ho => (List.not_mem_nil ho).elim, fun o ho hnot => absurd ho hnot⟩
  saving := fun save hsave => (List.not_mem_nil hsave).elim
  left := fun i pass hi => by cases hi

/-- What is due leaves out only what the vault leaves nothing to do. -/
theorem Tracks.due (h : s.Tracks J vault) : s.Covers J s.due := by
  rw [FlushWorld.due]
  split
  · next hl => exact h.live hl
  · exact h.stored

/-- From every tracked state one more complete flush ends as the first one would have. -/
theorem Tracks.completeFlush_due (h : s.Tracks J vault)
    (hJ : Keyed.Distinct OwedRecord.pendingTxId J) (clock : OwedRecord → String) :
    ∃ clock', completeFlush clock s.due s.disk = completeFlush clock' J vault := by
  have hdue := h.due
  have hdistinct := hJ.sublist (hdue.sublist.map _)
  have hclock : ∀ owed ∈ J, ∃ now, completeFlush clock s.due s.disk owed.pendingTxId =
      owed.replay now (vault owed.pendingTxId) := by
    intro owed howed
    by_cases hmem : owed ∈ s.due
    · rw [completeFlush_of_mem hdistinct hmem]
      exact (h.continues owed howed).2 _
    · -- retired, so that a replay on the stored vault would do nothing
      have hnamed : ∀ o ∈ s.due, o.pendingTxId ≠ owed.pendingTxId := by
        intro o ho heq
        have hfind := (Keyed.find_eq_some hJ).mpr ⟨hdue.sublist.subset ho, heq⟩
        rw [(Keyed.find_eq_some hJ).mpr ⟨howed, rfl⟩] at hfind
        exact hmem (Option.some.inj hfind ▸ ho)
      rw [completeFlush_of_not_named hnamed, ← (hdue.settles owed howed hmem).2 ""]
      exact (h.continues owed howed).2 _
  classical
  choose! clock' hclock' using hclock
  refine ⟨clock', funext fun p => ?_⟩
  by_cases hp : ∃ owed ∈ J, owed.pendingTxId = p
  · obtain ⟨owed, howed, rfl⟩ := hp
    rw [hclock' owed howed, completeFlush_of_mem hJ howed]
  · have hunnamed : ∀ owed ∈ J, owed.pendingTxId ≠ p := fun owed howed heq =>
      hp ⟨owed, howed, heq⟩
    rw [completeFlush_of_not_named hunnamed,
      completeFlush_of_not_named fun o ho => hunnamed o (hdue.sublist.subset ho)]
    exact (h.unnamed p hunnamed).2

end FlushWorld

/-! ### A pass that nothing disturbs -/

namespace FlushWorld

variable {s : FlushWorld} {i : ℕ} {pass : Pass} {owed : OwedObj} {now : String}

variable (now)

/-- The pass has replayed a stage, and the vault has taken its write. -/
private theorem run_stage {stage : Stage} {rest : List Stage} (hpass : s.passes i = some pass)
    (hpc : pass.pc = .reading owed (stage :: rest)) :
    ∃ as disk, run step s as = some ({ s with
          memory := update s.memory owed.pendingTxId
            ((stage.settle now (s.memory owed.pendingTxId)).result (s.memory owed.pendingTxId)),
          disk }.setPass i
        (pass.judge owed rest (stage.settle now (s.memory owed.pendingTxId)).verdict)) := by
  have hunchanged : update s.memory owed.pendingTxId (s.memory owed.pendingTxId) =
      s.memory := update_eq_self _ _
  have hwrite : ∀ settling, s.step (.read i now false) =
        some (s.setPass i (some { pass with pc := .writing owed rest settling })) →
      ∃ as disk, run step s as = some ({ s with
          memory := update s.memory owed.pendingTxId
            (settling.result (s.memory owed.pendingTxId)),
          disk }.setPass i (pass.judge owed rest .settled)) := by
    intro settling hread
    set memory := update s.memory owed.pendingTxId
      (settling.result (s.memory owed.pendingTxId))
    refine ⟨[.read i now false, .write i false], if s.autoSave then memory else s.disk, ?_⟩
    refine run_cons_eq_some.mpr ⟨_, hread, run_cons_eq_some.mpr ⟨_, ?_, rfl⟩⟩
    change write _ i false = _
    rw [write]
    simp only [setPass_passes, update_self, Bool.false_eq_true, if_false]
    rw [setPass, setPass]
    simp only [update_idem]
    rfl
  cases hsettle : stage.settle now (s.memory owed.pendingTxId) with
  | closed =>
    have hread : s.step (.read i now false) =
        some (s.setPass i (pass.judge owed rest .closed)) := by
      change s.read i now false = _
      simp only [read, hpass, hpc, hsettle, Bool.false_eq_true, if_false]
    refine ⟨[.read i now false], s.disk, run_cons_eq_some.mpr ⟨_, hread, ?_⟩⟩
    simp only [Settling.result, hunchanged]
    rfl
  | done =>
    have hread : s.step (.read i now false) =
        some (s.setPass i (pass.judge owed rest .settled)) := by
      change s.read i now false = _
      simp only [read, hpass, hpc, hsettle, Bool.false_eq_true, if_false]
    refine ⟨[.read i now false], s.disk, run_cons_eq_some.mpr ⟨_, hread, ?_⟩⟩
    simp only [Settling.result, hunchanged]
    rfl
  | put record | delete =>
    refine hwrite _ ?_
    change s.read i now false = _
    simp only [read, hpass, hpc, hsettle, Bool.false_eq_true, if_false]

/-- The pass has replayed a record. -/
private theorem run_stages (pass : Pass) {stages : List Stage} (hstages : stages ≠ [])
    (hpass : s.passes i = some { pass with pc := .reading owed stages }) :
    ∃ as disk, run step s as = some ({ s with
          memory := update s.memory owed.pendingTxId
            (owed.val.replayFrom now stages (s.memory owed.pendingTxId)),
          disk }.setPass i (Pass.next pass.startedAt (pass.settled ++ [owed]) pass.todo)) := by
  induction stages generalizing s with
  | nil => exact absurd rfl hstages
  | cons stage rest ih =>
    obtain ⟨as, disk, hrun⟩ := run_stage now hpass rfl
    set settling := stage.settle now (s.memory owed.pendingTxId) with hsettling
    have hverdict : settling.verdict ≠ .unreachable := by
      cases settling <;> simp [Settling.verdict]
    by_cases hgo : owed.val.goesOn settling.verdict ∧ rest ≠ []
    · rw [Pass.judge, if_neg hverdict, if_pos hgo] at hrun
      obtain ⟨as', disk', hrun'⟩ := ih (s := { s with
          memory := update s.memory owed.pendingTxId
            (settling.result (s.memory owed.pendingTxId)),
          disk }.setPass i (some { pass with pc := .reading owed rest })) hgo.2 (by
        rw [setPass_passes, update_self])
      refine ⟨as ++ as', disk', run_append_eq_some.mpr ⟨_, hrun, hrun'.trans ?_⟩⟩
      rw [OwedRecord.replayFrom, if_pos hgo.1]
      simp only [setPass, update_self, update_idem, hsettling]
    · rw [Pass.judge, if_neg hverdict, if_neg hgo] at hrun
      refine ⟨as, disk, hrun.trans ?_⟩
      rw [OwedRecord.replayFrom]
      split
      · next hgoes =>
        obtain rfl : rest = [] := by_contra fun hrest => hgo ⟨hgoes, hrest⟩
        rfl
      · rfl

/-- The pass has replayed all its records. -/
private theorem run_records (startedAt : ℕ) (settled todo : List OwedObj)
    (hpass : s.passes i = Pass.next startedAt settled todo) :
    ∃ as disk, run step s as = some ({ s with
          memory := completeFlush (fun _ => now) (todo.map OwedObj.val) s.memory,
          disk }.setPass i (Pass.next startedAt (settled ++ todo) [])) := by
  induction todo generalizing s settled with
  | nil =>
    refine ⟨[], s.disk, ?_⟩
    rw [List.append_nil, ← hpass, setPass]
    simp only [update_eq_self]
    rfl
  | cons owed todo ih =>
    obtain ⟨as, disk, hrun⟩ := run_stages now
      { startedAt, todo, settled, pc := .saving } owed.val.stages_ne_nil hpass
    obtain ⟨as', disk', hrun'⟩ := ih (s := { s with
        memory := update s.memory owed.pendingTxId
          (owed.val.replayFrom now owed.val.stages (s.memory owed.pendingTxId)),
        disk }.setPass i (Pass.next startedAt (settled ++ [owed]) todo)) (settled ++ [owed]) (by
      rw [setPass_passes, update_self])
    refine ⟨as ++ as', disk', run_append_eq_some.mpr ⟨_, hrun, hrun'.trans ?_⟩⟩
    simp only [setPass, update_idem, List.append_assoc, List.singleton_append]
    rfl

/-- A pass that nothing disturbs is one complete flush. -/
theorem complete_pass (hpass : s.passes i = none) (howed : s.owed ≠ []) :
    ∃ as s', run step s (.begin i :: as) = some s' ∧
      s'.memory = completeFlush (fun _ => now) (s.owed.map OwedObj.val) s.memory ∧
      s'.disk = s'.memory ∧ s'.owed = [] := by
  have hstarted : (s.setPass i (Pass.next s.nextRef [] s.owed)).passes i =
      Pass.next s.nextRef [] s.owed := by
    rw [setPass_passes, update_self]
  obtain ⟨as, disk, hrun⟩ := run_records now s.nextRef [] s.owed hstarted
  rw [List.nil_append, Pass.next, if_neg (by simpa using howed)] at hrun
  set memory := completeFlush (fun _ => now) (s.owed.map OwedObj.val) s.memory
  let saving : Pass := { startedAt := s.nextRef, todo := [], settled := s.owed, pc := .saving }
  let t := { s with memory, disk }.setPass i (some saving)
  have ht : run step (s.setPass i (Pass.next s.nextRef [] s.owed)) as = some t := by
    refine hrun.trans ?_
    simp only [setPass, update_idem]
    rfl
  let u := { t with disk := memory }.setPass i (some { saving with pc := .retiring })
  have hsave : t.step (.save i false) = some u := by
    change t.save i false = _
    rw [save]
    simp [t, u, saving, setPass]
  have hretire : u.step (.retire i) = some ({ u with owed := [] }.setPass i none).persistOwed := by
    change u.retire i = _
    rw [retire]
    have hempty : (s.owed.filter fun o => ∀ x ∈ s.owed, x.ref ≠ o.ref) = [] := by
      refine List.filter_eq_nil_iff.mpr fun o ho => ?_
      simp only [decide_eq_true_eq]
      exact fun h => h o ho rfl
    simp only [u, t, saving, setPass, update_self, hempty]
  have hbegin : s.step (.begin i) = some (s.setPass i (Pass.next s.nextRef [] s.owed)) :=
    if_pos ⟨hpass, howed⟩
  refine ⟨as ++ [.save i false, .retire i], _, run_cons_eq_some.mpr ⟨_, hbegin,
    run_append_eq_some.mpr ⟨_, ht, run_cons_eq_some.mpr ⟨_, hsave,
      run_cons_eq_some.mpr ⟨_, hretire, rfl⟩⟩⟩⟩, ?_, ?_, ?_⟩
  · rw [persistOwed_memory]
    rfl
  · rw [persistOwed_memory, persistOwed_disk]
    rfl
  · rw [persistOwed_owed]
    rfl

/-- One failed broadcast is due: the pass writes it, saves it and retires it. -/
theorem complete_pass_failed :
    let owed : OwedRecord :=
      { id := "s-1", walletId := none, pendingTxId := "p", op := .patch,
        patch := some { status := some .failed, error := some (some "refused") }, recordedAt := 1 }
    let signed : PendingTx :=
      { id := "p", chain := "bitcoin", network := "mainnet", fromAddress := "a",
        actionSummary := "", createdAt := "", status := .queued }
    let s := { boot true [] (fun _ => some signed) with loaded := true, owed := [⟨0, owed⟩] }
    ∃ as s', run step s (.begin 0 :: as) = some s' ∧
      (s'.disk "p").map PendingTx.status = some .failed ∧ s'.owed = [] := by
  intro owed signed s
  obtain ⟨as, s', hrun, hmemory, hdisk, howed⟩ :=
    @complete_pass s 0 "now" rfl (by simp [s])
  refine ⟨as, s', hrun, ?_, howed⟩
  rw [hdisk, hmemory]
  decide

end FlushWorld

/-! ### Runs -/

section Runs

variable {autoSave : Bool} {journal : List OwedRecord} {vault : PendingTxs} {as : List FlushAct}
  {s : FlushWorld}

private theorem sound_of_run (halone : Transition.Under BeginsAlone step
      (boot autoSave journal vault) as)
    (hrun : run step (boot autoSave journal vault) as = some s) :
    s.Sound :=
  run_invariant_of_under (fun _ _ _ hs ha hstep => hs.step ha hstep)
    (FlushWorld.Sound.boot autoSave journal vault) halone hrun

private theorem tracks_of_run (halone : Transition.Under BeginsAlone step
      (boot autoSave journal vault) as)
    (hrun : run step (boot autoSave journal vault) as = some s)
    (hkeeps : ∀ a ∈ as, a.KeepsJournal) : s.Tracks (restoredJournal journal) vault := by
  have hmain : ∀ {r : FlushWorld} {as : List FlushAct}, r.Sound →
      r.Tracks (restoredJournal journal) vault →
      Transition.Under BeginsAlone step r as → (∀ a ∈ as, a.KeepsJournal) →
      run step r as = some s → s.Tracks (restoredJournal journal) vault := by
    intro r as hr ht halone hkeeps hrun
    induction as generalizing r with
    | nil => exact Option.some.inj hrun ▸ ht
    | cons a as ih =>
      obtain ⟨r', hstep, hrest⟩ := run_cons_eq_some.mp hrun
      exact ih (hr.step halone.1 hstep)
        (ht.step ⟨journal, rfl⟩ hr (hkeeps a (.head _)) hstep) (halone.2 r' hstep)
        (fun b hb => hkeeps b (.tail _ hb)) hrest
  exact hmain (.boot autoSave journal vault) (.boot autoSave journal vault) halone hkeeps hrun

/-- **Any number of passes are one complete flush.** In a run in which no pass begins while
another one is under way: as long as no write is recorded, one more complete flush of what is
due leaves the stored vault as one complete flush of the first journal over the first vault
does, wherever passes were cut off; a pass retires a record only when its replay on the stored
vault would do nothing; and what has entered the journal while the pass was under way stays. -/
theorem flush_restarts (halone : Transition.Under BeginsAlone FlushWorld.step
      (FlushWorld.boot autoSave journal vault) as)
    (hrun : run FlushWorld.step (FlushWorld.boot autoSave journal vault) as = some s) :
    ((∀ a ∈ as, a.KeepsJournal) → ∀ clock, ∃ clock',
      completeFlush clock s.due s.disk = completeFlush clock' (restoredJournal journal) vault) ∧
    (∀ i s', s.step (.retire i) = some s' → ∀ o ∈ s.owed, o ∉ s'.owed →
      o.val.Settles (s.disk o.pendingTxId)) ∧
    ∀ i bs t u, Transition.Under BeginsAlone FlushWorld.step s bs → .begin i ∉ bs →
      run FlushWorld.step s bs = some t → t.step (.retire i) = some u →
      ∀ o ∈ t.owed, o ∉ s.owed → o ∈ u.owed := by
  have hsound := sound_of_run halone hrun
  refine ⟨fun hkeeps clock => ?_, fun i s' hstep o ho hretired => ?_, ?_⟩
  · have htracks := tracks_of_run halone hrun hkeeps
    exact htracks.completeFlush_due (Journal.distinct_restoredJournal journal) clock
  · exact (FlushWorld.settles_of_retire hsound hstep ho hretired).2
  · intro i bs t u halone hsame hrun hretire o ho hnew
    exact FlushWorld.retire_keeps hsound halone hsame hrun hretire ho hnew

end Runs

/-- A process ends between the save of its vault and the retiring of the record. The next one
reads the record back, and a replay of it over its own result is the flush that was cut off. -/
theorem flush_restarts_after_crash :
    let owed : OwedRecord :=
      { id := "s-1", walletId := some "w1", pendingTxId := "p", op := .patch,
        patch := some { status := some .failed, error := some (some "refused") }, recordedAt := 1 }
    let signed : PendingTx :=
      { id := "p", chain := "bitcoin", network := "mainnet", fromAddress := "a",
        actionSummary := "", createdAt := "", status := .queued }
    let vault : PendingTxs := fun p => if p = "p" then some signed else none
    ∃ s, run FlushWorld.step (FlushWorld.boot false [owed] vault)
        [.load, .begin 0, .read 0 "now" false, .write 0 false, .save 0 false, .crash] = some s ∧
      s.due = [owed] ∧ (s.disk "p").map PendingTx.status = some .failed ∧
      ∃ clock', completeFlush (fun _ => "later") s.due s.disk =
        completeFlush clock' (restoredJournal [owed]) vault := by
  intro owed signed vault
  have hrun : (run FlushWorld.step (FlushWorld.boot false [owed] vault)
        [.load, .begin 0, .read 0 "now" false, .write 0 false, .save 0 false, .crash]).map
      (fun s => (s.due, (s.disk "p").map PendingTx.status)) =
        some ([owed], some .failed) := by
    decide
  obtain ⟨s, hrun, hend⟩ := Option.map_eq_some_iff.mp hrun
  obtain ⟨hdue, hdisk⟩ := Prod.mk.inj hend
  have halone : Transition.Under BeginsAlone FlushWorld.step (FlushWorld.boot false [owed] vault)
      [.load, .begin 0, .read 0 "now" false, .write 0 false, .save 0 false, .crash] := by
    refine ⟨fun i hi => (nomatch hi), fun t ht => ⟨fun i _ j => ?_, fun u _ => ?_⟩⟩
    · obtain ⟨-, -, -, hpasses, -⟩ := FlushWorld.load_spec ht (Journal.Sound.nil _)
      rw [hpasses]
      rfl
    · refine Transition.Under.mono (fun _ a (ha : ∀ i, a ≠ FlushAct.begin i) i hi => ha i hi |>.elim)
        (under_of_forall_mem (p := fun a => ∀ i, a ≠ FlushAct.begin i) ?_)
      simp
  refine ⟨s, hrun, hdue, hdisk, (flush_restarts halone hrun).1 (fun a ha => ?_) _⟩
  simp only [List.mem_cons, List.not_mem_nil, or_false] at ha
  rcases ha with rfl | rfl | rfl | rfl | rfl | rfl <;> trivial

/-- Two passes over one discard that carries a patch. The second has read the record to patch it
when the first one deletes it, and its write brings the record back. The first pass saves that
and retires the discard; the second one is refused the rest. The record stays 'queued' with no
write owed to it, where one complete flush deletes it. -/
theorem overlapping_passes_lose_a_discard :
    let owed : OwedRecord :=
      { id := "s-1", walletId := some "w1", pendingTxId := "p", op := .discard,
        patch := some { status := some .queued, error := some (some "timeout") }, recordedAt := 1 }
    let signed : PendingTx :=
      { id := "p", chain := "bitcoin", network := "mainnet", fromAddress := "a",
        actionSummary := "", createdAt := "", status := .queued }
    let vault : PendingTxs := fun p => if p = "p" then some signed else none
    let overlap : List FlushAct :=
      [.load, .begin 0, .read 0 "now" false, .write 0 false, .begin 1, .read 0 "now" false,
        .read 1 "now" false, .write 0 false, .write 1 false, .save 0 false]
    ∃ s s', run FlushWorld.step (FlushWorld.boot true [owed] vault) overlap = some s ∧
      (s.disk "p").map PendingTx.status = some .queued ∧
      run FlushWorld.step s [.retire 0, .journalLands 0, .read 1 "now" true] =
        some s' ∧
      s'.due = [] ∧ s'.journal = [] ∧ (s'.passes 0).isNone ∧ (s'.passes 1).isNone ∧
      (s'.disk "p").map PendingTx.status = some .queued ∧
      ∀ clock clock', completeFlush clock s'.due s'.disk "p" ≠
        completeFlush clock' (restoredJournal [owed]) vault "p" := by
  intro owed signed vault overlap
  have hoverlap : (run FlushWorld.step (FlushWorld.boot true [owed] vault) overlap).map
      (fun s => (s.disk "p").map PendingTx.status) = some (some .queued) := by
    decide
  obtain ⟨s, hrun, hdisk⟩ := Option.map_eq_some_iff.mp hoverlap
  have hend : (run FlushWorld.step (FlushWorld.boot true [owed] vault)
        (overlap ++ [.retire 0, .journalLands 0, .read 1 "now" true])).map
      (fun s' => (s'.due, s'.journal, (s'.passes 0).isNone, (s'.passes 1).isNone,
        (s'.disk "p").map PendingTx.status)) = some ([], [], true, true, some .queued) := by
    decide
  obtain ⟨s', hrun', hend⟩ := Option.map_eq_some_iff.mp hend
  obtain ⟨t, ht, hrest⟩ := run_append_eq_some.mp hrun'
  obtain rfl := Option.some.inj (hrun.symm.trans ht)
  simp only [Prod.mk.injEq] at hend
  obtain ⟨hdue, hjournal, hfirst, hsecond, hqueued⟩ := hend
  refine ⟨s, s', hrun, hdisk, hrest, hdue, hjournal, hfirst, hsecond, hqueued, ?_⟩
  intro clock clock' h
  have hdeleted : completeFlush clock' (restoredJournal [owed]) vault "p" = none := rfl
  rw [hdeleted, hdue, completeFlush, List.foldl_nil] at h
  rw [h] at hqueued
  cases hqueued

end XchainWallet
