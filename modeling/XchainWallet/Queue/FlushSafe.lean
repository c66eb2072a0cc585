import XchainWallet.Queue.Flush
import XchainWallet.Queue.Restart

/-!
# Passes that do not overlap

While no pass begins beside another one (`BeginsAlone`), nothing changes a `PendingTx` between
the read of a pass and its write. Then a pass that is under way has come through the first stages
of its record, what it has settled has nothing left to do in the vault in memory, and after the
save on disk (`Pass.Sound`). `FlushWorld.Sound.step` is the step lemma.
-/

namespace XchainWallet

open Function

variable {s s' : FlushWorld}

/-! ### One pass -/

/-- A pass between two records: it may have settled only records it has copied from the journal,
each of another `PendingTx`, and the vault in memory leaves their replay nothing to do. -/
structure Pass.Between (s : FlushWorld) (startedAt : ℕ) (settled todo : List OwedObj) : Prop where
  startedAt_le : startedAt ≤ s.nextRef
  ref_lt : ∀ x ∈ settled ++ todo, x.ref < startedAt
  same : ∀ o ∈ s.owed, ∀ x ∈ settled ++ todo, o.ref = x.ref → o = x
  distinct : Keyed.Distinct OwedObj.pendingTxId (settled ++ todo)
  settles : ∀ x ∈ settled, x.val.Settles (s.memory x.pendingTxId)

/-- The replay of the record has come to `stages` in the vault in memory. -/
def FlushWorld.Replays (s : FlushWorld) (owed : OwedObj) (stages : List Stage) : Prop :=
  ∃ start, owed.val.OnTheWay start stages (s.memory owed.pendingTxId)

/-- A pass under way. -/
def Pass.Sound (s : FlushWorld) (pass : Pass) : Prop :=
  match pass.pc with
  | .reading owed stages =>
    Between s pass.startedAt pass.settled (owed :: pass.todo) ∧ s.Replays owed stages
  | .writing owed rest settling =>
    Between s pass.startedAt pass.settled (owed :: pass.todo) ∧ settling.verdict = .settled ∧
      ∃ stage now, s.Replays owed (stage :: rest) ∧
        settling = stage.settle now (s.memory owed.pendingTxId)
  | .saving => Between s pass.startedAt pass.settled pass.todo
  | .retiring =>
    Between s pass.startedAt pass.settled pass.todo ∧
      ∀ x ∈ pass.settled, x.val.Settles (s.disk x.pendingTxId)

namespace Pass

variable {startedAt : ℕ} {settled todo : List OwedObj} {pass : Pass} {owed : OwedObj}

theorem Sound.startedAt_le (h : pass.Sound s) : pass.startedAt ≤ s.nextRef := by
  rw [Sound] at h
  split at h
  · exact h.1.startedAt_le
  · exact h.1.startedAt_le
  · exact h.startedAt_le
  · exact h.1.startedAt_le

theorem Between.sound_next (h : Between s startedAt settled todo)
    (hnext : next startedAt settled todo = some pass) : pass.Sound s := by
  cases todo with
  | nil =>
    rw [next] at hnext
    split at hnext
    · cases hnext
    · obtain ⟨⟩ := hnext
      exact h
  | cons owed todo =>
    obtain ⟨⟩ := hnext
    exact ⟨h, _, .start⟩

/-- The loop leaves a record that it has not settled. -/
theorem Between.skip (h : Between s startedAt settled (owed :: todo)) :
    Between s startedAt settled todo := by
  have hsub : (settled ++ todo).Sublist (settled ++ owed :: todo) :=
    (List.sublist_cons_self owed todo).append_left settled
  exact ⟨h.startedAt_le, fun x hx => h.ref_lt x (hsub.subset hx),
    fun o ho x hx => h.same o ho x (hsub.subset hx), h.distinct.sublist (hsub.map _), h.settles⟩

/-- The loop leaves a record that it has settled. -/
theorem Between.settle (h : Between s startedAt settled (owed :: todo))
    (hsettles : owed.val.Settles (s.memory owed.pendingTxId)) :
    Between s startedAt (settled ++ [owed]) todo := by
  have happend : settled ++ [owed] ++ todo = settled ++ owed :: todo := by simp
  refine ⟨h.startedAt_le, ?_, ?_, ?_, fun x hx => ?_⟩
  · rw [happend]
    exact h.ref_lt
  · rw [happend]
    exact h.same
  · rw [happend]
    exact h.distinct
  · rcases List.mem_append.mp hx with hx | hx
    · exact h.settles x hx
    · rw [List.mem_singleton.mp hx]
      exact hsettles

/-- The verdict on a stage that was run on the vault in memory. -/
theorem Between.sound_judge {rest : List Stage} {verdict : Verdict} {next : Pass}
    (h : Between s pass.startedAt pass.settled (owed :: pass.todo))
    (hsettled : ¬owed.val.goesOn verdict ∨ rest = [] → verdict ≠ .unreachable →
      owed.val.Settles (s.memory owed.pendingTxId))
    (hgoes : owed.val.goesOn verdict → s.Replays owed rest)
    (hjudge : pass.judge owed rest verdict = some next) : next.Sound s := by
  rw [judge] at hjudge
  split at hjudge
  · exact h.skip.sound_next hjudge
  · next hreached =>
    split at hjudge
    · next hgo =>
      obtain ⟨⟩ := hjudge
      exact ⟨h, hgoes hgo.1⟩
    · next hstop =>
      refine (h.settle (hsettled ?_ hreached)).sound_next hjudge
      by_cases hgo : owed.val.goesOn verdict
      · exact .inr (by_contra fun hrest => hstop ⟨hgo, hrest⟩)
      · exact .inl hgo

end Pass

/-- What enters the journal meanwhile concerns no pass. -/
theorem Pass.Between.mono {startedAt : ℕ} {settled todo : List OwedObj}
    (h : Between s startedAt settled todo) (hnext : s.nextRef ≤ s'.nextRef)
    (howed : ∀ o ∈ s'.owed, o ∈ s.owed ∨ s.nextRef ≤ o.ref)
    (hmemory : ∀ x ∈ settled, s'.memory x.pendingTxId = s.memory x.pendingTxId) :
    Between s' startedAt settled todo where
  startedAt_le := Nat.le_trans h.startedAt_le hnext
  ref_lt := h.ref_lt
  same := by
    intro o ho x hx href
    rcases howed o ho with ho | hnew
    · exact h.same o ho x hx href
    · have hlt := Nat.lt_of_lt_of_le (h.ref_lt x hx) h.startedAt_le
      exact absurd href (Nat.ne_of_gt (Nat.lt_of_lt_of_le hlt hnew))
  distinct := h.distinct
  settles := by
    intro x hx
    rw [hmemory x hx]
    exact h.settles x hx

theorem Pass.Sound.mono {pass : Pass} (h : pass.Sound s) (hnext : s.nextRef ≤ s'.nextRef)
    (howed : ∀ o ∈ s'.owed, o ∈ s.owed ∨ s.nextRef ≤ o.ref) (hmemory : s'.memory = s.memory)
    (hdisk : s'.disk = s.disk) : pass.Sound s' := by
  have hmono : ∀ {settled todo}, Between s pass.startedAt settled todo →
      Between s' pass.startedAt settled todo :=
    fun h => h.mono hnext howed fun _ _ => by rw [hmemory]
  rw [Sound] at h ⊢
  split at h
  · exact ⟨hmono h.1, by rw [FlushWorld.Replays, hmemory]; exact h.2⟩
  · refine ⟨hmono h.1, h.2.1, ?_⟩
    rw [hmemory]
    obtain ⟨stage, now, hreplays, hsettling⟩ := h.2.2
    exact ⟨stage, now, by rw [FlushWorld.Replays, hmemory]; exact hreplays, hsettling⟩
  · exact hmono h
  · exact ⟨hmono h.1, by rw [hdisk]; exact h.2⟩

/-! ### Worlds with one pass at most -/

/-- Every pass is sound, there is one at most, and the live journal is one. -/
structure FlushWorld.Sound (s : FlushWorld) : Prop where
  journal : Journal.Sound s.nextRef s.owed
  alone : ∀ i j, s.passes i ≠ none → s.passes j ≠ none → i = j
  pass : ∀ i pass, s.passes i = some pass → pass.Sound s

/-- The action does not begin a pass while another one is under way. -/
def BeginsAlone (s : FlushWorld) (a : FlushAct) : Prop := ∀ i, a = .begin i → ∀ j, s.passes j = none

namespace FlushWorld

variable {i : ℕ} {pass : Pass}

@[simp] theorem setPass_passes (next : Option Pass) :
    (s.setPass i next).passes = update s.passes i next := rfl

/-- A step that leaves the passes and the vault alone. -/
theorem Sound.mono (h : s.Sound) (hjournal : Journal.Sound s'.nextRef s'.owed)
    (hnext : s.nextRef ≤ s'.nextRef) (howed : ∀ o ∈ s'.owed, o ∈ s.owed ∨ s.nextRef ≤ o.ref)
    (hpasses : s'.passes = s.passes) (hmemory : s'.memory = s.memory)
    (hdisk : s'.disk = s.disk) : s'.Sound where
  journal := hjournal
  alone := by
    rw [hpasses]
    exact h.alone
  pass := by
    rw [hpasses]
    exact fun i pass hi => (h.pass i pass hi).mono hnext howed hmemory hdisk

/-- A step of the one pass. -/
theorem Sound.update {next : Option Pass} (h : s.Sound)
    (hi : s.passes i ≠ none ∨ ∀ j, s.passes j = none)
    (hjournal : Journal.Sound s'.nextRef s'.owed)
    (hpasses : s'.passes = update s.passes i next)
    (hnext : ∀ pass, next = some pass → pass.Sound s') : s'.Sound := by
  have hone : ∀ j, s'.passes j ≠ none → j = i := by
    intro j hj
    by_contra hne
    rw [hpasses, update_of_ne hne] at hj
    rcases hi with hi | hi
    · exact hne (h.alone j i hj hi)
    · exact hj (hi j)
  refine ⟨hjournal, fun j k hj hk => (hone j hj).trans (hone k hk).symm, fun j pass hj => ?_⟩
  obtain rfl := hone j (by simp [hj])
  rw [hpasses, update_self] at hj
  exact hnext pass hj

@[simp] theorem persistOwed_owed (s : FlushWorld) : s.persistOwed.owed = s.owed := by
  rw [persistOwed]
  split <;> rfl

@[simp] theorem persistOwed_nextRef (s : FlushWorld) : s.persistOwed.nextRef = s.nextRef := by
  rw [persistOwed]
  split <;> rfl

@[simp] theorem persistOwed_passes (s : FlushWorld) : s.persistOwed.passes = s.passes := by
  rw [persistOwed]
  split <;> rfl

@[simp] theorem persistOwed_memory (s : FlushWorld) : s.persistOwed.memory = s.memory := by
  rw [persistOwed]
  split <;> rfl

@[simp] theorem persistOwed_disk (s : FlushWorld) : s.persistOwed.disk = s.disk := by
  rw [persistOwed]
  split <;> rfl

/-! ### What the steps do -/

/-- A read of the stored journal adds objects, and leaves the passes and the vault alone. -/
theorem load_spec (h : s.load = some s') (hs : Journal.Sound s.nextRef s.owed) :
    Journal.Sound s'.nextRef s'.owed ∧ s.nextRef ≤ s'.nextRef ∧
      (∀ o ∈ s'.owed, o ∈ s.owed ∨ s.nextRef ≤ o.ref) ∧
      s'.passes = s.passes ∧ s'.memory = s.memory ∧ s'.disk = s.disk := by
  obtain ⟨hsound, hle, hmem⟩ := hs.mergeOwedSettlements [] [] s.journal
  rw [load] at h
  split at h
  · cases h
  · obtain ⟨⟩ := h
    split
    · exact ⟨hsound, hle, hmem, rfl, rfl, rfl⟩
    · exact ⟨by simpa using hsound, by simpa using hle, by simpa using hmem, by simp, by simp,
        by simp⟩

/-- So does a recorded write. -/
theorem recordOwed_spec (record : OwedRecord) (hs : Journal.Sound s.nextRef s.owed) :
    Journal.Sound (s.recordOwed record).nextRef (s.recordOwed record).owed ∧
      s.nextRef ≤ (s.recordOwed record).nextRef ∧
      (∀ o ∈ (s.recordOwed record).owed, o ∈ s.owed ∨ s.nextRef ≤ o.ref) ∧
      (s.recordOwed record).passes = s.passes ∧ (s.recordOwed record).memory = s.memory ∧
      (s.recordOwed record).disk = s.disk := by
  rw [recordOwed]
  split
  · exact ⟨hs, Nat.le_refl _, fun o ho => .inl ho, rfl, rfl, rfl⟩
  · refine ⟨by simpa using hs.recordOneOwedSettlement record, by simp, fun o ho => ?_, by simp,
      by simp, by simp⟩
    rw [persistOwed_owed] at ho
    exact (Journal.mem_recordOneOwedSettlement ho).imp_right fun h => Nat.le_of_eq h.symm

variable {fault : Bool}

/-- The answer to a read is judged at once, or it is a write that the vault is asked for. -/
theorem read_cases {now : String} (h : s.read i now fault = some s') :
    ∃ pass owed stage rest, s.passes i = some pass ∧ pass.pc = .reading owed (stage :: rest) ∧
      (s' = s.setPass i (pass.judge owed rest .unreachable) ∨
        ((stage.settle now (s.memory owed.pendingTxId)).result (s.memory owed.pendingTxId) =
            s.memory owed.pendingTxId ∧
          s' = s.setPass i (pass.judge owed rest
            (stage.settle now (s.memory owed.pendingTxId)).verdict)) ∨
        ((stage.settle now (s.memory owed.pendingTxId)).verdict = .settled ∧
          s' = s.setPass i (some { pass with
            pc := .writing owed rest (stage.settle now (s.memory owed.pendingTxId)) }))) := by
  rw [read] at h
  split at h
  · next pass hpass =>
    split at h
    · next owed stage rest hpc =>
      refine ⟨pass, owed, stage, rest, hpass, hpc, ?_⟩
      split at h
      · exact .inl (Option.some.inj h).symm
      · refine .inr ?_
        split at h
        · next hsettle =>
          rw [hsettle]
          exact .inl ⟨rfl, (Option.some.inj h).symm⟩
        · next hsettle =>
          rw [hsettle]
          exact .inl ⟨rfl, (Option.some.inj h).symm⟩
        · next hclosed hdone =>
          refine .inr ⟨?_, (Option.some.inj h).symm⟩
          cases hsettle : stage.settle now (s.memory owed.pendingTxId) with
          | closed => exact absurd hsettle hclosed
          | done | put record | delete => rfl
    · cases h
  · cases h

/-- A write is refused, or the vault takes it. -/
theorem write_cases (h : s.write i fault = some s') :
    ∃ pass owed rest settling, s.passes i = some pass ∧ pass.pc = .writing owed rest settling ∧
      (s' = s.setPass i (pass.judge owed rest .unreachable) ∨
        ∃ memory disk, memory = update s.memory owed.pendingTxId
            (settling.result (s.memory owed.pendingTxId)) ∧
          (disk = memory ∨ disk = s.disk) ∧
          s' = { s with memory, disk }.setPass i (pass.judge owed rest .settled)) := by
  rw [write] at h
  split at h
  · next pass hpass =>
    split at h
    · next owed rest settling hpc =>
      refine ⟨pass, owed, rest, settling, hpass, hpc, ?_⟩
      split at h
      · exact .inl (Option.some.inj h).symm
      · refine .inr ⟨_, _, rfl, ?_, (Option.some.inj h).symm⟩
        split
        · exact .inl rfl
        · exact .inr rfl
    · cases h
  · cases h

/-- A save is refused, or disk holds what memory holds. -/
theorem save_cases (h : s.save i fault = some s') :
    ∃ pass, s.passes i = some pass ∧ pass.pc = .saving ∧ (s' = s.setPass i none ∨
        s' = { s with disk := s.memory }.setPass i (some { pass with pc := .retiring })) := by
  rw [save] at h
  split at h
  · next pass hpass =>
    split at h
    · next hpc =>
      refine ⟨pass, hpass, hpc, ?_⟩
      split at h
      · exact .inl (Option.some.inj h).symm
      · exact .inr (Option.some.inj h).symm
    · cases h
  · cases h

theorem retire_cases (h : s.retire i = some s') :
    ∃ pass, s.passes i = some pass ∧ pass.pc = .retiring ∧
      s' = ({ s with owed := s.owed.filter fun o => ∀ x ∈ pass.settled, x.ref ≠ o.ref }.setPass i
        none).persistOwed := by
  rw [retire] at h
  split at h
  · next pass hpass =>
    split at h
    · next hpc => exact ⟨pass, hpass, hpc, (Option.some.inj h).symm⟩
    · cases h
  · cases h

/-! ### The invariant -/

/-- Reading a stage leaves the vault alone. -/
private theorem Sound.read {now : String} (h : s.Sound) (hstep : s.read i now fault = some s') :
    s'.Sound := by
  obtain ⟨pass, owed, stage, rest, hpass, hpc, hcases⟩ := read_cases hstep
  have hi : s.passes i ≠ none ∨ ∀ j, s.passes j = none := .inl (by simp [hpass])
  have hsound := h.pass i pass hpass
  rw [Pass.Sound, hpc] at hsound
  obtain ⟨hbetween, start, hway⟩ := hsound
  have hmono : ∀ {settled todo next}, Pass.Between s pass.startedAt settled todo →
      Pass.Between (s.setPass i next) pass.startedAt settled todo :=
    fun h => h.mono (Nat.le_refl _) (fun o ho => .inl ho) fun _ _ => rfl
  rcases hcases with rfl | ⟨hsame, rfl⟩ | ⟨hverdict, rfl⟩
  · refine h.update hi h.journal rfl fun p hp => (hmono hbetween).sound_judge ?_ ?_ hp
    · exact fun _ hne => absurd rfl hne
    · rintro (hgo | ⟨hgo, -⟩) <;> cases hgo
  · refine h.update hi h.journal rfl fun p hp => (hmono hbetween).sound_judge ?_ ?_ hp
    · intro hstop _
      by_cases hgo : owed.val.goesOn (stage.settle now (s.memory owed.pendingTxId)).verdict
      · obtain rfl := hstop.resolve_left (not_not.mpr hgo)
        have hsettles := (hway.step hgo).settles
        rw [hsame] at hsettles
        exact hsettles
      · exact hway.settles_of_not_goesOn hgo
    · intro hgo
      have hstep := hway.step hgo
      rw [hsame] at hstep
      exact ⟨start, hstep⟩
  · refine h.update hi h.journal rfl fun p hp => ?_
    obtain ⟨⟩ := hp
    exact ⟨hmono hbetween, hverdict, stage, now, ⟨start, hway⟩, rfl⟩

/-- A write changes the `PendingTx` of its own record. -/
private theorem Sound.write (h : s.Sound) (hstep : s.write i fault = some s') : s'.Sound := by
  obtain ⟨pass, owed, rest, settling, hpass, hpc, hcases⟩ := write_cases hstep
  have hi : s.passes i ≠ none ∨ ∀ j, s.passes j = none := .inl (by simp [hpass])
  have hsound := h.pass i pass hpass
  rw [Pass.Sound, hpc] at hsound
  obtain ⟨hbetween, hverdict, stage, now, ⟨start, hway⟩, hsettling⟩ := hsound
  rcases hcases with rfl | ⟨memory, disk, hmemory, -, rfl⟩
  · have hmono : Pass.Between (s.setPass i (pass.judge owed rest .unreachable)) pass.startedAt
        pass.settled (owed :: pass.todo) :=
      hbetween.mono (Nat.le_refl _) (fun o ho => .inl ho) fun _ _ => rfl
    refine h.update hi h.journal rfl fun p hp => hmono.sound_judge ?_ ?_ hp
    · exact fun _ hne => absurd rfl hne
    · rintro (hgo | ⟨hgo, -⟩) <;> cases hgo
  · have hmono : Pass.Between ({ s with memory, disk }.setPass i (pass.judge owed rest .settled))
        pass.startedAt pass.settled (owed :: pass.todo) := by
      refine hbetween.mono (Nat.le_refl _) (fun o ho => .inl ho) fun x hx => ?_
      -- what is settled names another `PendingTx`
      have hne : x.pendingTxId ≠ owed.pendingTxId := by
        have hdistinct := hbetween.distinct
        rw [Keyed.Distinct, List.map_append, List.nodup_append] at hdistinct
        exact hdistinct.2.2 _ (List.mem_map_of_mem hx) _ (by simp)
      change memory x.pendingTxId = s.memory x.pendingTxId
      rw [hmemory, update_of_ne hne]
    have hgo : owed.val.goesOn (stage.settle now (s.memory owed.pendingTxId)).verdict :=
      .inl (hsettling ▸ hverdict)
    have hrest : owed.val.OnTheWay start rest (memory owed.pendingTxId) := by
      rw [hmemory, update_self, hsettling]
      exact hway.step hgo
    refine h.update hi h.journal rfl fun p hp => hmono.sound_judge ?_ ?_ hp
    · intro hstop _
      obtain rfl := hstop.resolve_left (not_not.mpr (.inl rfl))
      exact hrest.settles
    · exact fun _ => ⟨start, hrest⟩

/-- What a save brings to disk leaves nothing to do for the records that the pass retires. -/
private theorem Sound.save (h : s.Sound) (hstep : s.save i fault = some s') : s'.Sound := by
  obtain ⟨pass, hpass, hpc, hcases⟩ := save_cases hstep
  have hi : s.passes i ≠ none ∨ ∀ j, s.passes j = none := .inl (by simp [hpass])
  have hsound := h.pass i pass hpass
  rw [Pass.Sound, hpc] at hsound
  rcases hcases with rfl | rfl
  · exact h.update hi h.journal rfl fun p hp => by cases hp
  · refine h.update hi h.journal rfl fun p hp => ?_
    obtain ⟨⟩ := hp
    exact ⟨hsound.mono (Nat.le_refl _) (fun o ho => .inl ho) fun _ _ => rfl, hsound.settles⟩

private theorem Sound.retire (h : s.Sound) (hstep : s.retire i = some s') : s'.Sound := by
  obtain ⟨pass, hpass, -, rfl⟩ := retire_cases hstep
  have hi : s.passes i ≠ none ∨ ∀ j, s.passes j = none := .inl (by simp [hpass])
  have hjournal := h.journal.sublist (List.filter_sublist
    (p := fun o => ∀ x ∈ pass.settled, x.ref ≠ o.ref))
  refine h.update hi ?_ (persistOwed_passes _) fun p hp => by cases hp
  rw [persistOwed_owed, persistOwed_nextRef]
  exact hjournal

private theorem Sound.begin (h : s.Sound) (halone : ∀ j, s.passes j = none)
    (hstep : s.begin i = some s') : s'.Sound := by
  rw [FlushWorld.begin] at hstep
  split at hstep
  · obtain ⟨⟩ := hstep
    refine h.update (.inr halone) h.journal rfl fun p hp => ?_
    refine Pass.Between.sound_next ⟨Nat.le_refl _, ?_, ?_, ?_, ?_⟩ hp
    · exact h.journal.ref_lt
    · exact h.journal.ref_inj
    · exact h.journal.distinct
    · simp
  · cases hstep

/-- What a lock leaves of the passes is about to retire. -/
private theorem Sound.lock (h : s.Sound) : s.lock.Sound := by
  have hpass : ∀ j pass, s.lock.passes j = some pass → s.passes j = some pass ∧ Retires pass := by
    intro j pass hj
    have hj : (s.passes j).filter (fun pass => Retires pass) = some pass := hj
    simpa [Option.filter_eq_some_iff] using hj
  have hne : ∀ j, s.lock.passes j ≠ none → s.passes j ≠ none := by
    intro j hj
    obtain ⟨pass, hj⟩ := Option.ne_none_iff_exists'.mp hj
    simp [(hpass j pass hj).1]
  refine ⟨h.journal, fun j k hj hk => h.alone j k (hne j hj) (hne k hk), fun j pass hj => ?_⟩
  obtain ⟨hj, hretires⟩ := hpass j pass hj
  have hsound := h.pass j pass hj
  rw [Pass.Sound] at hsound ⊢
  split at hsound
  · next hpc => simp [Retires, hpc] at hretires
  · next hpc => simp [Retires, hpc] at hretires
  · next hpc => simp [Retires, hpc] at hretires
  · obtain ⟨hbetween, hdisk⟩ := hsound
    refine ⟨⟨hbetween.startedAt_le, hbetween.ref_lt, hbetween.same, hbetween.distinct, ?_⟩, hdisk⟩
    exact hdisk

/-- One step that begins no pass beside another keeps the world sound. -/
theorem Sound.step {a : FlushAct} (h : s.Sound) (halone : BeginsAlone s a)
    (hstep : s.step a = some s') : s'.Sound := by
  cases a with
  | load =>
    obtain ⟨hjournal, hnext, howed, hpasses, hmemory, hdisk⟩ := load_spec hstep h.journal
    exact h.mono hjournal hnext howed hpasses hmemory hdisk
  | record record =>
    obtain ⟨⟩ := hstep
    obtain ⟨hjournal, hnext, howed, hpasses, hmemory, hdisk⟩ := recordOwed_spec record h.journal
    exact h.mono hjournal hnext howed hpasses hmemory hdisk
  | journalLands k =>
    obtain ⟨journal, -, rfl⟩ := Option.map_eq_some_iff.mp hstep
    exact h.mono h.journal (Nat.le_refl _) (fun o ho => .inl ho) rfl rfl rfl
  | journalRefused k =>
    obtain ⟨⟩ := hstep
    exact h.mono h.journal (Nat.le_refl _) (fun o ho => .inl ho) rfl rfl rfl
  | begin i => exact h.begin (halone i rfl) hstep
  | read i now fault => exact h.read hstep
  | write i fault => exact h.write hstep
  | save i fault => exact h.save hstep
  | retire i => exact h.retire hstep
  | lock =>
    obtain ⟨⟩ := hstep
    exact h.lock
  | crash =>
    obtain ⟨⟩ := hstep
    exact ⟨Journal.Sound.nil _, by simp [crash], by simp [crash]⟩

theorem Sound.boot (autoSave : Bool) (journal : List OwedRecord) (vault : PendingTxs) :
    (boot autoSave journal vault).Sound :=
  ⟨Journal.Sound.nil _, fun _ _ hi => absurd rfl hi, fun _ _ hi => by cases hi⟩

/-! ### What enters the journal -/

/-- What a step adds to the live journal is new to every pass under way. -/
theorem owed_step {a : FlushAct} (h : s.Sound) (hstep : s.step a = some s') :
    s.nextRef ≤ s'.nextRef ∧ ∀ o ∈ s'.owed, o ∈ s.owed ∨ s.nextRef ≤ o.ref := by
  have hsame : s.nextRef ≤ s.nextRef ∧ ∀ o ∈ s.owed, o ∈ s.owed ∨ s.nextRef ≤ o.ref :=
    ⟨Nat.le_refl _, fun o ho => .inl ho⟩
  cases a with
  | load =>
    obtain ⟨-, hnext, howed, -⟩ := load_spec hstep h.journal
    exact ⟨hnext, howed⟩
  | record record =>
    obtain ⟨⟩ := hstep
    obtain ⟨-, hnext, howed, -⟩ := recordOwed_spec record h.journal
    exact ⟨hnext, howed⟩
  | journalLands k =>
    obtain ⟨journal, -, rfl⟩ := Option.map_eq_some_iff.mp hstep
    exact hsame
  | begin i =>
    have hbegin : s.begin i = some s' := hstep
    rw [FlushWorld.begin] at hbegin
    split at hbegin
    · obtain ⟨⟩ := hbegin
      exact hsame
    · cases hbegin
  | read i now fault =>
    obtain ⟨_, _, _, _, -, -, rfl | ⟨-, rfl⟩ | ⟨-, rfl⟩⟩ := read_cases hstep
    · exact hsame
    · exact hsame
    · exact hsame
  | write i fault =>
    obtain ⟨_, _, _, _, -, -, rfl | ⟨_, _, -, -, rfl⟩⟩ := write_cases hstep
    · exact hsame
    · exact hsame
  | save i fault =>
    obtain ⟨_, -, -, rfl | rfl⟩ := save_cases hstep
    · exact hsame
    · exact hsame
  | retire i =>
    obtain ⟨pass, -, -, rfl⟩ := retire_cases hstep
    rw [persistOwed_nextRef, persistOwed_owed]
    exact ⟨Nat.le_refl _, fun o ho => .inl (List.mem_filter.mp ho).1⟩
  | crash =>
    obtain ⟨⟩ := hstep
    exact ⟨Nat.le_refl _, fun o ho => (List.not_mem_nil ho).elim⟩
  | journalRefused k | lock =>
    obtain ⟨⟩ := hstep
    exact hsame

end FlushWorld

/-- A pass keeps the reference that it began with. -/
theorem Pass.startedAt_judge {pass next : Pass} {owed : OwedObj} {rest : List Stage}
    {verdict : Verdict} (h : pass.judge owed rest verdict = some next) :
    next.startedAt = pass.startedAt := by
  have hnext : ∀ {settled todo}, Pass.next pass.startedAt settled todo = some next →
      next.startedAt = pass.startedAt := by
    intro settled todo h
    cases todo with
    | nil =>
      rw [Pass.next] at h
      split at h
      · cases h
      · exact Option.some.inj h ▸ rfl
    | cons owed todo => exact Option.some.inj h ▸ rfl
  rw [judge] at h
  split at h
  · exact hnext h
  · split at h
    · exact Option.some.inj h ▸ rfl
    · exact hnext h

/-- Only its own beginning makes a pass. -/
theorem FlushWorld.startedAt_step {a : FlushAct} {i : ℕ} (ha : a ≠ .begin i) (h : s.Sound)
    (hstep : s.step a = some s') {next : Pass} (hnext : s'.passes i = some next) :
    ∃ pass, s.passes i = some pass ∧ pass.startedAt = next.startedAt := by
  have hkept : ∀ {j : ℕ} {pass : Pass} {p : Option Pass}, s.passes j = some pass →
      (∀ q, p = some q → q.startedAt = pass.startedAt) →
      update s.passes j p i = some next →
      ∃ pass, s.passes i = some pass ∧ pass.startedAt = next.startedAt := by
    intro j pass p hpass hp hi
    by_cases hij : i = j
    · subst hij
      rw [update_self] at hi
      exact ⟨pass, hpass, (hp next hi).symm⟩
    · rw [update_of_ne hij] at hi
      exact ⟨next, hi, rfl⟩
  cases a with
  | load =>
    obtain ⟨-, -, -, hpasses, -⟩ := load_spec hstep h.journal
    exact ⟨next, hpasses ▸ hnext, rfl⟩
  | record record =>
    obtain ⟨⟩ := hstep
    obtain ⟨-, -, -, hpasses, -⟩ := recordOwed_spec record h.journal
    exact ⟨next, hpasses ▸ hnext, rfl⟩
  | journalLands k =>
    obtain ⟨journal, -, rfl⟩ := Option.map_eq_some_iff.mp hstep
    exact ⟨next, hnext, rfl⟩
  | journalRefused k =>
    obtain ⟨⟩ := hstep
    exact ⟨next, hnext, rfl⟩
  | begin j =>
    have hbegin : s.begin j = some s' := hstep
    rw [FlushWorld.begin] at hbegin
    split at hbegin
    · obtain ⟨⟩ := hbegin
      have hij : i ≠ j := fun heq => ha (heq ▸ rfl)
      rw [setPass_passes, update_of_ne hij] at hnext
      exact ⟨next, hnext, rfl⟩
    · cases hbegin
  | read j now fault =>
    obtain ⟨_, _, _, _, hpass, -, rfl | ⟨-, rfl⟩ | ⟨-, rfl⟩⟩ := read_cases hstep
    · exact hkept hpass (fun q hq => Pass.startedAt_judge hq) hnext
    · exact hkept hpass (fun q hq => Pass.startedAt_judge hq) hnext
    · refine hkept hpass (fun q hq => ?_) hnext
      obtain ⟨⟩ := hq
      rfl
  | write j fault =>
    obtain ⟨_, _, _, _, hpass, -, rfl | ⟨_, _, -, -, rfl⟩⟩ := write_cases hstep
    all_goals exact hkept hpass (fun q hq => Pass.startedAt_judge hq) hnext
  | save j fault =>
    obtain ⟨_, hpass, -, rfl | rfl⟩ := save_cases hstep
    · refine hkept hpass (fun q hq => ?_) hnext
      cases hq
    · refine hkept hpass (fun q hq => ?_) hnext
      obtain ⟨⟩ := hq
      rfl
  | retire j =>
    obtain ⟨pass, hpass, -, rfl⟩ := retire_cases hstep
    rw [persistOwed_passes] at hnext
    refine hkept hpass (fun q hq => ?_) hnext
    cases hq
  | lock =>
    obtain ⟨⟩ := hstep
    have hi : (s.passes i).filter (fun pass => Retires pass) = some next := hnext
    exact ⟨next, (Option.filter_eq_some_iff.mp hi).1, rfl⟩
  | crash =>
    obtain ⟨⟩ := hstep
    cases hnext

/-- What enters the journal while a pass is under way stays when that pass retires. -/
theorem FlushWorld.retire_keeps {as : List FlushAct} {i : ℕ} {t u : FlushWorld} (h : s.Sound)
    (halone : Transition.Under BeginsAlone FlushWorld.step s as) (hsame : .begin i ∉ as)
    (hrun : Transition.run FlushWorld.step s as = some t) (hretire : t.step (.retire i) = some u)
    {o : OwedObj} (ho : o ∈ t.owed) (hnew : o ∉ s.owed) : o ∈ u.owed := by
  have hkeeps : ∀ {r : FlushWorld} {as : List FlushAct}, r.Sound → s.nextRef ≤ r.nextRef →
      (∀ o ∈ r.owed, o ∈ s.owed ∨ s.nextRef ≤ o.ref) →
      (∀ pass, r.passes i = some pass → pass.startedAt ≤ s.nextRef) →
      Transition.Under BeginsAlone FlushWorld.step r as → .begin i ∉ as →
      Transition.run FlushWorld.step r as = some t →
      t.Sound ∧ (∀ o ∈ t.owed, o ∈ s.owed ∨ s.nextRef ≤ o.ref) ∧
        ∀ pass, t.passes i = some pass → pass.startedAt ≤ s.nextRef := by
    intro r as hr hnext howed hstarted halone hsame hrun
    induction as generalizing r with
    | nil =>
      obtain ⟨⟩ := hrun
      exact ⟨hr, howed, hstarted⟩
    | cons a as ih =>
      obtain ⟨r', hstep, hrest⟩ := Transition.run_cons_eq_some.mp hrun
      rw [List.mem_cons, not_or] at hsame
      obtain ⟨hle, howed'⟩ := owed_step hr hstep
      refine ih (hr.step halone.1 hstep) (Nat.le_trans hnext hle) ?_ ?_ (halone.2 r' hstep)
        hsame.2 hrest
      · intro o ho
        rcases howed' o ho with ho | ho
        · exact howed o ho
        · exact .inr (Nat.le_trans hnext ho)
      · intro pass hpass
        obtain ⟨before, hbefore, heq⟩ := startedAt_step (Ne.symm hsame.1) hr hstep hpass
        exact heq ▸ hstarted before hbefore
  obtain ⟨ht, howed, hstarted⟩ := hkeeps h (Nat.le_refl _) (fun o ho => .inl ho)
    (fun pass hpass => (h.pass i pass hpass).startedAt_le) halone hsame hrun
  obtain ⟨pass, hpass, hpc, rfl⟩ := retire_cases hretire
  have hsound := ht.pass i pass hpass
  rw [Pass.Sound, hpc] at hsound
  rw [persistOwed_owed]
  refine List.mem_filter.mpr ⟨ho, decide_eq_true fun x hx href => ?_⟩
  have hlt := hsound.1.ref_lt x (List.mem_append_left _ hx)
  have hge := (howed o ho).resolve_left hnew
  exact absurd hlt (Nat.not_lt.mpr (Nat.le_trans (hstarted pass hpass) (href ▸ hge)))

end XchainWallet
