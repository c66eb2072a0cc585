import XchainWallet.Queue.OwedFold

/-!
# Restarting the replay of a journal record

The replay of a journal record is up to three vault writes, and it can be cut off after each
of them and run again from the first. `OwedRecord.OnTheWay` says which states of the
`PendingTx` a replay passes through. From each of them the whole replay does what the rest of
it would have done (`OnTheWay.replay_eq`), because the stages that were run leave the state
alone when they are run again; and a state at which the replay ended is not changed by another
one (`Settles`).
-/

namespace XchainWallet

/-! ### The order of the stages -/

/-- The place of a stage in a replay. -/
def Stage.rank : Stage → ℕ
  | promote _ => 0
  | patch _ => 1
  | discard => 2

theorem OwedRecord.pairwise_stages (owed : OwedRecord) :
    owed.stages.Pairwise fun s t => s.rank < t.rank := by
  rw [OwedRecord.stages]
  cases owed.op <;> cases owed.patch <;> cases owed.discard <;> simp [Stage.rank]

theorem OwedRecord.op_of_promote_mem {owed : OwedRecord} {reveal : Option Reveal}
    (h : .promote reveal ∈ owed.stages) : owed.op = .reveal := by
  rw [OwedRecord.stages] at h
  cases hop : owed.op with
  | reveal => rfl
  | patch =>
    rw [hop] at h
    cases List.mem_singleton.mp h
  | discard => cases hpatch : owed.patch <;> simp [hop, hpatch] at h

section Settle

variable {now now' : String} {existing : Option PendingTx}

/-- Only a discard reads the clock. -/
theorem Stage.settle_eq_of_ne_discard {stage : Stage} (h : stage ≠ .discard) :
    stage.settle now existing = stage.settle now' existing := by
  cases stage with
  | promote reveal | patch fields => rfl
  | discard => exact absurd rfl h

/-- No verdict depends on the clock. -/
theorem Stage.verdict_settle (stage : Stage) :
    (stage.settle now existing).verdict = (stage.settle now' existing).verdict := by
  cases stage with
  | promote reveal | patch fields => rfl
  | discard =>
    cases existing with
    | none => rfl
    | some r =>
      simp only [settle, discardQueuedBroadcast]
      by_cases hr : r.status.Writable <;> cases r.commitLanded <;> simp [hr, Settling.verdict]

theorem OwedRecord.replayFrom_of_not_unsettled (owed : OwedRecord) (h : ¬Unsettled existing)
    (stages : List Stage) : owed.replayFrom now stages existing = existing := by
  induction stages with
  | nil => rfl
  | cons stage rest ih =>
    rw [OwedRecord.replayFrom, Stage.settle_of_not_unsettled h]
    split
    · exact ih
    · rfl

/-- A discard leaves nothing to settle. -/
theorem not_unsettled_discard : ¬Unsettled ((Stage.discard.settle now existing).result existing) :=
  OwedWrite.not_unsettled_apply (w := .discard) trivial

end Settle

/-! ### The states on the way -/

namespace OwedRecord

variable {owed : OwedRecord} {start existing : Option PendingTx} {stages rest : List Stage}
  {stage : Stage} {now : String}

/-- The states that a replay of the record passes through, with the stages that are left. -/
inductive OnTheWay (owed : OwedRecord) (start : Option PendingTx) :
    List Stage → Option PendingTx → Prop
  | start : OnTheWay owed start owed.stages start
  | step {stage : Stage} {rest : List Stage} {existing : Option PendingTx} {now : String} :
    OnTheWay owed start (stage :: rest) existing →
    owed.goesOn (stage.settle now existing).verdict →
    OnTheWay owed start rest ((stage.settle now existing).result existing)

/-- Running the stage again changes nothing, and the replay goes on after it. -/
def Passed (owed : OwedRecord) (existing : Option PendingTx) (stage : Stage) : Prop :=
  ∀ now, (stage.settle now existing).result existing = existing ∧
    owed.goesOn (stage.settle now existing).verdict

/-- A record whose commit has landed is passed by the promotion. -/
private theorem passed_promote {r : PendingTx} (hr : r.status.Writable)
    (hlanded : r.commitLanded = true) (reveal : Option Reveal) :
    owed.Passed (some r) (.promote reveal) := by
  intro now
  have hdone : (Stage.promote reveal).settle now (some r) = .done := by
    rw [Stage.settle, applyRevealPromotion, if_neg (not_not.mpr hr), if_pos hlanded]
  rw [hdone]
  exact ⟨rfl, .inl rfl⟩

/-- Where the promotion goes on, the commit has landed. -/
private theorem landed_of_promote {r : PendingTx} (hop : owed.op = .reveal)
    (reveal : Option Reveal)
    (h : owed.goesOn ((Stage.promote reveal).settle now (some r)).verdict) :
    ∃ r', ((Stage.promote reveal).settle now (some r)).result (some r) = some r' ∧
      r'.status.Writable ∧ r'.commitLanded = true := by
  have hsettled : ((Stage.promote reveal).settle now (some r)).verdict = .settled :=
    h.resolve_right fun h => h.2 hop
  rw [Stage.settle, applyRevealPromotion] at hsettled ⊢
  split at hsettled
  · cases hsettled
  · next hr =>
    rw [if_neg hr]
    split at hsettled
    · next hlanded =>
      rw [if_pos hlanded]
      exact ⟨r, rfl, not_not.mp hr, hlanded⟩
    · next hlanded =>
      rw [if_neg hlanded]
      split at hsettled
      · cases hsettled
      · next hhex =>
        rw [if_neg hhex]
        split at hsettled
        · cases hsettled
        · next hmatch =>
          rw [if_neg hmatch]
          exact ⟨_, rfl, .inr rfl, rfl⟩

/-- A record that a patch was written over is passed by the patch. -/
private theorem passed_patch {r : PendingTx} (fields : Option Patch)
    (hr : ((fields.getD {}).onto r).status.Writable) :
    owed.Passed (some ((fields.getD {}).onto r)) (.patch fields) := by
  intro now
  have hput : (Stage.patch fields).settle now (some ((fields.getD {}).onto r)) =
      .put ((fields.getD {}).onto r) := by
    rw [Stage.settle, applyPendingTxPatch, if_neg (not_not.mpr hr), Patch.onto_onto]
  rw [hput]
  exact ⟨rfl, .inl rfl⟩

/-- What was run leaves the state alone, unless nothing is left to settle in it. -/
private theorem OnTheWay.passed (h : owed.OnTheWay start stages existing) :
    ∃ run, owed.stages = run ++ stages ∧
      (¬Unsettled existing ∨ ∀ stage ∈ run, owed.Passed existing stage) := by
  induction h with
  | start => exact ⟨[], rfl, .inr (by simp)⟩
  | @step stage rest existing now hway hgoes ih =>
    obtain ⟨run, hrun, hpassed⟩ := ih
    refine ⟨run ++ [stage], by simp [hrun], ?_⟩
    by_cases hu : Unsettled existing
    · have hpassed := hpassed.resolve_left (not_not.mpr hu)
      have hbefore : ∀ s ∈ run, s.rank < stage.rank := by
        have hpairwise := owed.pairwise_stages
        rw [hrun] at hpairwise
        exact fun s hs => (List.pairwise_append.mp hpairwise).2.2 s hs stage (.head _)
      obtain ⟨r, rfl, hr⟩ := hu
      cases stage with
      | discard => exact .inl not_unsettled_discard
      | promote reveal =>
        -- the promotion is the first stage, of a reveal record
        have hrun' : run = [] := List.eq_nil_iff_forall_not_mem.mpr fun s hs =>
          absurd (hbefore s hs) (Nat.not_lt_zero _)
        subst hrun'
        have hop : owed.op = .reveal := by
          have hmem : Stage.promote reveal ∈ owed.stages := by simp [hrun]
          exact op_of_promote_mem hmem
        obtain ⟨r', hr', hwritable, hlanded⟩ := landed_of_promote hop reveal hgoes
        rw [hr']
        refine .inr fun s hs => ?_
        obtain rfl : s = .promote reveal := by simpa using hs
        exact passed_promote hwritable hlanded reveal
      | patch fields =>
        have hput : ((Stage.patch fields).settle now (some r)).result (some r) =
            some ((fields.getD {}).onto r) := by
          rw [Stage.settle, applyPendingTxPatch, if_neg (not_not.mpr hr)]
          rfl
        rw [hput]
        by_cases hwritable : ((fields.getD {}).onto r).status.Writable
        · refine .inr fun s hs => ?_
          rcases List.mem_append.mp hs with hs | hs
          · -- before a patch there is at most the promotion, whose landed commit the patch keeps
            have hlt := hbefore s hs
            cases s with
            | patch fields' => exact absurd hlt (Nat.lt_irrefl _)
            | discard => exact absurd hlt (by simp [Stage.rank])
            | promote reveal =>
              have hop : owed.op = .reveal := op_of_promote_mem (hrun ▸ List.mem_append_left _ hs)
              obtain ⟨hsame, hgoes⟩ := hpassed _ hs now
              obtain ⟨r', hr', -, hlanded⟩ := landed_of_promote hop reveal hgoes
              obtain rfl := Option.some.inj (hsame.symm.trans hr')
              refine passed_promote hwritable ?_ reveal
              simp [Patch.onto, hlanded]
          · obtain rfl := List.mem_singleton.mp hs
            exact passed_patch fields hwritable
        · refine .inl ?_
          rintro ⟨r', hr', hw⟩
          exact hwritable (Option.some.inj hr' ▸ hw)
    · refine .inl ?_
      rw [Stage.settle_of_not_unsettled hu]
      exact hu

/-- **Restarting.** From a state on the way of a replay, the whole replay does what the stages
that are left do. -/
theorem OnTheWay.replay_eq (h : owed.OnTheWay start stages existing) (now : String) :
    owed.replay now existing = owed.replayFrom now stages existing := by
  obtain ⟨run, hrun, hpassed⟩ := h.passed
  rcases hpassed with hu | hpassed
  · rw [replay, owed.replayFrom_of_not_unsettled hu, owed.replayFrom_of_not_unsettled hu]
  · rw [replay, hrun]
    clear h hrun
    induction run with
    | nil => rfl
    | cons stage run ih =>
      obtain ⟨hsame, hgoes⟩ := hpassed stage (.head _) now
      rw [List.cons_append, replayFrom, if_pos hgoes, hsame]
      exact ih fun s hs => hpassed s (.tail _ hs)

/-- A replay from `existing` ends as one from `start` does, at some reading of the clock. -/
def Continues (owed : OwedRecord) (start existing : Option PendingTx) : Prop :=
  ∀ now, ∃ now', owed.replay now existing = owed.replay now' start

theorem Continues.refl (owed : OwedRecord) (existing : Option PendingTx) :
    owed.Continues existing existing := fun now => ⟨now, rfl⟩

theorem Continues.trans {a b c : Option PendingTx} (hab : owed.Continues a b)
    (hbc : owed.Continues b c) : owed.Continues a c := by
  intro now
  obtain ⟨now₁, h₁⟩ := hbc now
  obtain ⟨now₂, h₂⟩ := hab now₁
  exact ⟨now₂, h₁.trans h₂⟩

/-- The discard of a replay is its last stage. -/
private theorem OnTheWay.rest_eq_nil (h : owed.OnTheWay start (.discard :: rest) existing) :
    rest = [] := by
  obtain ⟨run, hrun, -⟩ := h.passed
  have hpairwise := owed.pairwise_stages
  rw [hrun] at hpairwise
  have hlt := (List.pairwise_cons.mp (List.pairwise_append.mp hpairwise).2.1).1
  refine List.eq_nil_iff_forall_not_mem.mpr fun s hs => ?_
  have := hlt s hs
  cases s <;> simp [Stage.rank] at this

/-- A stage that goes on leaves a state from which the replay ends in the same way. -/
theorem OnTheWay.continues (h : owed.OnTheWay start (stage :: rest) existing)
    (hgoes : owed.goesOn (stage.settle now existing).verdict) :
    owed.Continues existing ((stage.settle now existing).result existing) := by
  intro now'
  rw [(h.step hgoes).replay_eq]
  by_cases hdiscard : stage = .discard
  · -- a discard is the last stage, so its reading is the one that counts
    subst hdiscard
    obtain rfl := h.rest_eq_nil
    exact ⟨now, by rw [h.replay_eq, replayFrom_singleton]; rfl⟩
  · refine ⟨now', ?_⟩
    rw [h.replay_eq, replayFrom, Stage.settle_eq_of_ne_discard hdiscard, if_pos]
    rw [Stage.settle_eq_of_ne_discard hdiscard] at hgoes
    exact hgoes

/-- The replay of the record changes the state no more. -/
def Settles (owed : OwedRecord) (existing : Option PendingTx) : Prop :=
  ∀ now, owed.replay now existing = existing

/-- A replay that has run all its stages has settled its record. -/
theorem OnTheWay.settles (h : owed.OnTheWay start [] existing) : owed.Settles existing :=
  fun now => h.replay_eq now

/-- A replay that ends at a verdict has settled its record. -/
theorem OnTheWay.settles_of_not_goesOn (h : owed.OnTheWay start (stage :: rest) existing)
    (hstop : ¬owed.goesOn (stage.settle now existing).verdict) : owed.Settles existing := by
  intro now'
  have hverdict : (stage.settle now existing).verdict = (stage.settle now' existing).verdict :=
    stage.verdict_settle
  rw [h.replay_eq, replayFrom, ← hverdict, if_neg hstop]
  -- the verdict is 'closed', which writes nothing
  have hclosed : stage.settle now' existing = .closed := by
    rw [hverdict] at hstop
    cases hsettle : stage.settle now' existing with
    | closed => rfl
    | done | put record | delete => exact absurd (.inl (by rw [hsettle]; rfl)) hstop
  rw [hclosed]
  rfl

end OwedRecord

end XchainWallet
