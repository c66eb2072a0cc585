import XchainWallet.Flows.SubmitWithSigner

/-!
# Nothing leaves before it is cleared

A trace of `submitWithSigner` shows a broadcast only after every transaction of the action was signed,
the freeze was checked again, the recovery record of a taproot commit was written and the signed bytes
were written down; and a clearing step that throws is followed by no broadcast. The environment is
arbitrary: what the encoder answers, what is signed and which question throws.

The steps before the first broadcast emit no broadcast (`Quiet`), the steps after it emit nothing else
of note (`Delivers`), and where the former return they leave the evidence (`Cleared`).
-/

namespace XchainWallet.Submit

open Traced

variable {σ : Type} {env : SubmitEnv σ} {opts : SubmitOpts}

/-! ### What a trace shows -/

/-- The transactions of the action that `encoded` starts: the commit, and the reveal that its encoding
asks for. Each one is signed in `trace`. -/
structure AllSigned (trace : List SubmitEvent) (encoded : Encoded) (signed : SignedTransaction)
    (reveal : Option SignedTransaction) : Prop where
  commit : .signed encoded.psbt signed ∈ trace
  envelope : encoded.envelopePair = true →
    ∃ tx, reveal = some tx ∧ .signed encoded.revealPsbt.hex tx ∈ trace
  phase2 : encoded.needsPhase2 = true →
    ∃ tx psbt, reveal = some tx ∧ .spendBuilt psbt ∈ trace ∧ .signed psbt tx ∈ trace
  single : encoded.envelopePair = false → encoded.needsPhase2 = false → reveal = none

/-- What stands after the last freeze check and before a broadcast. -/
structure WrittenDown (opts : SubmitOpts) (trace : List SubmitEvent) (encoded : Encoded)
    (signed : SignedTransaction) (reveal : Option SignedTransaction) : Prop where
  recovery : encoded.envelopePair = true →
    ∃ e, encoded.envelope = some e ∧ e.commitTxid = some signed.txid ∧
      .recorded (recoveryRecord opts e) ∈ trace
  checkpoint : .checkpointed (checkpointOf signed reveal) ∈ trace

/-- The evidence that clears a broadcast, in its order. -/
structure Cleared (opts : SubmitOpts) (trace : List SubmitEvent) (encoded : Encoded)
    (signed : SignedTransaction) (reveal : Option SignedTransaction) : Prop where
  built : .built encoded ∈ trace
  ordered : ∃ before after, trace = before ++ .freezeChecked :: after ∧
    AllSigned before encoded signed reveal ∧ WrittenDown opts after encoded signed reveal

/-- The bytes of a transaction of the action. -/
def BytesOf (signed : SignedTransaction) (reveal : Option SignedTransaction) (txHex : String) : Prop :=
  txHex = signed.txHex ∨ ∃ tx, reveal = some tx ∧ txHex = tx.txHex

/-- Every broadcast in `trace` is of a transaction that what stands before it clears. -/
def BroadcastsCleared (opts : SubmitOpts) (trace : List SubmitEvent) : Prop :=
  ∀ before txHex after, trace = before ++ .broadcast txHex :: after →
    ∃ encoded signed reveal, Cleared opts before encoded signed reveal ∧ BytesOf signed reveal txHex

/-- Where a clearing step threw, nothing was broadcast. -/
def SilentOnThrow (trace : List SubmitEvent) : Prop :=
  ∀ step, .threw step ∈ trace → ∀ txHex, .broadcast txHex ∉ trace

/-! ### Events -/

def Quiet (e : SubmitEvent) : Prop := ∀ txHex, e ≠ .broadcast txHex

def Succeeds (e : SubmitEvent) : Prop := ∀ step, e ≠ .threw step

/-- What the steps after the clearance emit: progress, and broadcasts of the action's bytes. -/
def Delivers (signed : SignedTransaction) (reveal : Option SignedTransaction) (e : SubmitEvent) : Prop :=
  (∃ phase, e = .progress phase) ∨ ∃ txHex, e = .broadcast txHex ∧ BytesOf signed reveal txHex

variable {signed : SignedTransaction} {reveal : Option SignedTransaction}

private theorem Delivers.succeeds {e : SubmitEvent} (h : Delivers signed reveal e) :
    Succeeds e := by
  rintro step rfl
  rcases h with ⟨_, h⟩ | ⟨_, h, -⟩
  · cases h
  · cases h

/-! ### The steps before the clearance are quiet -/

variable {P : SubmitEvent → Prop}

theorem progress_emits (phase : SubmitPhase) (h : P (.progress phase)) :
    Emits (progress env phase) P :=
  (emits_emit h).bind fun _ => emits_call _

theorem progress_quiet (phase : SubmitPhase) : Emits (progress env phase) Quiet :=
  progress_emits phase nofun

theorem clearing_quiet {α : Type} {step : ClearingStep} {did : α → SubmitEvent} {oracle : Ask σ α}
    (h : ∀ a, Quiet (did a)) : Emits (clearing step did oracle) Quiet :=
  emits_record h nofun

theorem refuseIf_emits (refused : Bool) (err : SubmitError) :
    Emits (refuseIf refused err : SubmitM σ Unit) P :=
  .ite (fun _ => emits_throw _) fun _ => emits_pure _

theorem createAction_emits : Emits (createAction env) P :=
  .ite (fun _ => emits_pure _) fun _ => (emits_call _).map _

theorem createTx_emits (data : Option String) (encoderOpts : EncoderOpts) (quote : Option FeeQuote) : Emits (createTx env data encoderOpts quote) P :=
  (emits_call _).tryCatch fun _ => emits_throw _

theorem verifyBuilt_emits (encoded : Encoded) (data : Option String) (encoderOpts : EncoderOpts) :
    Emits (verifyBuilt env opts encoded data encoderOpts) P :=
  .ite (fun _ => emits_call _) fun _ => emits_pure _

/-- The two ways to prepare emit progress only. -/
theorem preparePrebuilt_emits (h : ∀ phase, P (.progress phase)) (prebuilt : PrebuiltPsbt) :
    Emits (preparePrebuilt env opts prebuilt) P := by
  refine (refuseIf_emits _ _).bind fun _ => (progress_emits _ (h _)).bind fun _ => ?_
  exact (progress_emits _ (h _)).bind fun _ => emits_pure _

theorem prepareLive_emits (h : ∀ phase, P (.progress phase)) :
    Emits (prepareLive env opts) P := by
  refine (progress_emits _ (h _)).bind fun _ => createAction_emits.bind fun _ => ?_
  refine (emits_call _).bind fun _ => (emits_call _).bind fun _ => ?_
  refine (emits_call _).bind fun _ => (emits_call _).bind fun _ => ?_
  refine (refuseIf_emits _ _).bind fun _ => (progress_emits _ (h _)).bind fun _ => ?_
  refine (createTx_emits _ _ _).bind fun _ => (refuseIf_emits _ _).bind fun _ => ?_
  exact (verifyBuilt_emits _ _ _).bind fun _ => emits_pure _

theorem prepare_quiet : Emits (prepare env opts) Quiet := by
  refine (refuseIf_emits _ _).bind fun _ => (refuseIf_emits _ _).bind fun _ => ?_
  refine (refuseIf_emits _ _).bind fun _ => (clearing_quiet (by nofun)).bind fun _ => ?_
  refine (emits_call _).bind fun _ => (refuseIf_emits _ _).bind fun _ => ?_
  split
  · exact preparePrebuilt_emits (fun _ => nofun) _
  · exact prepareLive_emits fun _ => nofun

theorem signEnvelopeReveal_quiet (encoded : Encoded) :
    Emits (signEnvelopeReveal env opts encoded) Quiet :=
  .ite (fun _ => (clearing_quiet (by nofun)).map _) fun _ => emits_pure _

variable (prepared : Prepared)

theorem signSpend_quiet (phase1Outputs : List CustomOutput) (signed : SignedTransaction) :
    Emits (signSpend env opts prepared phase1Outputs signed) Quiet := by
  refine Emits.bind ?_ fun _ => (emits_call _).bind fun _ => ?_
  · cases prepared.createResult with
    | none => exact emits_throw _
    | some createResult => exact emits_pure _
  · refine (emits_emit (by nofun)).bind fun _ => (emits_call _).bind fun _ => ?_
    exact (emits_call _).bind fun _ => clearing_quiet (by nofun)

theorem signPhase2_quiet (phase1Outputs : List CustomOutput) (signed : SignedTransaction) :
    Emits (signPhase2 env opts prepared phase1Outputs signed) Quiet :=
  .ite (fun _ => (signSpend_quiet _ _ _).map _) fun _ => emits_pure _

theorem signTransactions_quiet :
    Emits (signTransactions env opts prepared) Quiet := by
  refine (emits_emit (by nofun)).bind fun _ => (refuseIf_emits _ _).bind fun _ => ?_
  refine Emits.bind ?_ fun _ => (progress_quiet _).bind fun _ => ?_
  · exact .ite (fun _ => emits_call _) fun _ => emits_pure _
  · refine (clearing_quiet (by nofun)).bind fun _ => (refuseIf_emits _ _).bind fun _ => ?_
    refine (signEnvelopeReveal_quiet _).bind fun _ => ?_
    exact (signPhase2_quiet _ _ _).bind fun _ => emits_pure _

theorem clearBroadcast_quiet (encoded : Encoded) (signed : SignedTransaction)
    (reveal : Option SignedTransaction) : Emits (clearBroadcast env opts encoded signed reveal) Quiet := by
  refine Emits.bind ?_ fun _ => (clearing_quiet (by nofun)).bind fun _ => ?_
  · unfold approve
    split
    · exact clearing_quiet (by nofun)
    · exact emits_pure _
  · refine Emits.bind ?_ fun _ => clearing_quiet (by nofun)
    unfold recordPendingCommit
    split
    · exact clearing_quiet (by nofun)
    · exact emits_pure _

/-! ### The steps after the clearance -/

section
variable {signed : SignedTransaction} {reveal : Option SignedTransaction}

theorem progress_delivers (phase : SubmitPhase) :
    Emits (progress env phase) (Delivers signed reveal) :=
  progress_emits phase (.inl ⟨phase, rfl⟩)

theorem broadcastOrFail_delivers {tx : SignedTransaction} (encoding : String) (phase : BroadcastPhase)
    (carried : Option SignedTransaction) (h : BytesOf signed reveal tx.txHex) :
    Emits (broadcastOrFail env opts encoding phase tx carried) (Delivers signed reveal) := by
  refine Emits.tryCatch ((emits_emit (.inr ⟨_, rfl, h⟩)).bind fun _ => ?_) fun _ => emits_throw _
  exact (emits_call _).tryCatch fun _ => .ite (fun _ => emits_pure _) fun _ => emits_throw _

theorem broadcastTransactions_delivers (encoded : Encoded) :
    Emits (broadcastTransactions env opts encoded signed reveal) (Delivers signed reveal) := by
  refine (broadcastOrFail_delivers _ _ _ (.inl rfl)).bind fun _ => ?_
  cases reveal with
  | none => exact emits_pure _
  | some tx =>
    refine Emits.bind (.ite (fun _ => ?_) fun _ => ?_) fun _ => emits_pure _
    · refine (progress_delivers _).bind fun _ => ?_
      refine (broadcastOrFail_delivers _ _ _ (.inr ⟨tx, rfl, rfl⟩)).bind fun _ => ?_
      refine ((emits_call _).tryCatch fun _ => emits_pure _).bind fun _ => ?_
      exact (progress_delivers _).tryCatch fun _ => emits_pure _
    · refine (progress_delivers _).bind fun _ => ?_
      exact broadcastOrFail_delivers _ _ _ (.inr ⟨tx, rfl, rfl⟩)

theorem awaitIndexed_delivers (txid : String) :
    Emits (awaitIndexed env txid) (Delivers signed reveal) := by
  unfold awaitIndexed
  split
  · exact emits_pure _
  · refine (progress_delivers _).bind fun _ => (emits_call _).bind fun _ => ?_
    exact (progress_delivers _).bind fun _ => emits_pure _

end

/-! ### The envelope of an answer that is gone on with -/

/-- An answer that names an envelope names it whole. -/
def Encoded.Whole (encoded : Encoded) : Prop :=
  isEnvelopePair encoded.encoding encoded.revealPsbt encoded.envelope = true →
    isCompleteEnvelope encoded.encoding encoded.revealPsbt encoded.envelope = true

variable {encoded : Encoded}

theorem Encoded.Whole.taproot (h : encoded.Whole) (hpair : encoded.envelopePair = true) :
    encoded.encoding = "TAPROOT" ∧ ∃ e, encoded.envelope = some e := by
  have hcomplete := h (by simp [isEnvelopePair, show encoded.revealPsbt.truthy = true from hpair])
  simp only [isCompleteEnvelope, Bool.and_eq_true, decide_eq_true_eq] at hcomplete
  obtain ⟨⟨⟨-, henc⟩, -⟩, henv⟩ := hcomplete
  obtain ⟨e, he, -⟩ := (Option.any_eq_true _ _).mp henv
  exact ⟨henc, e, he⟩

theorem Encoded.Whole.not_needsPhase2 (h : encoded.Whole) (hpair : encoded.envelopePair = true) :
    encoded.needsPhase2 = false := by
  simp [Encoded.needsPhase2, (h.taproot hpair).1]

theorem refuseIf_ensures (refused : Bool) (err : SubmitError) :
    Ensures (refuseIf refused err : SubmitM σ Unit) fun _ n => n = [] ∧ refused = false := by
  cases refused with
  | true => exact ensures_throw _
  | false => exact ensures_pure ⟨rfl, rfl⟩

theorem preparePrebuilt_whole (prebuilt : PrebuiltPsbt) :
    Ensures (preparePrebuilt env opts prebuilt) fun prepared _ => prepared.encoded.Whole := by
  refine (refuseIf_ensures _ _).bind fun _ _ hwhole => ?_
  refine ensures_bind_of_returned fun _ => ensures_bind_of_returned fun _ => ensures_pure ?_
  have hprebuilt := hwhole.2
  simp only [Encoded.Whole]
  split
  · simpa using hprebuilt
  · next hpair =>
    intro htaproot
    simp [isEnvelopePair, RevealPsbt.truthy] at htaproot hpair
    exact absurd htaproot hpair.1.1

theorem prepareLive_whole :
    Ensures (prepareLive env opts) fun prepared _ => prepared.encoded.Whole := by
  refine ensures_bind_of_returned fun _ => ensures_bind_of_returned fun _ => ?_
  refine ensures_bind_of_returned fun _ => ensures_bind_of_returned fun _ => ?_
  refine ensures_bind_of_returned fun _ => ensures_bind_of_returned fun _ => ?_
  refine ensures_bind_of_returned fun _ => ensures_bind_of_returned fun _ => ?_
  refine ensures_bind_of_returned fun encoded => ?_
  refine (refuseIf_ensures _ _).bind fun _ _ hwhole => ?_
  refine ensures_bind_of_returned fun _ => ensures_pure fun hpair => ?_
  simpa [hpair] using hwhole.2

/-! ### What the steps leave where they return -/

theorem clearing_ensures {α : Type} {step : ClearingStep} {did : α → SubmitEvent} {oracle : Ask σ α} :
    Ensures (clearing step did oracle) fun a n => n = [did a] :=
  ensures_record

theorem refuseIf_succeeds (refused : Bool) (err : SubmitError) :
    Ensures (refuseIf refused err : SubmitM σ Unit) fun _ n => ∀ e ∈ n, Succeeds e :=
  (refuseIf_emits refused err).ensures

theorem prepare_ensures :
    Ensures (prepare env opts) fun prepared n => (∀ e ∈ n, Succeeds e) ∧ prepared.encoded.Whole := by
  have hfreeze : Ensures (assertSigningAllowed env) fun _ n => ∀ e ∈ n, Succeeds e :=
    clearing_ensures.mono fun _ n hn => by simp [hn, Succeeds]
  refine (refuseIf_succeeds _ _).bind_events (fun _ => ?_) fun _ _ _ h => h
  refine (refuseIf_succeeds _ _).bind_events (fun _ => ?_) fun _ _ _ h => h
  refine (refuseIf_succeeds _ _).bind_events (fun _ => ?_) fun _ _ _ h => h
  refine hfreeze.bind_events (fun _ => ?_) fun _ _ _ h => h
  refine (emits_call _).ensures.bind_events (fun _ => ?_) fun _ _ _ h => h
  refine (refuseIf_succeeds _ _).bind_events (fun _ => ?_) fun _ _ _ h => h
  have hprogress : ∀ phase, Succeeds (.progress phase) := fun _ => nofun
  cases opts.prebuiltPsbt with
  | some prebuilt =>
    intro w a w' n hrun
    exact ⟨preparePrebuilt_emits hprogress _ _ _ _ _ hrun, preparePrebuilt_whole _ _ _ _ _ hrun⟩
  | none =>
    intro w a w' n hrun
    exact ⟨prepareLive_emits hprogress _ _ _ _ hrun, prepareLive_whole _ _ _ _ hrun⟩

theorem signEnvelopeReveal_ensures (encoded : Encoded) :
    Ensures (signEnvelopeReveal env opts encoded) fun reveal n => (∀ e ∈ n, Succeeds e) ∧
      if encoded.envelopePair then
        ∃ tx, reveal = some tx ∧ SubmitEvent.signed encoded.revealPsbt.hex tx ∈ n
      else reveal = none := by
  unfold signEnvelopeReveal
  split
  · refine clearing_ensures.bind fun tx n₁ hn₁ => ensures_pure ?_
    simp [hn₁, Succeeds]
  · exact ensures_pure ⟨List.forall_mem_nil _, rfl⟩

theorem signSpend_ensures (phase1Outputs : List CustomOutput) (signed : SignedTransaction) :
    Ensures (signSpend env opts prepared phase1Outputs signed) fun tx n => (∀ e ∈ n, Succeeds e) ∧
      ∃ psbt, SubmitEvent.spendBuilt psbt ∈ n ∧ SubmitEvent.signed psbt tx ∈ n := by
  have hdata : Ensures (actionStringOf (σ := σ) prepared.createResult) fun _ n => n = [] := by
    cases prepared.createResult with
    | none => exact ensures_throw _
    | some createResult => exact ensures_pure rfl
  refine hdata.bind fun _ _ hn₁ => ensures_call.bind fun psbt _ hn₂ => ?_
  refine ensures_emit.bind fun _ _ hn₃ => ensures_call.bind fun _ _ hn₄ => ?_
  refine ensures_call.bind fun _ _ hn₅ => ?_
  refine clearing_ensures.mono fun tx n hn => ?_
  subst hn₁ hn₂ hn₃ hn₄ hn₅ hn
  simp [Succeeds]

theorem signPhase2_ensures (phase1Outputs : List CustomOutput) (signed : SignedTransaction) :
    Ensures (signPhase2 env opts prepared phase1Outputs signed) fun reveal n =>
      (∀ e ∈ n, Succeeds e) ∧
      if prepared.encoded.needsPhase2 then
        ∃ tx psbt, reveal = some tx ∧ SubmitEvent.spendBuilt psbt ∈ n ∧
          SubmitEvent.signed psbt tx ∈ n
      else reveal = none := by
  unfold signPhase2
  split
  · refine (signSpend_ensures _ _ _).bind fun tx n₁ h => ensures_pure ?_
    obtain ⟨hsucc, psbt, hbuilt, hsigned⟩ := h
    simp only [List.append_nil]
    exact ⟨hsucc, tx, psbt, rfl, hbuilt, hsigned⟩
  · exact ensures_pure ⟨List.forall_mem_nil _, rfl⟩

/-- **Every transaction of the action is signed** where the signing steps return, and the commit is
the one that the recovery record names. -/
theorem signTransactions_ensures {prepared : Prepared} (hwhole : prepared.encoded.Whole) :
    Ensures (signTransactions env opts prepared) fun txs n => (∀ e ∈ n, Succeeds e) ∧
      .built prepared.encoded ∈ n ∧ AllSigned n prepared.encoded txs.1 txs.2 ∧
      (prepared.encoded.envelopePair = true →
        ∀ e, prepared.encoded.envelope = some e → e.commitTxid = some txs.1.txid) := by
  have hprogress : ∀ phase, Ensures (progress env phase) fun _ n => ∀ e ∈ n, Succeeds e :=
    fun phase => (progress_emits phase nofun).ensures
  have houtputs : Ensures (commitOutputs env prepared.encoded) fun _ n => n = [] :=
    .ite (fun _ => ensures_call) fun _ => ensures_pure rfl
  refine ensures_emit.bind fun _ _ hn₁ => ?_
  refine (refuseIf_ensures _ _).bind fun _ _ ⟨hn₂, _⟩ => houtputs.bind fun _ _ hn₃ => ?_
  refine (hprogress _).bind fun _ n₄ hn₄ => clearing_ensures.bind fun signed _ hn₅ => ?_
  refine (refuseIf_ensures _ _).bind fun _ _ ⟨hn₆, hcommit⟩ => ?_
  refine (signEnvelopeReveal_ensures _).bind fun envelopeReveal n₇ ⟨hn₇, henvelope⟩ => ?_
  refine (signPhase2_ensures _ _ _).bind fun phase2 n₈ ⟨hn₈, hphase2⟩ => ensures_pure ?_
  subst hn₁ hn₂ hn₃ hn₅ hn₆
  refine ⟨?_, by simp, ⟨by simp, fun hpair => ?_, fun hphase => ?_, fun hpair hphase => ?_⟩, ?_⟩
  · simp only [List.mem_append, List.mem_singleton, List.not_mem_nil]
    rintro e (rfl | h | h | h | rfl | h | h | h | h)
    · exact nofun
    · exact h.elim
    · exact h.elim
    · exact hn₄ e h
    · exact nofun
    · exact h.elim
    · exact hn₇ e h
    · exact hn₈ e h
    · exact h.elim
  · rw [if_pos hpair] at henvelope
    obtain ⟨tx, rfl, hsigned⟩ := henvelope
    exact ⟨tx, rfl, by simp [hsigned]⟩
  · have hpair : prepared.encoded.envelopePair = false := by
      by_contra hpair
      rw [hwhole.not_needsPhase2 (by simpa using hpair)] at hphase
      cases hphase
    rw [if_neg (by simp [hpair])] at henvelope
    rw [if_pos hphase] at hphase2
    obtain ⟨tx, psbt, rfl, hbuilt, hsigned⟩ := hphase2
    exact ⟨tx, psbt, by simp [henvelope], by simp [hbuilt], by simp [hsigned]⟩
  · rw [if_neg (by simp [hpair])] at henvelope
    rw [if_neg (by simp [hphase])] at hphase2
    simp [henvelope, hphase2]
  · intro hpair e he
    simpa [hpair, he] using hcommit

/-- **The bytes are cleared** where the steps before the broadcast return. -/
theorem clearBroadcast_ensures
    (hrecord : encoded.envelopePair = true →
      ∃ e, encoded.envelope = some e ∧ e.commitTxid = some signed.txid) :
    Ensures (clearBroadcast env opts encoded signed reveal) fun _ n => (∀ e ∈ n, Succeeds e) ∧
      ∃ before after, n = before ++ .freezeChecked :: after ∧
        WrittenDown opts after encoded signed reveal := by
  have happrove : Ensures (approve env encoded.psbt signed reveal) fun _ n => ∀ e ∈ n, Succeeds e := by
    unfold approve
    split
    · exact clearing_ensures.mono fun _ n hn => by simp [hn, Succeeds]
    · exact ensures_pure (List.forall_mem_nil _)
  have hrecovery : Ensures (recordPendingCommit env opts encoded) fun _ n =>
      (∀ e ∈ n, Succeeds e) ∧ (encoded.envelopePair = true → ∃ e, encoded.envelope = some e ∧
        e.commitTxid = some signed.txid ∧ .recorded (recoveryRecord opts e) ∈ n) := by
    unfold recordPendingCommit
    split
    · next e hpair henv =>
      refine clearing_ensures.mono fun _ n hn => ⟨by simp [hn, Succeeds], fun _ => ?_⟩
      obtain ⟨e', he', htxid⟩ := hrecord hpair
      rw [henv, Option.some.injEq] at he'
      subst he'
      exact ⟨e, henv, htxid, by simp [hn]⟩
    · next hnone =>
      refine ensures_pure ⟨List.forall_mem_nil _, fun hpair => ?_⟩
      obtain ⟨e, he, -⟩ := hrecord hpair
      exact (hnone e hpair he).elim
  refine happrove.bind fun _ n₁ hn₁ => clearing_ensures.bind fun _ _ hn₂ => ?_
  refine hrecovery.bind fun _ n₃ ⟨hn₃, hrec⟩ => clearing_ensures.mono fun _ n₄ hn₄ => ?_
  subst hn₂ hn₄
  refine ⟨?_, n₁, n₃ ++ [.checkpointed (checkpointOf signed reveal)], by simp, fun hpair => ?_, by simp⟩
  · simp only [List.mem_append, List.mem_singleton]
    rintro e (h | rfl | h | rfl)
    · exact hn₁ e h
    · exact nofun
    · exact hn₃ e h
    · exact nofun
  · obtain ⟨e, henv, htxid, hmem⟩ := hrec hpair
    exact ⟨e, henv, htxid, List.mem_append_left _ hmem⟩

/-! ### The whole submission -/

theorem AllSigned.mono {trace trace' : List SubmitEvent} (h : ∀ e ∈ trace, e ∈ trace')
    (hall : AllSigned trace encoded signed reveal) : AllSigned trace' encoded signed reveal where
  commit := h _ hall.commit
  envelope hpair := by
    obtain ⟨tx, htx, hmem⟩ := hall.envelope hpair
    exact ⟨tx, htx, h _ hmem⟩
  phase2 hphase := by
    obtain ⟨tx, psbt, htx, hbuilt, hmem⟩ := hall.phase2 hphase
    exact ⟨tx, psbt, htx, h _ hbuilt, h _ hmem⟩
  single := hall.single

theorem WrittenDown.mono {trace trace' : List SubmitEvent} (h : ∀ e ∈ trace, e ∈ trace')
    (hdown : WrittenDown opts trace encoded signed reveal) :
    WrittenDown opts trace' encoded signed reveal where
  recovery hpair := by
    obtain ⟨e, henv, htxid, hmem⟩ := hdown.recovery hpair
    exact ⟨e, henv, htxid, h _ hmem⟩
  checkpoint := h _ hdown.checkpoint

/-- A trace with no broadcast promises nothing it does not keep. -/
theorem kept_of_quiet {trace : List SubmitEvent} (h : ∀ e ∈ trace, Quiet e) :
    BroadcastsCleared opts trace ∧ SilentOnThrow trace := by
  refine ⟨fun before txHex after heq => ?_, fun _ _ txHex hmem => h _ hmem txHex rfl⟩
  exact (h (.broadcast txHex) (by simp [heq]) txHex rfl).elim

/-- What follows a clearance keeps both promises: the clearance stands before each broadcast. -/
theorem kept_of_cleared {quiet rest : List SubmitEvent} (hquiet : ∀ e ∈ quiet, Quiet e)
    (hsucc : ∀ e ∈ quiet, Succeeds e) (hrest : ∀ e ∈ rest, Delivers signed reveal e)
    (hcleared : Cleared opts quiet encoded signed reveal) :
    BroadcastsCleared opts (quiet ++ rest) ∧ SilentOnThrow (quiet ++ rest) := by
  refine ⟨fun before txHex after heq => ?_, fun step hmem => ?_⟩
  · -- the clearance is the whole of `quiet`, and a broadcast stands after it
    obtain ⟨between, rfl, hafter⟩ : ∃ between, before = quiet ++ between ∧
        rest = between ++ .broadcast txHex :: after := by
      rcases List.append_eq_append_iff.mp heq with ⟨between, rfl, hrest'⟩ | ⟨between, hquiet', hcons⟩
      · exact ⟨between, rfl, hrest'⟩
      · cases between with
        | nil => exact ⟨[], by simpa using hquiet'.symm, by simpa using hcons.symm⟩
        | cons e between =>
          obtain ⟨rfl, -⟩ := List.cons.inj hcons
          exact (hquiet (.broadcast txHex) (by simp [hquiet']) txHex rfl).elim
    refine ⟨encoded, signed, reveal, ⟨List.mem_append_left _ hcleared.built, ?_⟩, ?_⟩
    · obtain ⟨b, a, rfl, hsigned, hdown⟩ := hcleared.ordered
      exact ⟨b, a ++ between, by simp, hsigned, hdown.mono fun _ => List.mem_append_left _⟩
    · rcases hrest (.broadcast txHex) (by simp [hafter]) with ⟨_, h⟩ | ⟨_, h, hbytes⟩
      · cases h
      · cases h
        exact hbytes
  · rcases List.mem_append.mp hmem with hmem | hmem
    · exact (hsucc _ hmem step rfl).elim
    · exact ((hrest _ hmem).succeeds step rfl).elim

/-- **Nothing leaves before it is cleared.** In every trace of a submission each broadcast is of a
transaction of the action, and before it stand, in this order, the signature of every transaction, the
freeze check, and the recovery record of an envelope and the written-down bytes. Where one of these
threw, nothing was broadcast. -/
theorem submitWithSigner_cleared (env : SubmitEnv σ) (opts : SubmitOpts) (w : σ) :
    BroadcastsCleared opts ((submitWithSigner env opts).run w).2.2 ∧
      SilentOnThrow ((submitWithSigner env opts).run w).2.2 := by
  rcases hrun : (submitWithSigner env opts).run w with ⟨r, w', n⟩
  change BroadcastsCleared opts n ∧ SilentOnThrow n
  rcases bind_run_eq hrun with ⟨_, hprepare, -⟩ | ⟨prepared, w₁, n₁, m₁, hprepare, hrun₁, rfl⟩
  · exact kept_of_quiet (prepare_quiet _ _ _ _ hprepare)
  have hquiet₁ := prepare_quiet _ _ _ _ hprepare
  obtain ⟨hsucc₁, hwhole⟩ := prepare_ensures _ _ _ _ hprepare
  rcases bind_run_eq hrun₁ with ⟨_, hsign, -⟩ | ⟨⟨signed, reveal⟩, w₂, n₂, m₂, hsign, hrun₂, rfl⟩
  · exact kept_of_quiet (List.forall_mem_append.mpr
      ⟨hquiet₁, signTransactions_quiet _ _ _ _ _ hsign⟩)
  have hquiet₂ := signTransactions_quiet _ _ _ _ _ hsign
  obtain ⟨hsucc₂, hbuilt, hall, hcommit⟩ := signTransactions_ensures hwhole _ _ _ _ hsign
  rcases bind_run_eq hrun₂ with ⟨_, hclear, -⟩ | ⟨_, w₃, n₃, m₃, hclear, hrun₃, rfl⟩
  · exact kept_of_quiet (List.forall_mem_append.mpr ⟨hquiet₁, List.forall_mem_append.mpr
      ⟨hquiet₂, clearBroadcast_quiet _ _ _ _ _ _ _ hclear⟩⟩)
  have hquiet₃ := clearBroadcast_quiet _ _ _ _ _ _ _ hclear
  have hrecord : prepared.encoded.envelopePair = true →
      ∃ e, prepared.encoded.envelope = some e ∧ e.commitTxid = some signed.txid := by
    intro hpair
    obtain ⟨-, e, henv⟩ := hwhole.taproot hpair
    exact ⟨e, henv, hcommit hpair e henv⟩
  obtain ⟨hsucc₃, before, after, rfl, hdown⟩ := clearBroadcast_ensures hrecord _ _ _ _ hclear
  have hrest : ∀ e ∈ m₃, Delivers signed reveal e := by
    refine Emits.bind (broadcastTransactions_delivers _) (fun final => ?_) _ _ _ _ hrun₃
    exact (awaitIndexed_delivers _).bind fun _ => emits_pure _
  have hassoc : n₁ ++ (n₂ ++ (before ++ .freezeChecked :: after ++ m₃)) =
      n₁ ++ n₂ ++ (before ++ .freezeChecked :: after) ++ m₃ := by simp
  rw [hassoc]
  have hcleared : Cleared opts (n₁ ++ n₂ ++ (before ++ .freezeChecked :: after)) prepared.encoded
      signed reveal :=
    ⟨by simp [hbuilt], n₁ ++ n₂ ++ before, after, by simp, hall.mono fun e he => by simp [he], hdown⟩
  refine kept_of_cleared ?_ ?_ hrest hcleared
  · exact List.forall_mem_append.mpr ⟨List.forall_mem_append.mpr ⟨hquiet₁, hquiet₂⟩, hquiet₃⟩
  · exact List.forall_mem_append.mpr ⟨List.forall_mem_append.mpr ⟨hsucc₁, hsucc₂⟩, hsucc₃⟩

/-- An environment that answers every question, with a two-phase encoder. -/
private def answering : SubmitEnv Unit where
  hasEncoder := true
  isBareNativePayment := false
  owesPayment := false
  hasNativePaymentOutput _ := false
  capRbfToDescriptor encoderOpts := encoderOpts
  isChunkEncoding encoding := encoding = "P2SH"
  annotateEncoderFeeRequirement err _ := err
  isAlreadyOnNetworkRejection _ := false
  inputCount _ := some 1
  assertSigningAllowed w := (.ok (), w)
  assertMainnetActionAllowed w := (.ok (), w)
  createAction w := (.ok ⟨"DEPLOY|0", "DEPLOY", some "0"⟩, w)
  envelopeEncoderOpts _ encoderOpts w := (.ok encoderOpts, w)
  withNativePaymentOutput encoderOpts w := (.ok encoderOpts, w)
  applyNativeFeePreflight encoderOpts _ w := (.ok (none, encoderOpts), w)
  applyOracleFeePreflight encoderOpts w := (.ok encoderOpts, w)
  createTx _ _ w := (.ok ⟨"commit", "P2SH", none, .missing, none⟩, w)
  assertBuiltActionMatchesIntent _ _ _ w := (.ok (), w)
  outputsOf _ w := (.ok [], w)
  signPsbt request w := (.ok ⟨"", request.psbtHex ++ "-tx", request.psbtHex ++ "-id"⟩, w)
  spendP2sh _ w := (.ok "spend", w)
  assertRevealSpendsCommitLegs _ _ _ w := (.ok (), w)
  assertRevealPaysApprovedOutputs _ _ _ _ w := (.ok (), w)
  beforeBroadcast := none
  recordPendingCommit _ w := (.ok (), w)
  clearPendingCommit _ _ w := (.ok (), w)
  broadcastTx _ w := (.ok (), w)
  waitForTxid := none
  onProgress _ w := (.ok (), w)

private def deployOpts : SubmitOpts where
  chainId := "bitcoin"
  action := "DEPLOY"
  encoderOpts := ⟨"02aa", none, none, none, none, none, none⟩
  signerKind := some "software"
  signingPaths := [⟨0, "m/84'/0'/0'/0/0"⟩]
  prebuiltPsbt := none
  verifyBuiltTx := false

/-- What a two-phase submission leaves, its progress aside. -/
example : ((submitWithSigner answering deployOpts).run ()).2.2.filter (fun e => e matches .signed .. |
      .freezeChecked | .checkpointed _ | .broadcast _) =
    [.freezeChecked, .signed "commit" ⟨"", "commit-tx", "commit-id"⟩,
      .signed "spend" ⟨"", "spend-tx", "spend-id"⟩, .freezeChecked,
      .checkpointed ⟨"commit-id", "commit-tx", some ⟨"", "spend-tx", "spend-id"⟩⟩,
      .broadcast "commit-tx", .broadcast "spend-tx"] := by
  decide

end XchainWallet.Submit
