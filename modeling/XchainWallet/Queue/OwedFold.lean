import XchainWallet.Queue.Settlement

/-!
# Folding owed writes

The journal keeps one record for each `PendingTx`, so a sequence of writes that is owed to it
is folded into one record. `foldOwedSettlements_iff` says for which sequences the replay of
that record does what the replay of the writes in their order does, on every state of the
`PendingTx`: those without a reveal outcome among the writes up to the first one that closes
the record (`untilClosed`), and those of reveal outcomes that agree. A reveal outcome beside
another write is the case that `foldOwedSettlement` gets wrong. It replays the reveal first,
whatever the order was, and where the reveal cannot be promoted it drops the other writes.
-/

namespace XchainWallet

open OwedRecord
open List (foldl_cons map_cons mem_cons)

/-! ### Writes and their sequences -/

/-- A patch that names a status, as those of the settlement writers do. -/
structure StatusPatch where
  fields : Patch
  named : fields.status.isSome

/-- A write that the engine can owe to a `PendingTx`. -/
inductive OwedWrite
  | patch (patch : StatusPatch)
  | reveal (reveal : Reveal)
  | discard

open OwedWrite

/-- What `recordOneOwedSettlement` stamps a record with. -/
structure Stamp where
  id : String
  recordedAt : ℕ

namespace OwedWrite

/-- The record that `recordOneOwedSettlement` makes of a write. -/
def record (walletId : Option String) (pendingTxId : String) (stamp : Stamp) :
    OwedWrite → OwedRecord
  | patch p =>
    { id := stamp.id, walletId, pendingTxId, op := .patch, patch := some p.fields,
      recordedAt := stamp.recordedAt }
  | reveal outcome =>
    { id := stamp.id, walletId, pendingTxId, op := .reveal, reveal := some outcome,
      recordedAt := stamp.recordedAt }
  | discard =>
    { id := stamp.id, walletId, pendingTxId, op := .discard, recordedAt := stamp.recordedAt }

/-- The vault access that the replay of the write makes. -/
def stage : OwedWrite → Stage
  | patch p => .patch (some p.fields)
  | reveal outcome => .promote (some outcome)
  | discard => .discard

/-- The write itself, against a vault that refuses nothing. -/
def apply (now : String) (existing : Option PendingTx) (w : OwedWrite) : Option PendingTx :=
  (w.stage.settle now existing).result existing

/-- The write closes the record. -/
def Closes : OwedWrite → Prop
  | patch p => p.fields.Terminal
  | reveal _ => False
  | discard => True

instance : (w : OwedWrite) → Decidable w.Closes
  | patch p => inferInstanceAs (Decidable p.fields.Terminal)
  | reveal _ => .isFalse id
  | discard => .isTrue trivial

/-- The write is a reveal outcome. -/
def IsReveal (w : OwedWrite) : Prop := ∃ outcome, w = reveal outcome

end OwedWrite

/-- The writes up to the first one that closes the record. -/
def untilClosed : List OwedWrite → List OwedWrite
  | [] => []
  | w :: ws => if w.Closes then [w] else w :: untilClosed ws

theorem untilClosed_of_closes {w : OwedWrite} (hw : w.Closes) (ws : List OwedWrite) :
    untilClosed (w :: ws) = [w] := if_pos hw

theorem untilClosed_of_not_closes {w : OwedWrite} (hw : ¬w.Closes) (ws : List OwedWrite) :
    untilClosed (w :: ws) = w :: untilClosed ws := if_neg hw

/-- The replay of records one by one. -/
def replayInOrder (now : String) (records : List OwedRecord) (existing : Option PendingTx) :
    Option PendingTx :=
  records.foldl (fun existing owed => owed.replay now existing) existing

/-- One record of the journal, folded from an earlier one and those recorded after it. -/
def foldOwedFrom (prior : Option OwedRecord) (records : List OwedRecord) : Option OwedRecord :=
  records.foldl (fun prior next => (foldOwedSettlement prior next).or prior) prior

/-- The record that the journal holds after a sequence of writes. -/
def foldOwedSettlements (records : List OwedRecord) : Option OwedRecord := foldOwedFrom none records

/-- Two reveal outcomes that promote the same records: the first one expects no reveal txid,
or both expect the same. -/
def Reveal.Agrees (first later : Reveal) : Prop :=
  nonEmpty first.txid = none ∨ nonEmpty later.txid = nonEmpty first.txid

/-- The sequences whose fold replays in order. -/
def FoldSafe (ws : List OwedWrite) : Prop :=
  (∀ w ∈ untilClosed ws, ¬w.IsReveal) ∨
    ∃ (first : Reveal) (later : List Reveal), ws = .reveal first :: later.map .reveal ∧
      ∀ v ∈ later, first.Agrees v

/-! ### Records that no write changes any more -/

/-- A record that the settlement writers still write over. -/
def Unsettled (existing : Option PendingTx) : Prop := ∃ r ∈ existing, r.status.Writable

theorem Stage.settle_of_not_unsettled {existing : Option PendingTx} (h : ¬Unsettled existing)
    (now : String) (stage : Stage) : stage.settle now existing = .closed := by
  cases existing with
  | none => cases stage <;> rfl
  | some r =>
    have hr : ¬r.status.Writable := fun hw => h ⟨r, rfl, hw⟩
    cases stage with
    | promote reveal => exact if_pos hr
    | patch fields => exact if_pos hr
    | discard => exact if_pos hr

namespace OwedWrite

variable {now : String} {existing : Option PendingTx}

theorem apply_of_not_unsettled (h : ¬Unsettled existing) (w : OwedWrite) :
    w.apply now existing = existing := by
  rw [apply, Stage.settle_of_not_unsettled h]
  rfl

theorem foldl_apply_of_not_unsettled (h : ¬Unsettled existing) (ws : List OwedWrite) :
    ws.foldl (fun e w => w.apply now e) existing = existing := by
  induction ws with
  | nil => rfl
  | cons w ws ih => rw [foldl_cons, apply_of_not_unsettled h, ih]

theorem apply_patch_some {r : PendingTx} (hr : r.status.Writable) (p : StatusPatch) :
    (patch p).apply now (some r) = some (p.fields.onto r) := by
  simp [apply, stage, Stage.settle, applyPendingTxPatch, hr, Settling.result]

theorem replay_record (w : OwedWrite) (walletId : Option String) (pendingTxId : String)
    (stamp : Stamp) : (w.record walletId pendingTxId stamp).replay now existing =
      w.apply now existing := by
  have hstages : (w.record walletId pendingTxId stamp).stages = [w.stage] := by
    cases w <;> rfl
  rw [replay, hstages, replayFrom_singleton, apply]

/-- After a write that closes the record nothing changes it. -/
theorem not_unsettled_apply {w : OwedWrite} (hw : w.Closes) :
    ¬Unsettled (w.apply now existing) := by
  by_cases h : Unsettled existing
  · obtain ⟨r, rfl, hr⟩ := h
    cases w with
    | reveal v => exact hw.elim
    | patch p =>
      obtain ⟨status, hstatus, hterminal⟩ := hw
      rw [apply_patch_some hr]
      rintro ⟨r', hr', hwritable⟩
      obtain ⟨⟩ := hr'
      rw [Patch.status_onto, hstatus] at hwritable
      exact hterminal hwritable
    | discard =>
      rintro ⟨r', hr', hwritable⟩
      by_cases hlanded : r.commitLanded
      · have hput : (discard).apply now (some r) = some (commitLandedRecord now r
            "reveal discarded; its commit is already on the network") := by
          simp [apply, stage, Stage.settle, discardQueuedBroadcast, hr, hlanded, Settling.result]
        obtain rfl := Option.some.inj (hput.symm.trans hr')
        rcases hwritable with hq | hb
        · cases hq
        · cases hb
      · simp [apply, stage, Stage.settle, discardQueuedBroadcast, hr, hlanded,
          Settling.result] at hr'
  · rwa [apply_of_not_unsettled h]

end OwedWrite

/-! ### Sequences without a reveal -/

section Fold

variable {now : String} {existing : Option PendingTx} {walletId : Option String}
  {pendingTxId : String}

/-- The records of a sequence of writes to one `PendingTx`. -/
def owedRecords (walletId : Option String) (pendingTxId : String) (ws : List (Stamp × OwedWrite)) :
    List OwedRecord := ws.map fun w => w.2.record walletId pendingTxId w.1

theorem replayInOrder_owedRecords (ws : List (Stamp × OwedWrite)) :
    replayInOrder now (owedRecords walletId pendingTxId ws) existing =
      (ws.map Prod.snd).foldl (fun e w => w.apply now e) existing := by
  rw [replayInOrder, owedRecords, List.foldl_map, List.foldl_map]
  congr 1
  funext e w
  exact w.2.replay_record walletId pendingTxId w.1

theorem OwedWrite.pendingTxId_record (w : OwedWrite) (stamp : Stamp) :
    (w.record walletId pendingTxId stamp).pendingTxId = pendingTxId := by
  cases w <;> rfl

theorem foldOwedFrom_cons (prior : Option OwedRecord) (next : OwedRecord)
    (records : List OwedRecord) : foldOwedFrom prior (next :: records) =
      foldOwedFrom ((foldOwedSettlement prior next).or prior) records := rfl

/-- A record that is closed takes no later write. -/
theorem foldOwedFrom_of_closes {prior : OwedRecord} (hid : prior.pendingTxId = pendingTxId)
    (hcloses : prior.Closes) (ws : List (Stamp × OwedWrite)) :
    foldOwedFrom (some prior) (owedRecords walletId pendingTxId ws) = some prior := by
  induction ws with
  | nil => rfl
  | cons w ws ih =>
    rw [owedRecords, map_cons, foldOwedFrom_cons]
    have hfold : foldOwedSettlement (some prior) (w.2.record walletId pendingTxId w.1) = none := by
      simp [foldOwedSettlement, pendingTxId_record, hid, hcloses]
    rw [hfold]
    exact ih

/-- A record of patches that does not close its `PendingTx`. -/
structure OwedRecord.OpenPatch (prior : OwedRecord) (pendingTxId : String) (patch : Patch) :
    Prop where
  id : prior.pendingTxId = pendingTxId
  op : prior.op = .patch
  patch_eq : prior.patch = some patch
  discard : prior.discard = false
  writable : ¬patch.Terminal

namespace OwedRecord.OpenPatch

variable {prior : OwedRecord} {patch : Patch}

theorem not_closes (h : prior.OpenPatch pendingTxId patch) : ¬prior.Closes := by
  rintro (hop | hdiscard | ⟨p, hp, hterminal⟩)
  · simp [h.op] at hop
  · simp [h.discard] at hdiscard
  · rw [h.patch_eq] at hp
    exact h.writable (Option.some.inj hp ▸ hterminal)

theorem replay_eq (h : prior.OpenPatch pendingTxId patch) :
    prior.replay now existing = (applyPendingTxPatch (some patch) existing).result existing := by
  have hstages : prior.stages = [.patch (some patch)] := by simp [stages, h.op, h.patch_eq]
  rw [replay, hstages, replayFrom_singleton]
  rfl

/-- What a later write makes of the record. -/
theorem fold_eq (h : prior.OpenPatch pendingTxId patch) {next : OwedRecord}
    (hnext : next.pendingTxId = pendingTxId) : foldOwedSettlement (some prior) next =
      some { next with patch := some (patch.merge (next.patch.getD {})) } := by
  simp [foldOwedSettlement, h.id, hnext, h.not_closes, h.op, h.patch_eq]

theorem writable_onto {r : PendingTx} (hpatch : ¬patch.Terminal) (hr : r.status.Writable) :
    (patch.onto r).status.Writable := by
  rw [Patch.status_onto]
  cases hstatus : patch.status with
  | none => exact hr
  | some status =>
    by_contra hw
    exact hpatch ⟨status, hstatus, hw⟩

/-- A patch folded into the record is replayed after it. -/
theorem replay_merge (h : prior.OpenPatch pendingTxId patch) (p : StatusPatch) :
    (applyPendingTxPatch (some (patch.merge p.fields)) existing).result existing =
      (OwedWrite.patch p).apply now (prior.replay now existing) := by
  by_cases hu : Unsettled existing
  · obtain ⟨r, rfl, hr⟩ := hu
    rw [h.replay_eq]
    have hput : (applyPendingTxPatch (some patch) (some r)).result (some r) = some (patch.onto r) := by
      simp [applyPendingTxPatch, hr, Settling.result]
    rw [hput, apply_patch_some (writable_onto h.writable hr), ← Patch.merge_onto]
    simp [applyPendingTxPatch, hr, Settling.result]
  · rw [h.replay_eq]
    have hclosed : ∀ p : Patch, applyPendingTxPatch (some p) existing = .closed := fun p =>
      Stage.settle_of_not_unsettled hu now (.patch (some p))
    rw [hclosed, hclosed]
    exact (apply_of_not_unsettled hu _).symm

variable (walletId) in
/-- Patches, and a write that closes the record after them, fold safely. -/
theorem replay_foldOwedFrom (h : prior.OpenPatch pendingTxId patch)
    {ws : List (Stamp × OwedWrite)} (hws : ∀ w ∈ untilClosed (ws.map Prod.snd), ¬w.IsReveal) :
    ∃ folded, foldOwedFrom (some prior) (owedRecords walletId pendingTxId ws) = some folded ∧
      ∀ now existing, folded.replay now existing =
        (ws.map Prod.snd).foldl (fun e w => w.apply now e) (prior.replay now existing) := by
  induction ws generalizing prior patch with
  | nil => exact ⟨prior, rfl, fun _ _ => rfl⟩
  | cons w ws ih =>
    obtain ⟨stamp, w⟩ := w
    rw [owedRecords, map_cons, foldOwedFrom_cons, h.fold_eq (w.pendingTxId_record stamp)]
    cases w with
    | reveal v =>
      refine absurd ⟨v, rfl⟩ (hws (.reveal v) ?_)
      rw [map_cons, untilClosed_of_not_closes (w := .reveal v) not_false]
      exact (.head _)
    | discard =>
      -- the patch is replayed first, and after the discard nothing changes the record
      refine ⟨_, foldOwedFrom_of_closes rfl (.inl rfl) ws, fun now existing => ?_⟩
      rw [map_cons, foldl_cons, OwedWrite.foldl_apply_of_not_unsettled
        (OwedWrite.not_unsettled_apply (w := .discard) trivial), h.replay_eq]
      have hop : OwedOp.discard ≠ .reveal := by decide
      simp only [replay, stages, OwedWrite.record, Option.getD_none,
        Patch.merge_empty, Option.map_some, Option.toList_some, List.singleton_append]
      rw [replayFrom_cons hop, replayFrom_singleton]
      rfl
    | patch p =>
      have hstages : ∀ now existing, replay
          { OwedWrite.record walletId pendingTxId stamp (.patch p) with
            patch := some (patch.merge p.fields) } now existing =
          (OwedWrite.patch p).apply now (prior.replay now existing) := by
        intro now existing
        rw [← h.replay_merge, replay]
        exact replayFrom_singleton _ _ _ _
      have hstatus : (patch.merge p.fields).status = p.fields.status := by
        obtain ⟨status, hstatus⟩ := Option.isSome_iff_exists.mp p.named
        rw [Patch.merge, hstatus, Option.some_or]
      by_cases hterminal : p.fields.Terminal
      · have hcloses : (patch.merge p.fields).Terminal := by rwa [Patch.Terminal, hstatus]
        refine ⟨_, foldOwedFrom_of_closes rfl (.inr (.inr ⟨_, rfl, hcloses⟩)) ws, fun now existing => ?_⟩
        rw [map_cons, foldl_cons, OwedWrite.foldl_apply_of_not_unsettled
          (OwedWrite.not_unsettled_apply (w := .patch p) hterminal)]
        exact hstages now existing
      · have hopen : OwedRecord.OpenPatch
            { OwedWrite.record walletId pendingTxId stamp (.patch p) with
              patch := some (patch.merge p.fields) } pendingTxId (patch.merge p.fields) :=
          ⟨rfl, rfl, rfl, rfl, by rwa [Patch.Terminal, hstatus]⟩
        have hrest : ∀ w ∈ untilClosed (ws.map Prod.snd), ¬w.IsReveal := by
          intro w hw
          refine hws w ?_
          rw [map_cons, untilClosed_of_not_closes (w := .patch p) hterminal]
          exact List.mem_cons_of_mem _ hw
        obtain ⟨folded, hfold, hreplay⟩ := ih hopen hrest
        refine ⟨folded, hfold, fun now existing => ?_⟩
        rw [hreplay, hstages, map_cons, foldl_cons]

end OwedRecord.OpenPatch

/-! ### Reveal outcomes alone -/

/-- The outcome promotes the record to its reveal. -/
def Reveal.Promotes (outcome : Reveal) (r : PendingTx) : Prop :=
  r.status.Writable ∧ r.commitLanded = false ∧ nonEmpty r.revealTxHex ≠ none ∧
    ¬Mismatch (nonEmpty outcome.txid) (nonEmpty r.revealTxid)

theorem OwedWrite.apply_reveal_of_promotes {outcome : Reveal} {r : PendingTx}
    (h : outcome.Promotes r) :
    (reveal outcome).apply now (some r) = some (r.promoted (some outcome)) := by
  obtain ⟨hwritable, hlanded, hhex, htxid⟩ := h
  rw [apply, stage, Stage.settle, applyRevealPromotion, if_neg (not_not.mpr hwritable),
    if_neg (by simp [hlanded]), if_neg hhex, Option.bind_some, if_neg htxid]
  rfl

theorem OwedWrite.apply_reveal_of_not_promotes {outcome : Reveal} {r : PendingTx}
    (h : ¬outcome.Promotes r) : (reveal outcome).apply now (some r) = some r := by
  rw [apply, stage, Stage.settle, applyRevealPromotion]
  split
  · rfl
  · next hwritable =>
    split
    · rfl
    · next hlanded =>
      split
      · rfl
      · next hhex =>
        split
        · rfl
        · next htxid =>
          exact absurd ⟨not_not.mp hwritable, by simpa using hlanded, hhex, htxid⟩ h

theorem Reveal.not_promotes_of_landed {outcome : Reveal} {r : PendingTx}
    (h : r.commitLanded = true) : ¬outcome.Promotes r := by
  rintro ⟨-, hlanded, -⟩
  rw [h] at hlanded
  cases hlanded

/-- A reveal outcome after one that it agrees with changes nothing more. -/
private theorem apply_reveal_of_agrees {first later : Reveal} (h : first.Agrees later) :
    (reveal later).apply now ((reveal first).apply now existing) =
      (reveal first).apply now existing := by
  by_cases hu : Unsettled existing
  · obtain ⟨r, rfl, hr⟩ := hu
    by_cases hfirst : first.Promotes r
    · rw [apply_reveal_of_promotes hfirst]
      exact apply_reveal_of_not_promotes (Reveal.not_promotes_of_landed rfl)
    · rw [apply_reveal_of_not_promotes hfirst]
      refine apply_reveal_of_not_promotes ?_
      rintro ⟨hwritable, hlanded, hhex, htxid⟩
      refine hfirst ⟨hwritable, hlanded, hhex, ?_⟩
      -- the first outcome is refused for its txid only, which the later one shares
      rintro ⟨hsome, hrecord, hne⟩
      have hsame : nonEmpty later.txid = nonEmpty first.txid :=
        h.resolve_left fun hnone => by simp [hnone] at hsome
      exact htxid (hsame ▸ ⟨hsome, hrecord, hne⟩)
  · rw [apply_of_not_unsettled hu, apply_of_not_unsettled hu]

private theorem foldl_reveal_of_agrees {first : Reveal} {later : List Reveal}
    (h : ∀ v ∈ later, first.Agrees v) :
    (later.map OwedWrite.reveal).foldl (fun e w => w.apply now e)
        ((reveal first).apply now existing) =
      (reveal first).apply now existing := by
  induction later with
  | nil => rfl
  | cons v later ih =>
    rw [map_cons, foldl_cons, apply_reveal_of_agrees (h v (.head _))]
    exact ih fun v hv => h v (.tail _ hv)

variable (walletId) in
/-- A record with a reveal stays one of its reveal. -/
private theorem foldOwedFrom_reveal {prior : OwedRecord} (hid : prior.pendingTxId = pendingTxId)
    (hop : prior.op = .reveal) (ws : List (Stamp × OwedWrite)) :
    ∃ folded, foldOwedFrom (some prior) (owedRecords walletId pendingTxId ws) = some folded ∧
      folded.op = .reveal ∧ ((∀ w ∈ ws, w.2.IsReveal) → folded = prior) := by
  induction ws generalizing prior with
  | nil => exact ⟨prior, rfl, hop, fun _ => rfl⟩
  | cons w ws ih =>
    obtain ⟨stamp, w⟩ := w
    rw [owedRecords, map_cons, foldOwedFrom_cons]
    by_cases hclosed : prior.Closes
    · refine ⟨prior, ?_, hop, fun _ => rfl⟩
      have hfold : foldOwedSettlement (some prior) (w.record walletId pendingTxId stamp) = none := by
        simp [foldOwedSettlement, pendingTxId_record, hid, hclosed]
      rw [hfold]
      exact foldOwedFrom_of_closes hid hclosed ws
    · by_cases hw : (w.record walletId pendingTxId stamp).op = .reveal
      · have hfold : foldOwedSettlement (some prior) (w.record walletId pendingTxId stamp) = none := by
          simp [foldOwedSettlement, pendingTxId_record, hid, hclosed, hop, hw]
        rw [hfold]
        obtain ⟨folded, hfold, hop', heq⟩ := ih hid hop
        exact ⟨folded, hfold, hop', fun h => heq fun w hw => h w (.tail _ hw)⟩
      · have hnext : ∃ next, foldOwedSettlement (some prior) (w.record walletId pendingTxId stamp) =
            some next ∧ next.pendingTxId = pendingTxId ∧ next.op = .reveal := by
          simp [foldOwedSettlement, pendingTxId_record, hid, hclosed, hop, hw]
        obtain ⟨next, hfold, hid', hop'⟩ := hnext
        rw [hfold]
        obtain ⟨folded, hfold, hop', -⟩ := ih hid' hop'
        refine ⟨folded, hfold, hop', fun h => ?_⟩
        obtain ⟨v, rfl⟩ := h (stamp, w) (.head _)
        exact absurd rfl hw

variable {ws : List (Stamp × OwedWrite)}

/-- With a reveal before the record is closed, the folded record is one of a reveal. -/
private theorem op_foldOwedFrom_patch {prior : OwedRecord} {patch : Patch}
    (h : prior.OpenPatch pendingTxId patch) (hws : ∃ w ∈ untilClosed (ws.map Prod.snd), w.IsReveal) :
    ∃ folded, foldOwedFrom (some prior) (owedRecords walletId pendingTxId ws) = some folded ∧
      folded.op = .reveal := by
  induction ws generalizing prior patch with
  | nil =>
    obtain ⟨w, hw, -⟩ := hws
    cases hw
  | cons w ws ih =>
    obtain ⟨stamp, w⟩ := w
    rw [owedRecords, map_cons, foldOwedFrom_cons, h.fold_eq (w.pendingTxId_record stamp)]
    by_cases hcloses : w.Closes
    · rw [map_cons, untilClosed_of_closes hcloses] at hws
      obtain ⟨w', hw', v, rfl⟩ := hws
      obtain rfl := List.mem_singleton.mp hw'
      exact hcloses.elim
    · rw [map_cons, untilClosed_of_not_closes hcloses] at hws
      cases w with
      | discard => exact absurd trivial hcloses
      | reveal v =>
        obtain ⟨folded, hfold, hop, -⟩ := foldOwedFrom_reveal walletId
          (show OwedRecord.pendingTxId { record walletId pendingTxId stamp (.reveal v) with
            patch := some (patch.merge {}) } = pendingTxId from rfl) rfl ws
        exact ⟨folded, hfold, hop⟩
      | patch p =>
        have hstatus : (patch.merge p.fields).status = p.fields.status := by
          obtain ⟨status, hstatus⟩ := Option.isSome_iff_exists.mp p.named
          rw [Patch.merge, hstatus, Option.some_or]
        refine @ih _ (patch.merge p.fields) ⟨rfl, rfl, rfl, rfl, ?_⟩ ?_
        · rw [Patch.Terminal, hstatus]
          exact hcloses
        · obtain ⟨w', hw', v, rfl⟩ := hws
          rcases mem_cons.mp hw' with heq | hw'
          · cases heq
          · exact ⟨_, hw', v, rfl⟩

/-! ### The records that tell the sequences apart -/

/-- A two-phase record whose commit has not landed. -/
private def twoPhase (status : TxStatus) (revealTxHex revealTxid : Option String) : PendingTx :=
  { id := "p", chain := "bitcoin", network := "mainnet", fromAddress := "a", actionSummary := "",
    createdAt := "", status, revealTxHex, revealTxid }

/-- Where there are no reveal bytes, a reveal outcome does nothing. -/
private theorem not_promotes_twoPhase (v : Reveal) (status : TxStatus) :
    ¬v.Promotes (twoPhase status none none) := fun h => h.2.2.1 rfl

variable (now) in
/-- Replayed in order, a write that is no reveal forgets which writable status it found. -/
private theorem foldl_apply_twoPhase {ws : List OwedWrite} (hws : ∃ w ∈ ws, ¬w.IsReveal) :
    ws.foldl (fun e w => w.apply now e) (some (twoPhase .queued none none)) =
      ws.foldl (fun e w => w.apply now e) (some (twoPhase .broadcasting none none)) := by
  induction ws with
  | nil =>
    obtain ⟨w, hw, -⟩ := hws
    cases hw
  | cons w ws ih =>
    rw [foldl_cons, foldl_cons]
    cases w with
    | reveal v =>
      rw [apply_reveal_of_not_promotes (not_promotes_twoPhase v _),
        apply_reveal_of_not_promotes (not_promotes_twoPhase v _)]
      obtain ⟨w, hw, hne⟩ := hws
      rcases mem_cons.mp hw with rfl | hw
      · exact absurd ⟨v, rfl⟩ hne
      · exact ih ⟨w, hw, hne⟩
    | discard => rfl
    | patch p =>
      rw [apply_patch_some (.inl rfl), apply_patch_some (.inr rfl)]
      obtain ⟨status, hstatus⟩ := Option.isSome_iff_exists.mp p.named
      congr 2
      simp [Patch.onto, twoPhase, hstatus]

variable (now) in
/-- Among reveal outcomes one that promotes the record leaves its mark. -/
private theorem landed_foldl_reveal {r : PendingTx} {later : List Reveal}
    (h : r.commitLanded = true ∨ ∃ v ∈ later, v.Promotes r) :
    ∃ r', (later.map OwedWrite.reveal).foldl (fun e w => w.apply now e) (some r) = some r' ∧
      r'.commitLanded = true := by
  induction later generalizing r with
  | nil => exact ⟨r, rfl, h.resolve_right (by simp)⟩
  | cons v later ih =>
    rw [map_cons, foldl_cons]
    by_cases hv : v.Promotes r
    · rw [apply_reveal_of_promotes hv]
      exact ih (.inl rfl)
    · rw [apply_reveal_of_not_promotes hv]
      refine ih (h.imp_right ?_)
      rintro ⟨v', hv', hpromotes⟩
      rcases mem_cons.mp hv' with rfl | hv'
      · exact absurd hpromotes hv
      · exact ⟨v', hv', hpromotes⟩

/-- A reveal outcome with another txid than the first one promotes a record that the first one
does not. -/
private theorem exists_promotes_of_not_agrees {first later : Reveal} (h : ¬first.Agrees later) :
    ∃ r, ¬first.Promotes r ∧ later.Promotes r ∧ r.commitLanded = false := by
  rw [Reveal.Agrees, not_or] at h
  obtain ⟨hfirst, hne⟩ := h
  obtain ⟨a, ha⟩ := Option.ne_none_iff_exists'.mp hfirst
  -- the reveal txid of the record is the later one, or some other one
  obtain ⟨b, hb, hab, hlater⟩ : ∃ b, b ≠ "" ∧ a ≠ b ∧
      (nonEmpty later.txid = none ∨ nonEmpty later.txid = some b) := by
    cases hl : nonEmpty later.txid with
    | none =>
      refine ⟨a ++ "'", fun h => ?_, fun h => ?_, .inl rfl⟩
      · have hlen := congrArg String.length h
        simp at hlen
      · have hlen := congrArg String.length h
        simp at hlen
    | some b =>
      refine ⟨b, ?_, ?_, .inr rfl⟩
      · have hmem : b ∈ later.txid.filter (· ≠ "") := hl
        simpa using (Option.mem_filter_iff.mp hmem).2
      · rintro rfl
        exact hne (hl.trans ha.symm)
  have hb' : nonEmpty (some b) = some b := by simp [nonEmpty, hb]
  refine ⟨twoPhase .queued (some "00") (some b), ?_, ⟨.inl rfl, rfl, by simp [twoPhase, nonEmpty], ?_⟩, rfl⟩
  · rintro ⟨-, -, -, hmatch⟩
    refine hmatch ⟨by simp [ha], by simp [twoPhase, hb'], ?_⟩
    simp only [twoPhase, hb', ha]
    simpa using hab
  · rintro ⟨hsome, -, hmismatch⟩
    rcases hlater with hl | hl
    · simp [hl] at hsome
    · exact hmismatch (by simp [twoPhase, hb', hl])

/-! ### Exactly the safe sequences -/

/-- The replay of what the journal holds for a `PendingTx`. -/
def replayFolded (now : String) (folded : Option OwedRecord) (existing : Option PendingTx) :
    Option PendingTx :=
  folded.elim existing fun owed => owed.replay now existing

private theorem foldOwedSettlements_cons (stamp : Stamp) (w : OwedWrite)
    (ws : List (Stamp × OwedWrite)) :
    foldOwedSettlements (owedRecords walletId pendingTxId ((stamp, w) :: ws)) =
      foldOwedFrom (some (w.record walletId pendingTxId stamp))
        (owedRecords walletId pendingTxId ws) := rfl

/-- A safe sequence is replayed in order. -/
private theorem replayFolded_of_foldSafe (hws : FoldSafe (ws.map Prod.snd)) :
    replayFolded now (foldOwedSettlements (owedRecords walletId pendingTxId ws)) existing =
      replayInOrder now (owedRecords walletId pendingTxId ws) existing := by
  rw [replayInOrder_owedRecords]
  cases ws with
  | nil => rfl
  | cons w ws =>
    obtain ⟨stamp, w⟩ := w
    rw [foldOwedSettlements_cons, map_cons, foldl_cons,
      ← w.replay_record walletId pendingTxId stamp]
    rcases hws with hws | ⟨first, later, hws, hagree⟩
    · by_cases hcloses : w.Closes
      · -- the first write closes the record
        have hprior : (w.record walletId pendingTxId stamp).Closes := by
          cases w with
          | reveal v => exact hcloses.elim
          | patch p => exact .inr (.inr ⟨_, rfl, hcloses⟩)
          | discard => exact .inl rfl
        rw [foldOwedFrom_of_closes (w.pendingTxId_record stamp) hprior, w.replay_record,
          OwedWrite.foldl_apply_of_not_unsettled (OwedWrite.not_unsettled_apply hcloses)]
        exact w.replay_record walletId pendingTxId stamp
      · rw [map_cons, untilClosed_of_not_closes hcloses] at hws
        cases w with
        | discard => exact absurd trivial hcloses
        | reveal v => exact absurd ⟨v, rfl⟩ (hws _ (.head _))
        | patch p =>
          have hopen : OwedRecord.OpenPatch
              (OwedWrite.record walletId pendingTxId stamp (.patch p)) pendingTxId p.fields :=
            ⟨rfl, rfl, rfl, rfl, hcloses⟩
          obtain ⟨folded, hfold, hreplay⟩ :=
            hopen.replay_foldOwedFrom walletId
              fun w hw => hws w (.tail _ hw)
          rw [hfold]
          exact hreplay now existing
    · obtain ⟨rfl, htail⟩ := List.cons.inj hws
      obtain ⟨folded, hfold, -, heq⟩ := foldOwedFrom_reveal walletId
        (OwedWrite.pendingTxId_record (.reveal first) stamp) rfl ws
      have hreveals : ∀ w ∈ ws, w.2.IsReveal := by
        intro w hw
        have hmem : w.2 ∈ ws.map Prod.snd := List.mem_map_of_mem hw
        rw [htail] at hmem
        obtain ⟨v, -, hv⟩ := List.mem_map.mp hmem
        exact ⟨v, hv.symm⟩
      rw [hfold, heq hreveals, htail, OwedWrite.replay_record, foldl_reveal_of_agrees hagree]
      exact OwedWrite.replay_record _ walletId pendingTxId stamp

variable (walletId pendingTxId) in
/-- With a reveal before the record is closed, and another write, the fold is not safe. -/
private theorem op_foldOwedSettlements (hws : ∃ w ∈ untilClosed (ws.map Prod.snd), w.IsReveal) :
    ∃ folded, foldOwedSettlements (owedRecords walletId pendingTxId ws) = some folded ∧
      folded.op = .reveal := by
  cases ws with
  | nil =>
    obtain ⟨w, hw, -⟩ := hws
    cases hw
  | cons w ws =>
    obtain ⟨stamp, w⟩ := w
    rw [foldOwedSettlements_cons]
    by_cases hcloses : w.Closes
    · rw [map_cons, untilClosed_of_closes hcloses] at hws
      obtain ⟨w', hw', v, rfl⟩ := hws
      obtain rfl := List.mem_singleton.mp hw'
      exact hcloses.elim
    · rw [map_cons, untilClosed_of_not_closes hcloses] at hws
      cases w with
      | discard => exact absurd trivial hcloses
      | reveal v =>
        obtain ⟨folded, hfold, hop, -⟩ := foldOwedFrom_reveal walletId
          (pendingTxId_record (.reveal v) stamp) rfl ws
        exact ⟨folded, hfold, hop⟩
      | patch p =>
        have hopen : OwedRecord.OpenPatch
            (record walletId pendingTxId stamp (.patch p)) pendingTxId p.fields :=
          ⟨rfl, rfl, rfl, rfl, hcloses⟩
        obtain ⟨w', hw', v, rfl⟩ := hws
        rcases mem_cons.mp hw' with heq | hw'
        · cases heq
        · exact op_foldOwedFrom_patch hopen ⟨_, hw', v, rfl⟩

end Fold

section Exact

variable {walletId : Option String} {pendingTxId : String}

/-- The replay of a reveal record leaves a record without reveal bytes alone. -/
private theorem replay_reveal_twoPhase {owed : OwedRecord} (hop : owed.op = .reveal) (now : String)
    (status : TxStatus) : owed.replay now (some (twoPhase status none none)) =
      some (twoPhase status none none) := by
  have hstages : ∃ rest, owed.stages = .promote owed.reveal :: rest := by
    rw [stages, hop]
    exact ⟨_, rfl⟩
  obtain ⟨rest, hstages⟩ := hstages
  have hclosed : (Stage.promote owed.reveal).settle now (some (twoPhase status none none)) =
      .closed := by
    rw [Stage.settle, applyRevealPromotion]
    by_cases hwritable : status.Writable
    · exact (if_neg (not_not.mpr hwritable)).trans (if_neg (by simp [twoPhase]))
    · exact if_pos hwritable
  have hstop : ¬owed.goesOn .closed := by
    rintro (h | ⟨-, h⟩)
    · cases h
    · exact h hop
  rw [replay, hstages, replayFrom, hclosed]
  exact if_neg hstop

/-- **Which owed writes fold.** The record that the journal holds after a sequence of writes to
one `PendingTx` replays like the writes in their order, on every state of the `PendingTx`,
exactly where no reveal outcome is among the writes up to the first one that closes the record,
or all writes are reveal outcomes that agree with the first. -/
theorem foldOwedSettlements_iff (walletId : Option String) (pendingTxId : String)
    (ws : List (Stamp × OwedWrite)) :
    (∀ now existing,
        replayFolded now (foldOwedSettlements (owedRecords walletId pendingTxId ws)) existing =
          replayInOrder now (owedRecords walletId pendingTxId ws) existing) ↔
      FoldSafe (ws.map Prod.snd) := by
  refine ⟨fun h => ?_, fun h now existing => replayFolded_of_foldSafe h⟩
  by_contra hunsafe
  rw [FoldSafe, not_or] at hunsafe
  obtain ⟨hreveal, hagree⟩ := hunsafe
  have hreveal : ∃ w ∈ untilClosed (ws.map Prod.snd), w.IsReveal := by
    simpa only [not_forall, not_not, exists_prop] using hreveal
  obtain ⟨folded, hfold, hop⟩ := op_foldOwedSettlements walletId pendingTxId hreveal
  by_cases hother : ∃ w ∈ ws.map Prod.snd, ¬w.IsReveal
  · -- the fold keeps the status that it finds, and the replay in order forgets it
    have hkeep : ∀ status, (ws.map Prod.snd).foldl (fun e w => w.apply "" e)
        (some (twoPhase status none none)) = some (twoPhase status none none) := by
      intro status
      rw [← replayInOrder_owedRecords, ← h, hfold]
      exact replay_reveal_twoPhase hop "" status
    have hsame := foldl_apply_twoPhase "" hother
    rw [hkeep, hkeep] at hsame
    cases hsame
  · have hall : ∀ w ∈ ws.map Prod.snd, w.IsReveal := by
      simpa only [not_exists, not_and, not_not] using hother
    cases ws with
    | nil =>
      obtain ⟨w, hw, -⟩ := hreveal
      cases hw
    | cons w ws =>
      obtain ⟨stamp, w⟩ := w
      obtain ⟨first, rfl⟩ := hall w List.mem_cons_self
      obtain ⟨later, hlater⟩ : ∃ later : List Reveal, ws.map Prod.snd = later.map .reveal := by
        have hall : ∀ w ∈ ws.map Prod.snd, w.IsReveal := fun w hw =>
          hall w (List.mem_cons_of_mem _ hw)
        clear * - hall
        induction ws with
        | nil => exact ⟨[], rfl⟩
        | cons w ws ih =>
          obtain ⟨v, hv⟩ := hall w.2 List.mem_cons_self
          obtain ⟨later, hlater⟩ := ih fun w hw => hall w (List.mem_cons_of_mem _ hw)
          exact ⟨v :: later, by rw [List.map_cons, hv, hlater, List.map_cons]⟩
      -- some later outcome promotes a record that the fold leaves alone
      have hdisagree : ∃ v ∈ later, ¬first.Agrees v := by
        by_contra hno
        refine hagree ⟨first, later, by rw [List.map_cons, hlater], fun v hv => ?_⟩
        by_contra hne
        exact hno ⟨v, hv, hne⟩
      obtain ⟨v, hv, hne⟩ := hdisagree
      obtain ⟨r, hfirst, hpromotes, hlanded⟩ := exists_promotes_of_not_agrees hne
      have heq := h "" (some r)
      rw [replayInOrder_owedRecords, foldOwedSettlements_cons, List.map_cons, List.foldl_cons, hlater,
        OwedWrite.apply_reveal_of_not_promotes hfirst] at heq
      obtain ⟨r', hr', hlanded'⟩ := landed_foldl_reveal "" (.inr ⟨v, hv, hpromotes⟩)
      obtain ⟨folded, hfold, -, hprior⟩ := foldOwedFrom_reveal walletId
        (OwedWrite.pendingTxId_record (.reveal first) stamp) rfl ws
      have hprior := hprior fun w hw => hall w.2 (List.mem_cons_of_mem _ (List.mem_map_of_mem hw))
      rw [hfold, hr', replayFolded, hprior, Option.elim_some, OwedWrite.replay_record,
        OwedWrite.apply_reveal_of_not_promotes hfirst] at heq
      obtain ⟨⟩ := heq
      rw [hlanded] at hlanded'
      cases hlanded'

/-- A refused send owes its error to a two-phase record, and then its commit lands. Replayed in
order the record is being broadcast without an error; the folded record takes the reveal first
and leaves the stale error and 'queued'. And where a record has no reveal bytes, the patch that
says that it was delivered is dropped with the reveal. -/
theorem folded_reveal_is_replayed_first :
    let refused : OwedWrite :=
      .patch ⟨{ status := some .queued, error := some (some "network timeout") }, rfl⟩
    let landed : OwedWrite := .patch ⟨{ status := some .broadcast, error := some none }, rfl⟩
    let reveal : OwedWrite := .reveal ⟨some "reveal-txid", some "commit-txid"⟩
    let record (revealTxHex : Option String) : PendingTx :=
      { id := "ptx-1", chain := "bitcoin", network := "mainnet", fromAddress := "a",
        actionSummary := "", createdAt := "", status := .queued, txHex := some "commit-hex",
        txid := some "commit-txid", revealTxHex, revealTxid := some "reveal-txid" }
    let replays (ws : List (Stamp × OwedWrite)) (existing : PendingTx) :=
      ((replayFolded "now" (foldOwedSettlements (owedRecords (some "w1") "ptx-1" ws))
          (some existing)).map fun r => (r.status, r.error),
        (replayInOrder "now" (owedRecords (some "w1") "ptx-1" ws)
          (some existing)).map fun r => (r.status, r.error))
    replays [(⟨"s-1", 1⟩, refused), (⟨"s-2", 2⟩, reveal)] (record (some "reveal-hex")) =
        (some (.queued, some "network timeout"), some (.broadcasting, none)) ∧
      replays [(⟨"s-1", 1⟩, reveal), (⟨"s-2", 2⟩, landed)] (record none) =
        (some (.queued, none), some (.broadcast, none)) := by
  decide

end Exact

end XchainWallet
