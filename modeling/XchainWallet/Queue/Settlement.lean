import Mathlib.Data.List.Basic

/-!
# Owed settlements

When the vault refuses a write to a `PendingTx`, the queue engine records the write in a
journal and replays it against the next vault that is open. A record of the journal is a
patch, a discard or the promotion of a two-phase record to its reveal. The journal holds one
record for each `PendingTx`: `foldOwedSettlement` folds a later write into the earlier one.

What a settlement writer does with the record that it has read is a `Settling`. None of them
reads a clock but the discard of a commit-landed record, which stamps `broadcastAt`; that
reading is the argument `now`.
-/

namespace XchainWallet

/-! ### Pending transactions -/

/-- `PENDING_TX_STATUSES`. -/
inductive TxStatus
  | composing
  | awaitingSignature
  | signed
  | queued
  | broadcasting
  | broadcast
  | indexed
  | failed
  | rbfReplaced
deriving DecidableEq, Repr

/-- The statuses that a queue lane still writes over: 'queued' and 'broadcasting'. -/
def TxStatus.Writable (status : TxStatus) : Prop := status = .queued ∨ status = .broadcasting

instance (status : TxStatus) : Decidable status.Writable :=
  inferInstanceAs (Decidable (_ ∨ _))

/-- A `PendingTx` record, with the fields that the queue reads or writes. `commitLanded` is
the answer to `record.commitLanded === true`. -/
structure PendingTx where
  id : String
  chain : String
  network : String
  fromAddress : String
  actionSummary : String
  createdAt : String
  status : TxStatus
  txHex : Option String := none
  txid : Option String := none
  broadcastAt : Option String := none
  error : Option String := none
  commitLanded : Bool := false
  commitTxid : Option String := none
  revealTxHex : Option String := none
  revealTxid : Option String := none
  rbfReplacesPendingTxId : Option String := none
deriving DecidableEq, Repr

/-- `typeof value === 'string' && value ? value : null`. -/
def nonEmpty (value : Option String) : Option String := value.filter (· ≠ "")

/-! ### Patches -/

/-- The fields that a patch sets; `none` is a key that the patch does not have. No writer sets
`commitLanded` to anything but `true`, so the flag says whether the patch sets it. -/
structure Patch where
  status : Option TxStatus := none
  txHex : Option String := none
  txid : Option (Option String) := none
  broadcastAt : Option String := none
  error : Option (Option String) := none
  commitLanded : Bool := false
  commitTxid : Option (Option String) := none
deriving DecidableEq, Repr

namespace Patch

/-- `{ ...existing, ...patch }`. -/
def onto (patch : Patch) (existing : PendingTx) : PendingTx :=
  { existing with
    status := patch.status.getD existing.status
    txHex := patch.txHex.or existing.txHex
    txid := patch.txid.getD existing.txid
    broadcastAt := patch.broadcastAt.or existing.broadcastAt
    error := patch.error.getD existing.error
    commitLanded := patch.commitLanded || existing.commitLanded
    commitTxid := patch.commitTxid.getD existing.commitTxid }

/-- `{ ...earlier, ...later }`. -/
def merge (earlier later : Patch) : Patch :=
  { status := later.status.or earlier.status
    txHex := later.txHex.or earlier.txHex
    txid := later.txid.or earlier.txid
    broadcastAt := later.broadcastAt.or earlier.broadcastAt
    error := later.error.or earlier.error
    commitLanded := later.commitLanded || earlier.commitLanded
    commitTxid := later.commitTxid.or earlier.commitTxid }

/-- A patch whose status ends the record, `!WRITABLE_OWED_STATUSES.has(patch.status)`. -/
def Terminal (patch : Patch) : Prop := ∃ status ∈ patch.status, ¬status.Writable

instance (patch : Patch) : Decidable patch.Terminal :=
  match h : patch.status with
  | none => .isFalse (by rintro ⟨status, hstatus, -⟩; simp [h] at hstatus)
  | some status =>
    decidable_of_iff (¬status.Writable)
      ⟨fun hw => ⟨status, h, hw⟩, fun ⟨_, hstatus, hw⟩ => by
        rw [h] at hstatus
        exact Option.some.inj hstatus ▸ hw⟩

theorem merge_onto (p q : Patch) (r : PendingTx) : (p.merge q).onto r = q.onto (p.onto r) := by
  have hor : ∀ {α : Type} (x y : Option α) (z : Option α),
      (x.or y).or z = x.or (y.or z) := fun x y z => Option.or_assoc
  have hgetD : ∀ {α : Type} (x y : Option α) (z : α), (x.or y).getD z = x.getD (y.getD z) := by
    intro α x y z
    cases x <;> rfl
  simp only [merge, onto, hor, hgetD, Bool.or_assoc]

@[simp]
theorem merge_empty (p : Patch) : p.merge {} = p := by
  simp [merge]

/-- A patch that is applied twice is applied once. -/
theorem onto_onto (p : Patch) (r : PendingTx) : p.onto (p.onto r) = p.onto r := by
  have hor : ∀ {α : Type} (x : Option α) (z : Option α), x.or (x.or z) = x.or z := by
    intro α x z
    cases x <;> rfl
  have hgetD : ∀ {α : Type} (x : Option α) (z : α), x.getD (x.getD z) = x.getD z := by
    intro α x z
    cases x <;> rfl
  simp only [onto, hor, hgetD, Bool.or_self_left]

theorem status_onto (p : Patch) (r : PendingTx) :
    (p.onto r).status = p.status.getD r.status := rfl

end Patch

/-- The outcome that an owed reveal carries. -/
structure Reveal where
  txid : Option String
  commitTxid : Option String
deriving DecidableEq, Repr

/-! ### The settlement writers -/

/-- The verdict on one settlement write. -/
inductive Verdict
  | settled
  | closed
  | unreachable
deriving DecidableEq, Repr

/-- What a settlement writer does with the record that it has read: nothing at a record that
is gone or terminal, nothing where the write is there already, or one vault write. -/
inductive Settling
  | closed
  | done
  | put (record : PendingTx)
  | delete
deriving DecidableEq, Repr

namespace Settling

/-- The record after the vault has taken the write. -/
def result (existing : Option PendingTx) : Settling → Option PendingTx
  | closed => existing
  | done => existing
  | put record => some record
  | delete => none

/-- The verdict once the vault has taken the write. -/
def verdict : Settling → Verdict
  | closed => .closed
  | done => .settled
  | put _ => .settled
  | delete => .settled

end Settling

/-- `applyPendingTxPatch(vault, pendingTxId, patch)`; no patch spreads to nothing. -/
def applyPendingTxPatch (patch : Option Patch) : Option PendingTx → Settling
  | none => .closed
  | some existing =>
    if ¬existing.status.Writable then .closed else .put ((patch.getD {}).onto existing)

/-- The record that a promotion puts: the reveal instead of its commit, which has landed. -/
def PendingTx.promoted (existing : PendingTx) (reveal : Option Reveal) : PendingTx :=
  { existing with
    status := .broadcasting
    txHex := existing.revealTxHex
    txid := (nonEmpty (reveal.bind Reveal.txid)).or (nonEmpty existing.revealTxid)
    commitLanded := true
    commitTxid := (reveal.bind Reveal.commitTxid).or existing.commitTxid
    error := none }

/-- `expectedTxid && revealTxid && expectedTxid !== revealTxid`. -/
def Mismatch (expectedTxid revealTxid : Option String) : Prop :=
  expectedTxid.isSome ∧ revealTxid.isSome ∧ expectedTxid ≠ revealTxid

instance (expectedTxid revealTxid : Option String) : Decidable (Mismatch expectedTxid revealTxid) :=
  inferInstanceAs (Decidable (_ ∧ _ ∧ _))

/-- `applyRevealPromotion(vault, pendingTxId, reveal)`. -/
def applyRevealPromotion (reveal : Option Reveal) : Option PendingTx → Settling
  | none => .closed
  | some existing =>
    if ¬existing.status.Writable then .closed
    else if existing.commitLanded then .done
    else if nonEmpty existing.revealTxHex = none then .closed
    else if Mismatch (nonEmpty (reveal.bind Reveal.txid)) (nonEmpty existing.revealTxid) then .closed
    else .put (existing.promoted reveal)

/-- `commitLandedRecord(existing, error)`. -/
def commitLandedRecord (now : String) (existing : PendingTx) (error : String) : PendingTx :=
  { existing with
    status := .broadcast
    broadcastAt := existing.broadcastAt.or (some now)
    txid := existing.commitTxid.or existing.txid
    error := some error }

/-- `discardQueuedBroadcast({ vault, pendingTxId })`. `inFlight` is the answer to
`inFlightDrains.has(pendingTxId)`; only `drainQueuedBroadcast` fills that set, and the host of
the queue engine never runs it. -/
def discardQueuedBroadcast (inFlight : Bool) (now : String) : Option PendingTx → Settling
  | none => .closed
  | some existing =>
    if ¬existing.status.Writable then .closed
    else if inFlight then .closed
    else if existing.commitLanded then
      .put (commitLandedRecord now existing "reveal discarded; its commit is already on the network")
    else .delete

/-! ### Journal records -/

/-- The `op` of a journal record. -/
inductive OwedOp
  | patch
  | discard
  | reveal
deriving DecidableEq, Repr

/-- A record of the journal: a write that is owed to one `PendingTx`. -/
structure OwedRecord where
  id : String
  walletId : Option String
  pendingTxId : String
  op : OwedOp
  patch : Option Patch := none
  reveal : Option Reveal := none
  discard : Bool := false
  recordedAt : ℕ
deriving DecidableEq, Repr

/-- An earlier record that closes its `PendingTx`: a discard, or a terminal patch. -/
def OwedRecord.Closes (prior : OwedRecord) : Prop :=
  prior.op = .discard ∨ prior.discard ∨ ∃ patch ∈ prior.patch, patch.Terminal

instance (prior : OwedRecord) : Decidable prior.Closes :=
  match h : prior.patch with
  | none => decidable_of_iff (prior.op = .discard ∨ prior.discard)
      ⟨fun hc => hc.imp_right .inl, fun hc => hc.imp_right fun hc => hc.resolve_right (by simp [h])⟩
  | some patch => decidable_of_iff (prior.op = .discard ∨ prior.discard ∨ patch.Terminal)
      ⟨fun hc => hc.imp_right (Or.imp_right fun ht => ⟨patch, h, ht⟩),
        fun hc => hc.imp_right (Or.imp_right fun ⟨_, hp, ht⟩ => by
          rw [h] at hp
          exact Option.some.inj hp ▸ ht)⟩

/-- `foldOwedSettlement(prior, next)`. The answer `none` is `prior` itself, which the callers
tell from a new record by identity. -/
def foldOwedSettlement (prior : Option OwedRecord) (next : OwedRecord) : Option OwedRecord :=
  match prior with
  | none => some next
  | some prior =>
    if prior.pendingTxId ≠ next.pendingTxId then some next
    else if prior.Closes then none
    else if prior.op = .reveal then
      if next.op = .reveal then none
      else some
        { next with
          op := .reveal
          reveal := prior.reveal
          patch := some ((prior.patch.getD {}).merge (next.patch.getD {}))
          discard := next.discard || next.op = .discard }
    else match prior.patch with
      | none => some next
      | some patch => some { next with patch := some (patch.merge (next.patch.getD {})) }

/-! ### Replay -/

/-- One vault access of the flush. -/
inductive Stage
  | promote (reveal : Option Reveal)
  | patch (fields : Option Patch)
  | discard
deriving DecidableEq, Repr

/-- What the stage does with the record that it has read. -/
def Stage.settle (now : String) : Stage → Option PendingTx → Settling
  | promote reveal => applyRevealPromotion reveal
  | patch fields => applyPendingTxPatch fields
  | discard => discardQueuedBroadcast false now

namespace OwedRecord

/-- The vault accesses of one record in the order in which the flush makes them. -/
def stages (owed : OwedRecord) : List Stage :=
  match owed.op with
  | .reveal =>
    .promote owed.reveal :: (owed.patch.map fun patch => Stage.patch (some patch)).toList ++
      if owed.discard then [.discard] else []
  | .discard => (owed.patch.map fun patch => Stage.patch (some patch)).toList ++ [.discard]
  | .patch => [.patch owed.patch]

theorem stages_ne_nil (owed : OwedRecord) : owed.stages ≠ [] := by
  rw [stages]
  cases owed.op with
  | patch => exact List.cons_ne_nil _ _
  | discard => exact List.append_ne_nil_of_right_ne_nil _ (List.cons_ne_nil _ _)
  | reveal => exact List.cons_ne_nil _ _

/-- The flush leaves a reveal record at the first verdict that is not 'settled'; a closed
patch does not keep a discard from running. -/
def goesOn (owed : OwedRecord) (verdict : Verdict) : Prop :=
  verdict = .settled ∨ verdict = .closed ∧ owed.op ≠ .reveal

instance (owed : OwedRecord) (verdict : Verdict) : Decidable (owed.goesOn verdict) :=
  inferInstanceAs (Decidable (_ ∨ _))

/-- The stages from one on, against a vault that refuses nothing. -/
def replayFrom (owed : OwedRecord) (now : String) : List Stage → Option PendingTx → Option PendingTx
  | [], existing => existing
  | stage :: rest, existing =>
    let settling := stage.settle now existing
    if owed.goesOn settling.verdict then owed.replayFrom now rest (settling.result existing)
    else settling.result existing

/-- The replay of one journal record against a vault that refuses nothing. -/
def replay (owed : OwedRecord) (now : String) (existing : Option PendingTx) : Option PendingTx :=
  owed.replayFrom now owed.stages existing

/-- Only a reveal record is left before its last stage. -/
theorem replayFrom_cons {owed : OwedRecord} (hop : owed.op ≠ .reveal) (now : String)
    (stage : Stage) (rest : List Stage) (existing : Option PendingTx) :
    owed.replayFrom now (stage :: rest) existing =
      owed.replayFrom now rest ((stage.settle now existing).result existing) := by
  rw [replayFrom, if_pos]
  cases stage.settle now existing with
  | closed => exact .inr ⟨rfl, hop⟩
  | done | put record | delete => exact .inl rfl

theorem replayFrom_singleton (owed : OwedRecord) (now : String) (stage : Stage)
    (existing : Option PendingTx) :
    owed.replayFrom now [stage] existing = (stage.settle now existing).result existing := by
  simp [replayFrom]

end OwedRecord

end XchainWallet
