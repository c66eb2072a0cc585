import Mathlib.Data.Rat.Defs
import XchainWallet.Queue.Journal

/-!
# The stored queue

The live queue and the settlement journal ride one storage key. What stands under the key is an
envelope with a version, or the plain map of queues that the builds before the envelope wrote.
Either is read through `splitBlob`, which drops every row that cannot be used; a row that is
not an object of the expected shape is `none` here. `queueKeysOf` and `owedKeysOf` are the ids
by which the store knows the rows of a snapshot and the records of a journal.
-/

namespace XchainWallet

/-- The ADS verdict of a send: `adsCommit`. -/
structure AdsCommit where
  chainId : String
  donationIncluded : Bool
deriving DecidableEq, Repr

/-- An entry of the broadcast queue. `siblingPendingTxIds` is a link of the live entry only. -/
structure QueueEntry where
  id : String
  chainId : String
  signedTxHex : String
  summary : String := ""
  signedAt : ℕ := 0
  txid : Option String := none
  pendingTxId : Option String := none
  siblingPendingTxIds : List String := []
  resumedClaim : Bool := false
  rbfReplacesPendingTxId : Option String := none
  commitLanded : Bool := false
  commitTxid : Option String := none
  revealTxHex : Option String := none
  revealTxid : Option String := none
  adsCommit : Option AdsCommit := none
deriving DecidableEq, Repr

/-- A snapshot of the queue: the entries of each wallet. -/
abbrev QueueSnapshot := List (String × List QueueEntry)

/-! ### The ids of a snapshot and of a journal -/

/-- The pairs of wallet and entry id that a snapshot names. -/
def queueKeysOf (snapshot : QueueSnapshot) : List (String × String) :=
  snapshot.flatMap fun (walletId, entries) =>
    ((entries.map QueueEntry.id).filter (· ≠ "")).map fun id => (walletId, id)

/-- The keys by which the store knows the records of a journal. -/
def owedKeysOf (owed : List OwedRecord) : List String := owed.map owedRecordKey

/-- The ids of the two halves of the stored queue: a `PersistedRecord`. -/
structure KnownIds where
  queues : List (String × String) := []
  owed : List String := []
deriving DecidableEq, Repr

/-- The two halves, `{ queues, settlements }`. -/
structure QueuePair where
  queues : QueueSnapshot := []
  settlements : List OwedRecord := []
deriving DecidableEq, Repr

/-- The ids of the two halves. -/
def QueuePair.ids (pair : QueuePair) : KnownIds :=
  ⟨queueKeysOf pair.queues, owedKeysOf pair.settlements⟩

/-! ### Reading a blob -/

/-- `storageVersion` of an envelope: absent, a finite number, or anything else. -/
inductive StorageVersion
  | absent
  | number (version : ℚ)
  | other
deriving DecidableEq, Repr

/-- `BROADCAST_QUEUE_STORAGE_VERSION`. -/
def broadcastQueueStorageVersion : ℚ := 1

/-- The wallets of a stored map, each with its rows. A value that is not an array is `none`,
and so is a row that is not an object with a string `id`, `chainId` and `signedTxHex`. -/
abbrev StoredQueues := List (String × Option (List (Option QueueEntry)))

/-- What stands under the key. `bare` is a map of queues without an envelope; nothing usable is
the empty one. -/
inductive KeyBlob
  | bare (queues : StoredQueues)
  | envelope (version : StorageVersion) (queues : StoredQueues)
      (settlements : List (Option OwedRecord))
deriving DecidableEq, Repr

/-- `coerceSnapshot(v)`. -/
def coerceSnapshot (queues : StoredQueues) : QueueSnapshot :=
  queues.filterMap fun (walletId, arr) =>
    arr.bind fun rows =>
      let filtered := rows.filterMap id
      if filtered = [] then none else some (walletId, filtered)

/-- A record that names its `PendingTx` and carries a write to apply. -/
def OwedRecord.Replayable (owed : OwedRecord) : Prop :=
  owed.pendingTxId ≠ "" ∧
    match owed.op with
    | .discard => True
    | .patch => owed.patch.isSome
    | .reveal => owed.reveal.isSome

instance (owed : OwedRecord) : Decidable owed.Replayable :=
  match h : owed.op with
  | .discard => decidable_of_iff (owed.pendingTxId ≠ "") (by simp [OwedRecord.Replayable, h])
  | .patch => decidable_of_iff (owed.pendingTxId ≠ "" ∧ owed.patch.isSome)
      (by simp [OwedRecord.Replayable, h])
  | .reveal => decidable_of_iff (owed.pendingTxId ≠ "" ∧ owed.reveal.isSome)
      (by simp [OwedRecord.Replayable, h])

/-- A stored record as it is read. A reveal is built anew and never carries bytes. -/
def OwedRecord.coerced (owed : OwedRecord) : OwedRecord :=
  match owed.op with
  | .reveal =>
    { owed with
      walletId := nonEmpty owed.walletId
      patch := (owed.patch.map fun patch => { patch with txHex := none }).filter (· ≠ {}) }
  | _ => owed

/-- `coerceSettlements(v)`. -/
def coerceSettlements (settlements : List (Option OwedRecord)) : List OwedRecord :=
  settlements.filterMap fun row =>
    row.bind fun owed => if owed.Replayable then some owed.coerced else none

/-- `splitBlob(blob)`: the two halves, whether the blob wants to be rewritten, and the version
that is newer than this build's. -/
structure SplitBlob where
  pair : QueuePair
  needsMigration : Bool
  newerVersion : Option ℚ

/-- `splitBlob(blob)`. -/
def splitBlob : KeyBlob → SplitBlob
  | .bare stored =>
    let queues := coerceSnapshot stored
    ⟨⟨queues, []⟩, queues ≠ [], none⟩
  | .envelope version stored settlements =>
    { pair := ⟨coerceSnapshot stored, coerceSettlements settlements⟩
      needsMigration := version = .absent
      newerVersion := match version with
        | .number version => if version > broadcastQueueStorageVersion then some version else none
        | _ => none }

/-- The ids that stand under the key: of the rows that a read of it delivers. -/
def KeyBlob.ids (blob : KeyBlob) : KnownIds := (splitBlob blob).pair.ids

/-- The blob that `persist()` writes. -/
def QueuePair.blob (pair : QueuePair) : KeyBlob :=
  .envelope (.number broadcastQueueStorageVersion)
    (pair.queues.map fun (walletId, entries) => (walletId, some (entries.map some)))
    (pair.settlements.map some)

/-! ### What is written is what is read -/

private theorem queueKeysOf_cons (walletId : String) (entries : List QueueEntry)
    (snapshot : QueueSnapshot) :
    queueKeysOf ((walletId, entries) :: snapshot) =
      queueKeysOf [(walletId, entries)] ++ queueKeysOf snapshot := by
  simp [queueKeysOf]

/-- A snapshot that is written keeps its ids; a wallet without entries names none. -/
theorem queueKeysOf_coerceSnapshot (snapshot : QueueSnapshot) :
    queueKeysOf (coerceSnapshot
      (snapshot.map fun (walletId, entries) => (walletId, some (entries.map some)))) =
      queueKeysOf snapshot := by
  induction snapshot with
  | nil => rfl
  | cons wallet snapshot ih =>
    obtain ⟨walletId, entries⟩ := wallet
    have hrows : (entries.map some).filterMap id = entries := by
      rw [List.filterMap_map]
      exact List.filterMap_some
    rw [queueKeysOf_cons, ← ih]
    by_cases hempty : entries = []
    · subst hempty
      rfl
    · simp only [coerceSnapshot, List.map_cons, List.filterMap_cons, Option.bind_some, hrows,
        hempty, if_false]
      exact queueKeysOf_cons _ _ _

theorem OwedRecord.coerced_of_op (owed : OwedRecord) :
    owed.coerced.op = owed.op ∧ owed.coerced.pendingTxId = owed.pendingTxId ∧
      owed.coerced.id = owed.id ∧ owed.coerced.reveal = owed.reveal := by
  rw [coerced]
  split <;> exact ⟨rfl, rfl, rfl, rfl⟩

theorem owedRecordKey_coerced (owed : OwedRecord) :
    owedRecordKey owed.coerced = owedRecordKey owed := by
  obtain ⟨-, hpid, hid, -⟩ := OwedRecord.coerced_of_op owed
  rw [owedRecordKey, owedRecordKey, hpid, hid]

theorem OwedRecord.Replayable.coerced {owed : OwedRecord} (h : owed.Replayable) :
    owed.coerced.Replayable := by
  obtain ⟨hop, hpid, -, hreveal⟩ := OwedRecord.coerced_of_op owed
  refine ⟨hpid ▸ h.1, ?_⟩
  have hwrite := h.2
  rw [hop, hreveal]
  split
  · trivial
  · next hpatch =>
    rw [OwedRecord.coerced, hpatch]
    simpa only [hpatch] using hwrite
  · next hrev => simpa only [hrev] using hwrite

theorem owedKeysOf_coerceSettlements {settlements : List OwedRecord}
    (h : ∀ owed ∈ settlements, owed.Replayable) :
    owedKeysOf (coerceSettlements (settlements.map some)) = owedKeysOf settlements := by
  induction settlements with
  | nil => rfl
  | cons owed settlements ih =>
    have howed := h owed (.head _)
    have hrest := ih fun o ho => h o (.tail _ ho)
    simp only [coerceSettlements, List.map_cons, List.filterMap_cons, Option.bind_some, howed,
      if_true]
    rw [owedKeysOf, List.map_cons, owedRecordKey_coerced]
    exact congrArg _ hrest

/-- A journal as it is read can be replayed. -/
theorem replayable_of_mem_coerceSettlements {stored : List (Option OwedRecord)}
    {owed : OwedRecord} (h : owed ∈ coerceSettlements stored) : owed.Replayable := by
  obtain ⟨row, -, hrow⟩ := List.mem_filterMap.mp h
  obtain ⟨source, -, hsource⟩ := Option.bind_eq_some_iff.mp hrow
  split at hsource
  · next hreplay => exact Option.some.inj hsource ▸ hreplay.coerced
  · exact nomatch hsource

theorem replayable_of_mem_splitBlob {blob : KeyBlob} {owed : OwedRecord}
    (h : owed ∈ (splitBlob blob).pair.settlements) : owed.Replayable := by
  cases blob with
  | bare => exact nomatch h
  | envelope => exact replayable_of_mem_coerceSettlements h

/-- **A round trip.** The blob of a pair whose records can be replayed stands for the ids of the
pair. -/
theorem QueuePair.ids_blob {pair : QueuePair} (h : ∀ owed ∈ pair.settlements, owed.Replayable) :
    pair.blob.ids = pair.ids := by
  have hqueues := queueKeysOf_coerceSnapshot pair.queues
  have howed := owedKeysOf_coerceSettlements h
  exact congrArg₂ KnownIds.mk hqueues howed

end XchainWallet
