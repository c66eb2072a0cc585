import Mathlib.Data.List.Perm.Basic
import XchainWallet.Queue.Blob
import XchainWallet.Transition.Run

/-!
# The record of what the key holds

`createBroadcastQueueStorageAdapter` reads and writes the storage key as a pair of halves and
caches what it read last; `withPersistedRecord` wraps it and keeps the ids that the key is
known to hold. Every call of the wrapper draws a ticket, and a call that resolves commits its
ids unless a later one has done so before.

The machine below runs the calls of one process, each known by its ticket. A call hands the
store at most one operation at a time; the store takes an operation, and the call goes on when
its answer arrives. Which operation the store takes next, whether it refuses it, and which
answer arrives first are choices of the environment, as is a write of the key by someone else.
-/

namespace XchainWallet

open Transition
open List (mem_append mem_singleton not_mem_nil pairwise_append pairwise_cons pairwise_singleton)

/-- How much of the key the caller has read since the adapter last took bytes from it: what the
engine keeps as `loaded`. -/
inductive KeyRead
  | nothing
  | queues
  | both
deriving DecidableEq, Repr

/-- An operation that the store has not yet taken. -/
inductive StoreOp
  | read (ticket : ℕ)
  | upgrade (ticket : ℕ) (blob : KeyBlob)
  | write (ticket : ℕ) (ids : KnownIds) (blob : KeyBlob)
deriving DecidableEq, Repr

/-- An answer on its way to the call that waits for it: of the store to the adapter, or of the
adapter to the wrapper. -/
inductive StoreAnswer
  | read (ticket : ℕ) (blob : Option KeyBlob)
  | upgraded (ticket : ℕ)
  | loaded (ticket : ℕ) (snapshot : QueueSnapshot)
  | settlements (ticket : ℕ) (owed : List OwedRecord)
  | written (ticket : ℕ) (ids : KnownIds) (ok : Bool)
deriving DecidableEq, Repr

/-- The call that has made the operation. -/
def StoreOp.ticket : StoreOp → ℕ
  | read t | upgrade t _ | write t _ _ => t

/-- The call that waits for the answer. -/
def StoreAnswer.ticket : StoreAnswer → ℕ
  | read t _ | upgraded t | loaded t _ | settlements t _ | written t _ _ => t

/-- The call is a `load`. -/
def StoreOp.Loads : StoreOp → Prop
  | write _ _ _ => False
  | _ => True

/-- The call is a `load` or a `loadSettlements`. -/
def StoreAnswer.Loads : StoreAnswer → Prop
  | written _ _ _ => False
  | _ => True

instance (o : StoreOp) : Decidable o.Loads :=
  match o with
  | .write _ _ _ => isFalse id
  | .read _ | .upgrade _ _ => isTrue trivial

instance (a : StoreAnswer) : Decidable a.Loads :=
  match a with
  | .written _ _ _ => isFalse id
  | .read _ _ | .upgraded _ | .loaded _ _ | .settlements _ _ => isTrue trivial

/-- The key, the adapter, the wrapper and the calls under way: `ops` in the order in which the
store got them, `answers` in the order in which they were given. -/
structure RecordWorld where
  key : KeyBlob
  cached : QueuePair := {}
  newerVersionRead : Option ℚ := none
  persisted : KnownIds := {}
  pair : KnownIds := {}
  issued : ℕ := 0
  applied : ℕ := 0
  read : KeyRead := .nothing
  ops : List StoreOp := []
  answers : List StoreAnswer := []

/-- What happens next. -/
inductive RecordAct
  | load
  | loadSettlements
  | save (snapshot : QueueSnapshot)
  | saveSettlements (records : List OwedRecord)
  | take (n : ℕ) (ok : Bool)
  | resume (n : ℕ) (ledgerReadable : Bool)
  | foreign (blob : KeyBlob)

namespace RecordWorld

/-- `commit(ticket, queues, owed)`. -/
def commit (w : RecordWorld) (ticket : ℕ) (ids : KnownIds) : RecordWorld :=
  if ticket ≤ w.applied then w else { w with applied := ticket, persisted := ids }

/-- `load()`, up to its read. -/
def load (w : RecordWorld) : RecordWorld :=
  { w with issued := w.issued + 1, ops := w.ops ++ [.read (w.issued + 1)] }

/-- `loadSettlements()`: the adapter answers from its cache. -/
def loadSettlements (w : RecordWorld) : RecordWorld :=
  { w with
    issued := w.issued + 1
    answers := w.answers ++ [.settlements (w.issued + 1) w.cached.settlements] }

/-- A save of the wrapper, up to its write: `pair` and `cached` follow the half that it was
given, and `persist()` refuses at once while the last read found a newer version. -/
def saveHalf (w : RecordWorld) (ids : KnownIds) (cached : QueuePair) : RecordWorld :=
  { w with
    issued := w.issued + 1
    pair := ids
    cached
    ops :=
      if w.newerVersionRead.isSome then w.ops
      else w.ops ++ [.write (w.issued + 1) ids cached.blob] }

/-- `save(snapshot)`, up to its write. -/
def save (w : RecordWorld) (snapshot : QueueSnapshot) : RecordWorld :=
  w.saveHalf { w.pair with queues := queueKeysOf snapshot } { w.cached with queues := snapshot }

/-- `saveSettlements(records)`, up to its write. -/
def saveSettlements (w : RecordWorld) (records : List OwedRecord) : RecordWorld :=
  w.saveHalf { w.pair with owed := owedKeysOf records } { w.cached with settlements := records }

/-- The store answers an operation, or refuses it. -/
def serve (w : RecordWorld) (ok : Bool) : StoreOp → RecordWorld
  | .read t => { w with answers := w.answers ++ [.read t (if ok then some w.key else none)] }
  | .upgrade t blob =>
    -- The adapter catches a refused upgrade, so both outcomes give one answer.
    { w with key := if ok then blob else w.key, answers := w.answers ++ [.upgraded t] }
  | .write t ids blob =>
    { w with key := if ok then blob else w.key, answers := w.answers ++ [.written t ids ok] }

/-- The store takes the operation at place `n`. -/
def take (w : RecordWorld) (n : ℕ) (ok : Bool) : Option RecordWorld :=
  w.ops[n]?.map fun op => { w with ops := w.ops.eraseIdx n }.serve ok op

/-- The adapter has read the blob. It upgrades one without a version before it returns the
queues. -/
def absorb (w : RecordWorld) (ticket : ℕ) (blob : KeyBlob) : RecordWorld :=
  let normalized := splitBlob blob
  let w := { w with
    cached := normalized.pair
    newerVersionRead := normalized.newerVersion
    read := .nothing }
  if normalized.needsMigration ∧ normalized.newerVersion = none then
    { w with ops := w.ops ++ [.upgrade ticket w.cached.blob] }
  else { w with answers := w.answers ++ [.loaded ticket w.cached.queues] }

/-- An answer arrives. Between the adapter and the wrapper the ledger of pruned wallets is
read, and a ledger that cannot be read makes the load unreadable. -/
def arrive (w : RecordWorld) (ledgerReadable : Bool) : StoreAnswer → RecordWorld
  | .read _ none => w
  | .read t (some blob) => w.absorb t blob
  | .upgraded t => { w with answers := w.answers ++ [.loaded t w.cached.queues] }
  | .loaded t snapshot =>
    if ledgerReadable then
      let queues := queueKeysOf snapshot
      commit { w with pair := { w.pair with queues }, read := .queues } t
        { w.persisted with queues }
    else w
  | .settlements t owed =>
    let owed := owedKeysOf owed
    let read := if w.read = .queues then .both else w.read
    commit { w with pair := { w.pair with owed }, read } t { w.persisted with owed }
  | .written t ids ok => if ok then w.commit t ids else w

/-- The answer at place `n` arrives. -/
def resume (w : RecordWorld) (n : ℕ) (ledgerReadable : Bool) : Option RecordWorld :=
  w.answers[n]?.map fun answer =>
    { w with answers := w.answers.eraseIdx n }.arrive ledgerReadable answer

/-- One step of the process, of the store or of another writer. -/
def step (w : RecordWorld) : RecordAct → Option RecordWorld
  | .load => some w.load
  | .loadSettlements => some w.loadSettlements
  | .save snapshot => some (w.save snapshot)
  | .saveSettlements records => some (w.saveSettlements records)
  | .take n ok => w.take n ok
  | .resume n ledgerReadable => w.resume n ledgerReadable
  | .foreign blob => some { w with key := blob }

/-- A process that starts over a key. -/
def boot (key : KeyBlob) : RecordWorld := { key }

/-- No `load` and no `loadSettlements` is under way. -/
def NotLoading (w : RecordWorld) : Prop := (∀ o ∈ w.ops, ¬o.Loads) ∧ ∀ a ∈ w.answers, ¬a.Loads

instance (w : RecordWorld) : Decidable w.NotLoading := inferInstanceAs (Decidable (_ ∧ _))

/-- How the process goes about the key, and what it relies on. It reads one half after the
other with no call of either kind beside, and saves once it has read both. It is the only
writer, its records can be replayed, and the store takes operations in order. -/
def Disciplined (w : RecordWorld) : RecordAct → Prop
  | .load => w.NotLoading
  | .loadSettlements => w.NotLoading ∧ w.read = .queues
  | .save _ => w.NotLoading ∧ w.read = .both
  | .saveSettlements records =>
    w.NotLoading ∧ w.read = .both ∧ ∀ owed ∈ records, owed.Replayable
  | .take n _ => n = 0
  | .resume _ _ => True
  | .foreign _ => False

instance (w : RecordWorld) : (a : RecordAct) → Decidable (w.Disciplined a)
  | .load => inferInstanceAs (Decidable w.NotLoading)
  | .loadSettlements => inferInstanceAs (Decidable (_ ∧ _))
  | .save _ => inferInstanceAs (Decidable (_ ∧ _))
  | .saveSettlements _ => inferInstanceAs (Decidable (_ ∧ _ ∧ _))
  | .take _ _ => inferInstanceAs (Decidable (_ = _))
  | .resume _ _ => isTrue trivial
  | .foreign _ => isFalse id

/-! ### What every disciplined run keeps -/

/-- What stands behind an operation that the store has. -/
def OpSound (w : RecordWorld) : StoreOp → Prop
  | .read t => t = w.issued ∧ w.applied < t
  | .upgrade t blob =>
    t = w.issued ∧ w.applied < t ∧ w.read = .nothing ∧ w.cached.ids = w.key.ids ∧
      blob.ids = w.key.ids
  | .write t ids blob => w.read = .both ∧ w.applied < t ∧ blob.ids = ids

/-- What stands behind an answer that is on its way. -/
def AnswerSound (w : RecordWorld) : StoreAnswer → Prop
  | .read t blob => t = w.issued ∧ w.applied < t ∧ ∀ b ∈ blob, b = w.key ∧ w.ops = []
  | .upgraded t =>
    t = w.issued ∧ w.applied < t ∧ w.ops = [] ∧ w.read = .nothing ∧ w.cached.ids = w.key.ids
  | .loaded t snapshot =>
    t = w.issued ∧ w.applied < t ∧ w.ops = [] ∧ w.read = .nothing ∧ w.cached.ids = w.key.ids ∧
      snapshot = w.cached.queues
  | .settlements t owed =>
    t = w.issued ∧ w.applied < t ∧ w.ops = [] ∧ w.read = .queues ∧ owed = w.cached.settlements
  | .written _ _ _ => True

/-- The latest save that has landed, reported or on its way to be, has left its ids under the
key. -/
def Latest (w : RecordWorld) (t : ℕ) : Prop :=
  (∀ t' ids, .written t' ids true ∈ w.answers → t' ≤ t) ∧
    (t = w.applied ∧ w.persisted = w.key.ids ∨
      w.applied < t ∧ .written t w.key.ids true ∈ w.answers)

/-- The invariant of disciplined runs. -/
structure Sound (w : RecordWorld) : Prop where
  applied_le : w.applied ≤ w.issued
  op_le : ∀ o ∈ w.ops, o.ticket ≤ w.issued
  answer_le : ∀ a ∈ w.answers, a.ticket ≤ w.issued
  ops_sorted : w.ops.Pairwise fun o o' => o.ticket < o'.ticket
  answer_lt : ∀ a ∈ w.answers, ∀ o ∈ w.ops, a.ticket < o.ticket
  distinct : w.answers.Pairwise fun a a' => a.ticket ≠ a'.ticket
  op : ∀ o ∈ w.ops, w.OpSound o
  answer : ∀ a ∈ w.answers, w.AnswerSound a
  replayable : ∀ owed ∈ w.cached.settlements, owed.Replayable
  queues : w.read = .queues → w.cached.ids = w.key.ids ∧ w.pair.queues = w.key.ids.queues ∧
    w.persisted.queues = w.key.ids.queues ∧
    ∀ t ids, .written t ids true ∈ w.answers → t ≤ w.applied
  both : w.read = .both → w.pair = w.cached.ids ∧ ∃ t, w.Latest t

variable {w w' : RecordWorld}

theorem Sound.boot (key : KeyBlob) : (RecordWorld.boot key).Sound where
  applied_le := le_rfl
  op_le := fun _ ho => nomatch ho
  answer_le := fun _ ha => nomatch ha
  ops_sorted := .nil
  answer_lt := fun _ ha => nomatch ha
  distinct := .nil
  op := fun _ ho => nomatch ho
  answer := fun _ ha => nomatch ha
  replayable := fun _ ho => nomatch ho
  queues := fun hread => nomatch hread
  both := fun hread => nomatch hread

variable {o : StoreOp}

/-- An operation that loads has the last ticket. -/
private theorem OpSound.ticket_eq (h : w.OpSound o) (hl : o.Loads) :
    o.ticket = w.issued ∧ w.applied < o.ticket := by
  cases o with
  | read => exact ⟨h.1, h.2⟩
  | upgrade => exact ⟨h.1, h.2.1⟩
  | write => exact hl.elim

variable {a : StoreAnswer}

/-- An answer to a call that loads has the last ticket. -/
private theorem AnswerSound.ticket_eq (h : w.AnswerSound a) (hl : a.Loads) :
    a.ticket = w.issued ∧ w.applied < a.ticket := by
  cases a with
  | read | upgraded | loaded | settlements => exact ⟨h.1, h.2.1⟩
  | written => exact hl.elim

private theorem answerSound_of_not_loads (h : ¬a.Loads) : w.AnswerSound a := by
  cases a with
  | written => trivial
  | _ => exact absurd trivial h

/-- With no load under way an operation is a write, and the caller has read both halves. -/
private theorem OpSound.of_not_loads (h : w.OpSound o) (hl : ¬o.Loads) :
    w.read = .both ∧ w.applied < o.ticket := by
  cases o with
  | write => exact ⟨h.1, h.2.1⟩
  | _ => exact absurd trivial hl

/-! ### Calls that begin -/

private theorem Sound.load (h : w.Sound) (hquiet : w.NotLoading) : w.load.Sound := by
  have hop_le : ∀ o ∈ w.ops, o.ticket < w.issued + 1 := fun o ho => Nat.lt_succ_of_le (h.op_le o ho)
  refine ⟨Nat.le_succ_of_le h.applied_le, ?_, fun a ha => Nat.le_succ_of_le (h.answer_le a ha),
    ?_, ?_, h.distinct, ?_, fun a ha => answerSound_of_not_loads (hquiet.2 a ha), h.replayable,
    h.queues, h.both⟩
  · intro o ho
    rcases mem_append.mp ho with ho | ho
    · exact Nat.le_of_lt (hop_le o ho)
    · rw [mem_singleton.mp ho]
      exact le_rfl
  · refine pairwise_append.mpr ⟨h.ops_sorted, pairwise_singleton _ _, ?_⟩
    intro o ho o' ho'
    rw [mem_singleton.mp ho']
    exact hop_le o ho
  · intro a ha o ho
    rcases mem_append.mp ho with ho | ho
    · exact h.answer_lt a ha o ho
    · rw [mem_singleton.mp ho]
      exact Nat.lt_succ_of_le (h.answer_le a ha)
  · intro o ho
    rcases mem_append.mp ho with ho | ho
    · have hsound := h.op o ho
      cases o with
      | write => exact hsound
      | _ => exact absurd trivial (hquiet.1 _ ho)
    · rw [mem_singleton.mp ho]
      exact ⟨rfl, Nat.lt_succ_of_le h.applied_le⟩

private theorem Sound.loadSettlements (h : w.Sound) (hquiet : w.NotLoading)
    (hread : w.read = .queues) : w.loadSettlements.Sound := by
  have hops : w.ops = [] := by
    refine List.eq_nil_iff_forall_not_mem.mpr fun o ho => ?_
    have hboth := ((h.op o ho).of_not_loads (hquiet.1 o ho)).1
    exact nomatch hread.symm.trans hboth
  obtain ⟨hcached, hpair, hpersisted, hlanded⟩ := h.queues hread
  refine ⟨Nat.le_succ_of_le h.applied_le, fun o ho => Nat.le_succ_of_le (h.op_le o ho), ?_,
    h.ops_sorted, ?_, ?_, ?_, ?_, h.replayable, fun _ => ⟨hcached, hpair, hpersisted, ?_⟩, ?_⟩
  · intro a ha
    rcases mem_append.mp ha with ha | ha
    · exact Nat.le_succ_of_le (h.answer_le a ha)
    · rw [mem_singleton.mp ha]
      exact le_rfl
  · intro a _ o ho
    have ho : o ∈ w.ops := ho
    rw [hops] at ho
    exact absurd ho not_mem_nil
  · refine pairwise_append.mpr ⟨h.distinct, pairwise_singleton _ _, ?_⟩
    intro a ha a' ha'
    rw [mem_singleton.mp ha']
    exact Nat.ne_of_lt (Nat.lt_succ_of_le (h.answer_le a ha))
  · intro o ho
    have ho : o ∈ w.ops := ho
    rw [hops] at ho
    exact absurd ho not_mem_nil
  · intro a ha
    rcases mem_append.mp ha with ha | ha
    · exact answerSound_of_not_loads (hquiet.2 a ha)
    · rw [mem_singleton.mp ha]
      exact ⟨rfl, Nat.lt_succ_of_le h.applied_le, hops, hread, rfl⟩
  · intro t ids ht
    rcases mem_append.mp ht with ht | ht
    · exact hlanded t ids ht
    · exact nomatch mem_singleton.mp ht
  · intro hboth
    exact nomatch hread.symm.trans hboth

/-- A save that keeps `pair` in step with the cache. -/
private theorem Sound.saveHalf (h : w.Sound) (hquiet : w.NotLoading) (hread : w.read = .both)
    {cached : QueuePair} (hcached : ∀ owed ∈ cached.settlements, owed.Replayable) :
    (w.saveHalf cached.ids cached).Sound := by
  have hop : ∀ o ∈ (w.saveHalf cached.ids cached).ops,
      o ∈ w.ops ∨ o = .write (w.issued + 1) cached.ids cached.blob := by
    intro o ho
    simp only [RecordWorld.saveHalf] at ho
    split at ho
    · exact .inl ho
    · exact (mem_append.mp ho).imp_right mem_singleton.mp
  refine ⟨Nat.le_succ_of_le h.applied_le, ?_, fun a ha => Nat.le_succ_of_le (h.answer_le a ha),
    ?_, ?_, h.distinct, ?_, fun a ha => answerSound_of_not_loads (hquiet.2 a ha), hcached, ?_, ?_⟩
  · intro o ho
    rcases hop o ho with ho | rfl
    · exact Nat.le_succ_of_le (h.op_le o ho)
    · exact le_rfl
  · simp only [RecordWorld.saveHalf]
    split
    · exact h.ops_sorted
    · refine pairwise_append.mpr ⟨h.ops_sorted, pairwise_singleton _ _, ?_⟩
      intro o ho o' ho'
      rw [mem_singleton.mp ho']
      exact Nat.lt_succ_of_le (h.op_le o ho)
  · intro a ha o ho
    rcases hop o ho with ho | rfl
    · exact h.answer_lt a ha o ho
    · exact Nat.lt_succ_of_le (h.answer_le a ha)
  · intro o ho
    rcases hop o ho with ho | rfl
    · have hsound := h.op o ho
      cases o with
      | write => exact hsound
      | _ => exact absurd trivial (hquiet.1 _ ho)
    · exact ⟨hread, Nat.lt_succ_of_le h.applied_le, QueuePair.ids_blob hcached⟩
  · intro hqueues
    exact nomatch hread.symm.trans hqueues
  · intro _
    obtain ⟨-, t, ht⟩ := h.both hread
    exact ⟨rfl, t, ht⟩

/-! ### The store takes an operation -/

/-- Answers that say nothing of a landed save do not move the latest one. -/
private theorem Latest.congr {t : ℕ} (h : w.Latest t)
    (hlanded : ∀ t ids, .written t ids true ∈ w'.answers ↔ .written t ids true ∈ w.answers)
    (happlied : w'.applied = w.applied) (hpersisted : w'.persisted = w.persisted)
    (hkey : w'.key.ids = w.key.ids) : w'.Latest t := by
  refine ⟨fun t' ids ht' => h.1 t' ids ((hlanded t' ids).mp ht'), ?_⟩
  rw [happlied, hpersisted, hkey, hlanded]
  exact h.2

variable {answers : List StoreAnswer}

private theorem written_mem_append (ha : ∀ t ids, a ≠ .written t ids true) (t : ℕ) (ids : KnownIds) :
    .written t ids true ∈ answers ++ [a] ↔ .written t ids true ∈ answers := by
  rw [mem_append, mem_singleton]
  exact or_iff_left fun ht => ha t ids ht.symm

/-- The answer to the operation at the head has a ticket above the other answers' and below
those of the other operations. -/
private theorem Sound.answered {o : StoreOp} {ops : List StoreOp} {a : StoreAnswer} {key : KeyBlob}
    (h : w.Sound) (hops : w.ops = o :: ops) (ha : a.ticket = o.ticket)
    (hw' : w' = { w with key, ops, answers := w.answers ++ [a] })
    (hop : ∀ o' ∈ ops, w'.OpSound o') (hanswer : w'.AnswerSound a)
    (hqueues : w.read = .queues → w'.key = w.key ∧ ∀ t ids, a ≠ .written t ids true)
    (hboth : w.read = .both → ∃ t, w'.Latest t) : w'.Sound := by
  subst hw'
  have hmem : o ∈ w.ops := hops ▸ (.head _)
  have hsub : ∀ o' ∈ ops, o' ∈ w.ops := fun o' ho' => hops ▸ List.mem_cons_of_mem _ ho'
  obtain ⟨hfirst, hsorted⟩ := pairwise_cons.mp (hops ▸ h.ops_sorted)
  have hlt : ∀ a' ∈ w.answers, a'.ticket < a.ticket := fun a' ha' => ha ▸ h.answer_lt a' ha' o hmem
  have hle : a.ticket ≤ w.issued := ha ▸ h.op_le o hmem
  refine ⟨h.applied_le, fun o' ho' => h.op_le o' (hsub o' ho'), ?_, hsorted, ?_, ?_, hop, ?_,
    h.replayable, ?_, fun hread => ⟨(h.both hread).1, hboth hread⟩⟩
  · intro a' ha'
    rcases mem_append.mp ha' with ha' | ha'
    · exact h.answer_le a' ha'
    · rw [mem_singleton.mp ha']
      exact hle
  · intro a' ha' o' ho'
    rcases mem_append.mp ha' with ha' | ha'
    · exact h.answer_lt a' ha' o' (hsub o' ho')
    · rw [mem_singleton.mp ha', ha]
      exact hfirst o' ho'
  · refine pairwise_append.mpr ⟨h.distinct, pairwise_singleton _ _, ?_⟩
    intro a' ha' b hb
    rw [mem_singleton.mp hb]
    exact Nat.ne_of_lt (hlt a' ha')
  · intro a' ha'
    rcases mem_append.mp ha' with ha' | ha'
    · -- An older answer is not to a call that loads: such a call has the last ticket.
      refine answerSound_of_not_loads fun hl => ?_
      have hlast := ((h.answer a' ha').ticket_eq hl).1
      have hold := hlt a' ha'
      omega
    · rw [mem_singleton.mp ha']
      exact hanswer
  · intro hread
    obtain ⟨rfl, hnew⟩ := hqueues hread
    obtain ⟨hcached, hpair, hpersisted, hlanded⟩ := h.queues hread
    refine ⟨hcached, hpair, hpersisted, fun t ids ht => ?_⟩
    rcases mem_append.mp ht with ht | ht
    · exact hlanded t ids ht
    · exact absurd (mem_singleton.mp ht).symm (hnew t ids)

/-- An operation that loads is the last one. -/
private theorem Sound.ops_eq_nil {ops : List StoreOp} (h : w.Sound) (hops : w.ops = o :: ops)
    (hl : o.Loads) : ops = [] := by
  refine List.eq_nil_iff_forall_not_mem.mpr fun o' ho' => ?_
  have hlast := ((h.op o (hops ▸ (.head _))).ticket_eq hl).1
  have hle := h.op_le o' (hops ▸ List.mem_cons_of_mem _ ho')
  have hlt := (pairwise_cons.mp (hops ▸ h.ops_sorted)).1 o' ho'
  omega

/-- The store answers the operation at the head, or refuses it. -/
private theorem Sound.serve {ops : List StoreOp} (h : w.Sound) (hops : w.ops = o :: ops) (ok : Bool) :
    (serve { w with ops } ok o).Sound := by
  have hsound := h.op o (hops ▸ (.head _))
  cases o with
  | read t =>
    obtain rfl := h.ops_eq_nil hops trivial
    have hnew : ∀ t' ids, StoreAnswer.read t (if ok then some w.key else none) ≠
        .written t' ids true := fun _ _ h => nomatch h
    refine h.answered hops rfl rfl (fun _ ho => nomatch ho) ⟨hsound.1, hsound.2, ?_⟩
      (fun _ => ⟨rfl, hnew⟩) fun hread => ?_
    · intro b hb
      refine ⟨?_, rfl⟩
      split at hb
      · exact (Option.some.inj hb).symm
      · exact nomatch hb
    · obtain ⟨-, t', ht'⟩ := h.both hread
      exact ⟨t', ht'.congr (written_mem_append hnew) rfl rfl rfl⟩
  | upgrade t blob =>
    obtain rfl := h.ops_eq_nil hops trivial
    obtain ⟨hlast, happlied, hread, hcached, hblob⟩ := hsound
    have hkey : (if ok then blob else w.key).ids = w.key.ids := by
      split
      · exact hblob
      · rfl
    refine h.answered hops rfl rfl (fun _ ho => nomatch ho)
      ⟨hlast, happlied, rfl, hread, hcached.trans hkey.symm⟩ ?_ ?_
    · exact fun hqueues => nomatch hread.symm.trans hqueues
    · exact fun hboth => nomatch hread.symm.trans hboth
  | write t ids blob =>
    obtain ⟨hread, happlied, hblob⟩ := hsound
    refine h.answered hops rfl rfl ?_ trivial ?_ fun _ => ?_
    · intro o ho
      have hsound := h.op o (hops ▸ List.mem_cons_of_mem _ ho)
      cases o with
      | upgrade => exact nomatch hread.symm.trans hsound.2.2.1
      | _ => exact hsound
    · exact fun hqueues => nomatch hread.symm.trans hqueues
    · have hmem : StoreOp.write t ids blob ∈ w.ops := hops ▸ (.head _)
      have hlt : ∀ t' ids', .written t' ids' true ∈ w.answers → t' < t := fun t' ids' ht' =>
        h.answer_lt _ ht' _ hmem
      cases ok with
      | false =>
        obtain ⟨-, t', ht'⟩ := h.both hread
        have hnew : ∀ t' ids', StoreAnswer.written t ids false ≠ .written t' ids' true :=
          fun _ _ h => nomatch h
        exact ⟨t', ht'.congr (written_mem_append hnew) rfl rfl rfl⟩
      | true =>
        refine ⟨t, fun t' ids' ht' => ?_, .inr ⟨happlied, ?_⟩⟩
        · rcases mem_append.mp ht' with ht' | ht'
          · exact Nat.le_of_lt (hlt t' ids' ht')
          · injection mem_singleton.mp ht' with ht'
            exact Nat.le_of_eq ht'
        · refine List.mem_append_right _ (mem_singleton.mpr ?_)
          change StoreAnswer.written t blob.ids true = _
          rw [hblob]

/-! ### An answer arrives -/

/-- An answer is taken off the list. -/
private theorem Sound.taken (h : w.Sound) (hanswers : (a :: answers).Perm w.answers)
    (ha : ∀ t ids, a ≠ .written t ids true) :
    { w with answers }.Sound ∧ ∀ a' ∈ answers, a'.ticket ≠ a.ticket := by
  have hsub : ∀ a' ∈ answers, a' ∈ w.answers := fun a' ha' =>
    hanswers.subset (.tail _ ha')
  have hdistinct := pairwise_cons.mp
    ((hanswers.pairwise_iff fun hne => Ne.symm hne).mpr h.distinct)
  have hlanded : ∀ t ids, .written t ids true ∈ answers ↔ .written t ids true ∈ w.answers := by
    intro t ids
    rw [← hanswers.mem_iff, List.mem_cons]
    exact ⟨.inr, fun ht => ht.resolve_left fun ht => ha t ids ht.symm⟩
  refine ⟨⟨h.applied_le, h.op_le, fun a' ha' => h.answer_le a' (hsub a' ha'), h.ops_sorted,
    fun a' ha' => h.answer_lt a' (hsub a' ha'), hdistinct.2, ?_, ?_, h.replayable, ?_, ?_⟩,
    fun a' ha' => (hdistinct.1 a' ha').symm⟩
  · exact fun o ho => h.op o ho
  · exact fun a' ha' => h.answer a' (hsub a' ha')
  · intro hread
    obtain ⟨hcached, hpair, hpersisted, hlast⟩ := h.queues hread
    exact ⟨hcached, hpair, hpersisted, fun t ids ht => hlast t ids ((hlanded t ids).mp ht)⟩
  · intro hread
    obtain ⟨hpair, t, ht⟩ := h.both hread
    exact ⟨hpair, t, ht.congr hlanded rfl rfl rfl⟩

/-- The only call that loads has its answer taken: what is left are answers to saves, and the
store has no operation. -/
private theorem Sound.only (h : w.Sound) (hanswers : (a :: answers).Perm w.answers) (hl : a.Loads) :
    ∀ a' ∈ answers, ¬a'.Loads := by
  intro a' ha' hl'
  have hmem : a ∈ w.answers := hanswers.subset (.head _)
  have hmem' : a' ∈ w.answers := hanswers.subset (.tail _ ha')
  have hlast := ((h.answer a hmem).ticket_eq hl).1
  have hlast' := ((h.answer a' hmem').ticket_eq hl').1
  have hdistinct := pairwise_cons.mp
    ((hanswers.pairwise_iff fun hne => Ne.symm hne).mpr h.distinct)
  exact hdistinct.1 a' ha' (hlast.trans hlast'.symm)

/-- A call that loads goes on, while the store has no operation and no half counts as read. -/
private theorem Sound.goes_on {a : StoreAnswer} (h : w.Sound)
    (hquiet : ∀ a' ∈ w.answers, ¬a'.Loads) (hlt : ∀ a' ∈ w.answers, a'.ticket ≠ a.ticket)
    (hops : w.ops = []) (hread : w.read = .nothing) (hlast : a.ticket = w.issued)
    (ha : { w with answers := w.answers ++ [a] }.AnswerSound a) :
    { w with answers := w.answers ++ [a] }.Sound := by
  refine ⟨h.applied_le, h.op_le, ?_, h.ops_sorted, ?_, ?_, ?_, ?_, h.replayable, ?_, ?_⟩
  · intro a' ha'
    rcases mem_append.mp ha' with ha' | ha'
    · exact h.answer_le a' ha'
    · rw [mem_singleton.mp ha']
      exact Nat.le_of_eq hlast
  · intro _ _ o ho
    have ho : o ∈ w.ops := ho
    rw [hops] at ho
    exact absurd ho not_mem_nil
  · refine pairwise_append.mpr ⟨h.distinct, pairwise_singleton _ _, ?_⟩
    intro a' ha' b hb
    rw [mem_singleton.mp hb]
    exact hlt a' ha'
  · intro o ho
    have ho : o ∈ w.ops := ho
    rw [hops] at ho
    exact absurd ho not_mem_nil
  · intro a' ha'
    rcases mem_append.mp ha' with ha' | ha'
    · exact answerSound_of_not_loads (hquiet a' ha')
    · rw [mem_singleton.mp ha']
      exact ha
  · exact fun hqueues => nomatch hread.symm.trans hqueues
  · exact fun hboth => nomatch hread.symm.trans hboth

/-- The store answers a load: the cache follows the key. -/
private theorem Sound.absorb {t : ℕ} (h : w.Sound)
    (hquiet : ∀ a' ∈ w.answers, ¬a'.Loads) (hlt : ∀ a' ∈ w.answers, a'.ticket ≠ t)
    (hops : w.ops = []) (hlast : t = w.issued) (happlied : w.applied < t) :
    (w.absorb t w.key).Sound := by
  have hnone : ∀ o, o ∉ w.ops := fun o ho => by
    rw [hops] at ho
    exact absurd ho not_mem_nil
  have hread : { w with
      cached := (splitBlob w.key).pair
      newerVersionRead := (splitBlob w.key).newerVersion
      read := .nothing }.Sound :=
    ⟨h.applied_le, h.op_le, h.answer_le, h.ops_sorted, h.answer_lt, h.distinct,
      fun o ho => absurd ho (hnone o), fun a' ha' => answerSound_of_not_loads (hquiet a' ha'),
      fun _ => replayable_of_mem_splitBlob, fun hread => (nomatch hread),
      fun hread => (nomatch hread)⟩
  simp only [RecordWorld.absorb]
  split
  · refine ⟨h.applied_le, ?_, h.answer_le, ?_, ?_, h.distinct, ?_,
      fun a' ha' => answerSound_of_not_loads (hquiet a' ha'), hread.replayable, hread.queues,
      hread.both⟩
    · intro o ho
      rcases mem_append.mp ho with ho | ho
      · exact absurd ho (hnone o)
      · rw [mem_singleton.mp ho]
        exact Nat.le_of_eq hlast
    · rw [hops]
      exact pairwise_singleton _ _
    · intro a' ha' o ho
      rcases mem_append.mp ho with ho | ho
      · exact absurd ho (hnone o)
      · rw [mem_singleton.mp ho]
        have hle := h.answer_le a' ha'
        have hne := hlt a' ha'
        change a'.ticket < t
        omega
    · intro o ho
      rcases mem_append.mp ho with ho | ho
      · exact absurd ho (hnone o)
      · rw [mem_singleton.mp ho]
        exact ⟨hlast, happlied, rfl, rfl, QueuePair.ids_blob fun _ => replayable_of_mem_splitBlob⟩
  · exact hread.goes_on hquiet hlt hops rfl hlast ⟨hlast, happlied, hops, rfl, rfl, rfl⟩

/-- A call that loads has read a half, and its ids are committed. -/
private theorem Sound.committed {t : ℕ} {pair ids : KnownIds} {read : KeyRead} (h : w.Sound)
    (hquiet : ∀ a' ∈ w.answers, ¬a'.Loads) (hops : w.ops = []) (hlast : t = w.issued)
    (happlied : w.applied < t)
    (hqueues : read = .queues → w.cached.ids = w.key.ids ∧ pair.queues = w.key.ids.queues ∧
      ids.queues = w.key.ids.queues)
    (hboth : read = .both → pair = w.cached.ids ∧ ids = w.key.ids) :
    (commit { w with pair, read } t ids).Sound := by
  have hnone : ∀ o, o ∉ w.ops := fun o ho => by
    rw [hops] at ho
    exact absurd ho not_mem_nil
  have hle : ∀ t' ids', .written t' ids' true ∈ w.answers → t' ≤ t := fun t' ids' ht' =>
    hlast ▸ h.answer_le _ ht'
  rw [commit, if_neg (Nat.not_le_of_lt happlied)]
  refine ⟨Nat.le_of_eq hlast, h.op_le, h.answer_le, h.ops_sorted, h.answer_lt, h.distinct,
    fun o ho => absurd ho (hnone o), fun a' ha' => answerSound_of_not_loads (hquiet a' ha'),
    h.replayable, fun hread => ?_, fun hread => ?_⟩
  · obtain ⟨hcached, hpair, hids⟩ := hqueues hread
    exact ⟨hcached, hpair, hids, hle⟩
  · obtain ⟨hpair, hids⟩ := hboth hread
    exact ⟨hpair, t, hle, .inl ⟨rfl, hids⟩⟩

/-- What stands behind a call under way stands behind it after an older call has committed. -/
private theorem OpSound.applied {applied : ℕ} (ids : KnownIds) (h : w.OpSound o)
    (hlt : applied < o.ticket) : { w with applied, persisted := ids }.OpSound o := by
  cases o with
  | read => exact ⟨h.1, hlt⟩
  | upgrade | write => exact ⟨h.1, hlt, h.2.2⟩

private theorem AnswerSound.applied {applied : ℕ} (ids : KnownIds) (h : w.AnswerSound a)
    (hlt : a.Loads → applied < a.ticket) :
    { w with applied, persisted := ids }.AnswerSound a := by
  cases a with
  | read | upgraded | loaded | settlements => exact ⟨h.1, hlt trivial, h.2.2⟩
  | written => trivial

/-- A save that has landed is reported. -/
private theorem Sound.written {t : ℕ} {ids : KnownIds} (h : w.Sound)
    (hanswers : (.written t ids true :: answers).Perm w.answers) :
    (commit { w with answers } t ids).Sound := by
  have hmem : .written t ids true ∈ w.answers := hanswers.subset (.head _)
  have hsub : ∀ a ∈ answers, a ∈ w.answers := fun a ha =>
    hanswers.subset (.tail _ ha)
  obtain ⟨hne, hdistinct⟩ := pairwise_cons.mp
    ((hanswers.pairwise_iff fun hne => Ne.symm hne).mpr h.distinct)
  -- A landed save other than the one reported is still on its way.
  have hkept : ∀ t' ids', .written t' ids' true ∈ w.answers → t' = t ∧ ids' = ids ∨
      .written t' ids' true ∈ answers := by
    intro t' ids' ht'
    rcases List.mem_cons.mp (hanswers.mem_iff.mpr ht') with heq | ht'
    · injection heq with ht hids
      exact .inl ⟨ht, hids⟩
    · exact .inr ht'
  rw [commit]
  split
  · next hold =>
    refine ⟨h.applied_le, h.op_le, fun a ha => h.answer_le a (hsub a ha), h.ops_sorted,
      fun a ha => h.answer_lt a (hsub a ha), hdistinct, h.op, fun a ha => h.answer a (hsub a ha),
      h.replayable, fun hread => ?_, fun hread => ?_⟩
    · obtain ⟨hcached, hpair, hpersisted, hlanded⟩ := h.queues hread
      exact ⟨hcached, hpair, hpersisted, fun t' ids' ht' => hlanded t' ids' (hsub _ ht')⟩
    · obtain ⟨hpair, t', hle, hlast⟩ := h.both hread
      refine ⟨hpair, t', fun t'' ids' ht'' => hle t'' ids' (hsub _ ht''), hlast.imp_right ?_⟩
      rintro ⟨hlt, hlanded⟩
      refine ⟨hlt, (hkept _ _ hlanded).resolve_left ?_⟩
      rintro ⟨rfl, -⟩
      exact absurd hlt (Nat.not_lt_of_le hold)
  · next hnew =>
    have hnew : w.applied < t := Nat.lt_of_not_le hnew
    refine ⟨h.answer_le _ hmem, h.op_le, fun a ha => h.answer_le a (hsub a ha), h.ops_sorted,
      fun a ha => h.answer_lt a (hsub a ha), hdistinct,
      fun o ho => (h.op o ho).applied ids (h.answer_lt _ hmem o ho), fun a ha => ?_,
      h.replayable, fun hread => ?_, fun hread => ?_⟩
    · refine (h.answer a (hsub a ha)).applied ids fun hl => ?_
      have hlast := ((h.answer a (hsub a ha)).ticket_eq hl).1
      have hle : t ≤ w.issued := h.answer_le _ hmem
      have hother : t ≠ a.ticket := hne a ha
      omega
    · have hold := (h.queues hread).2.2.2 t ids hmem
      exact absurd hold (Nat.not_le_of_lt hnew)
    · obtain ⟨hpair, t', hle, hlast⟩ := h.both hread
      have htt' : t ≤ t' := hle t ids hmem
      have hlanded : .written t' w.key.ids true ∈ w.answers := by
        rcases hlast with ⟨rfl, -⟩ | ⟨-, hlanded⟩
        · exact absurd htt' (Nat.not_le_of_lt hnew)
        · exact hlanded
      refine ⟨hpair, t', fun t'' ids' ht'' => hle t'' ids' (hsub _ ht''), ?_⟩
      rcases hkept _ _ hlanded with ⟨rfl, hids⟩ | hlanded
      · exact .inl ⟨rfl, hids.symm⟩
      · exact .inr ⟨Nat.lt_of_le_of_ne htt' (hne _ hlanded), hlanded⟩

/-- An answer arrives. -/
private theorem Sound.arrive (h : w.Sound) (hanswers : (a :: answers).Perm w.answers)
    (ledgerReadable : Bool) :
    (arrive { w with answers } ledgerReadable a).Sound := by
  have hmem : a ∈ w.answers := hanswers.subset (.head _)
  have hsound := h.answer a hmem
  cases a with
  | read t blob =>
    obtain ⟨htaken, hne⟩ := h.taken hanswers fun _ _ heq => nomatch heq
    cases blob with
    | none => exact htaken
    | some blob =>
      obtain ⟨hlast, happlied, hblob⟩ := hsound
      obtain ⟨rfl, hops⟩ := hblob blob rfl
      exact htaken.absorb (h.only hanswers trivial) hne hops hlast happlied
  | upgraded t =>
    obtain ⟨htaken, hne⟩ := h.taken hanswers fun _ _ heq => nomatch heq
    obtain ⟨hlast, happlied, hops, hread, hcached⟩ := hsound
    exact htaken.goes_on (h.only hanswers trivial) hne hops hread hlast
      ⟨hlast, happlied, hops, hread, hcached, rfl⟩
  | loaded t snapshot =>
    obtain ⟨htaken, -⟩ := h.taken hanswers fun _ _ heq => nomatch heq
    obtain ⟨hlast, happlied, hops, hread, hcached, rfl⟩ := hsound
    have hqueues : queueKeysOf w.cached.queues = w.key.ids.queues :=
      congrArg KnownIds.queues hcached
    cases ledgerReadable with
    | false => exact htaken
    | true =>
      exact htaken.committed (h.only hanswers trivial) hops hlast happlied
        (fun _ => ⟨hcached, hqueues, hqueues⟩) fun hboth => nomatch hboth
  | settlements t owed =>
    obtain ⟨htaken, -⟩ := h.taken hanswers fun _ _ heq => nomatch heq
    obtain ⟨hlast, happlied, hops, hread, rfl⟩ := hsound
    obtain ⟨hcached, hpair, hpersisted, -⟩ := h.queues hread
    have howed : owedKeysOf w.cached.settlements = w.key.ids.owed := congrArg KnownIds.owed hcached
    refine htaken.committed (h.only hanswers trivial) hops hlast happlied
      (fun hqueues => ?_) fun _ => ⟨?_, ?_⟩
    · simp only [hread, if_true] at hqueues
      exact nomatch hqueues
    · change KnownIds.mk w.pair.queues (owedKeysOf w.cached.settlements) = w.cached.ids
      rw [hcached, hpair, howed]
    · change KnownIds.mk w.persisted.queues (owedKeysOf w.cached.settlements) = w.key.ids
      rw [hpersisted, howed]
  | written t ids ok =>
    cases ok with
    | true => exact h.written hanswers
    | false => exact (h.taken hanswers fun _ _ heq => nomatch heq).1

/-- **Step lemma.** -/
theorem Sound.step {a : RecordAct} (h : w.Sound) (ha : w.Disciplined a)
    (hstep : w.step a = some w') : w'.Sound := by
  cases a with
  | load => exact Option.some.inj hstep ▸ h.load ha
  | loadSettlements => exact Option.some.inj hstep ▸ h.loadSettlements ha.1 ha.2
  | save snapshot =>
    obtain ⟨hquiet, hread⟩ := ha
    have hpair := (h.both hread).1
    have hids : { w.pair with queues := queueKeysOf snapshot } =
        QueuePair.ids { w.cached with queues := snapshot } := by rw [hpair]; rfl
    obtain ⟨⟩ := hstep
    rw [RecordWorld.save, hids]
    exact h.saveHalf hquiet hread h.replayable
  | saveSettlements records =>
    obtain ⟨hquiet, hread, hrecords⟩ := ha
    have hpair := (h.both hread).1
    have hids : { w.pair with owed := owedKeysOf records } =
        QueuePair.ids { w.cached with settlements := records } := by rw [hpair]; rfl
    obtain ⟨⟩ := hstep
    rw [RecordWorld.saveSettlements, hids]
    exact h.saveHalf hquiet hread hrecords
  | take n ok =>
    obtain rfl : n = 0 := ha
    obtain ⟨o, ho, rfl⟩ := Option.map_eq_some_iff.mp hstep
    obtain ⟨ops, hops⟩ : ∃ ops, w.ops = o :: ops := by
      cases hops : w.ops with
      | nil => rw [hops] at ho; exact nomatch ho
      | cons o' ops =>
        rw [hops] at ho
        obtain ⟨⟩ := ho
        exact ⟨ops, rfl⟩
    rw [hops, List.eraseIdx_zero, List.tail_cons]
    exact h.serve hops ok
  | resume n ledgerReadable =>
    obtain ⟨answer, hanswer, rfl⟩ := Option.map_eq_some_iff.mp hstep
    obtain ⟨hn, rfl⟩ := List.getElem?_eq_some_iff.mp hanswer
    exact h.arrive (List.getElem_cons_eraseIdx_perm hn) ledgerReadable
  | foreign => exact ha.elim

/-- **The record is the key.** A process that reads the key before it writes it, and is its
only writer, keeps the ids that its record names equal to those under the key: whenever it has
read both halves and no save that has landed is still to be reported, whatever was refused
before. A save that is refused for a newer version changes neither. -/
theorem persisted_eq_key (key : KeyBlob) {as : List RecordAct}
    (hdisciplined : Transition.Under Disciplined step (boot key) as)
    (hrun : run step (boot key) as = some w) :
    (w.read = .both → (∀ t ids, .written t ids true ∉ w.answers) → w.persisted = w.key.ids) ∧
      ∀ snapshot, w.newerVersionRead.isSome → ∃ w', w.step (.save snapshot) = some w' ∧
        w'.ops = w.ops ∧ w'.key = w.key ∧ w'.persisted = w.persisted := by
  have hsound : w.Sound := run_invariant_of_under
    (fun _ _ _ h ha hstep => h.step ha hstep) (Sound.boot key) hdisciplined hrun
  refine ⟨fun hread hreported => ?_, fun snapshot hnewer => ⟨_, rfl, ?_, rfl, rfl⟩⟩
  · obtain ⟨-, t, -, ⟨-, hlast⟩ | ⟨-, hlanded⟩⟩ := hsound.both hread
    · exact hlast
    · exact absurd hlanded (hreported t _)
  · simp only [save, saveHalf, hnewer, if_true]

/-! ### A load, two saves and another writer -/

private def sampleEntry (id : String) : QueueEntry := { id, chainId := "BTC", signedTxHex := "00" }

private def sampleOwed : OwedRecord :=
  { id := "owed", walletId := none, pendingTxId := "p", op := .discard, recordedAt := 0 }

/-- The process reads both halves. -/
private def readBoth : List RecordAct :=
  [.load, .take 0 true, .resume 0 true, .resume 0 true, .loadSettlements, .resume 0 true]

/-- Two saves overlap; the store refuses the later one, whose answer arrives first. -/
theorem persisted_eq_key_overlapping_saves :
    ∃ as w, run step (boot (.bare [])) as = some w ∧ w.read = .both ∧
      w.persisted = w.key.ids ∧ w.key.ids = ⟨[("W", "a")], []⟩ := by
  set as := readBoth ++ [.save [("W", [sampleEntry "a"])], .saveSettlements [sampleOwed],
    .take 0 true, .take 0 false, .resume 1 true, .resume 0 true]
  have hdisciplined : Transition.Under Disciplined step (boot (.bare [])) as := by decide
  have hsome : (run step (boot (.bare [])) as).map
      (fun w => (w.read, w.answers, w.key.ids)) = some (.both, [], ⟨[("W", "a")], []⟩) := by
    decide
  obtain ⟨w, hrun, hw⟩ := Option.map_eq_some_iff.mp hsome
  obtain ⟨hread, hw⟩ := Prod.mk.inj hw
  obtain ⟨hanswers, hkey⟩ := Prod.mk.inj hw
  have hrecord := (persisted_eq_key (.bare []) hdisciplined hrun).1 hread
  exact ⟨as, w, hrun, hread, hrecord fun t ids ht => by simp [hanswers] at ht, hkey⟩

/-- Another writer puts an entry under the key. A save of this process is refused, and its
record keeps naming what the key held before. -/
theorem record_misses_another_writer :
    ∃ as w, run step (boot (.bare [])) as = some w ∧ w.read = .both ∧ w.ops = [] ∧
      w.answers = [] ∧ w.persisted ≠ w.key.ids := by
  set as := readBoth ++ [.foreign (.bare [("W", some [some (sampleEntry "b")])]),
    .save [("W", [sampleEntry "a"])], .take 0 false, .resume 0 true]
  have hsome : (run step (boot (.bare [])) as).map
      (fun w => (w.read, w.ops, w.answers, w.persisted, w.key.ids)) =
        some (.both, [], [], ⟨[], []⟩, ⟨[("W", "b")], []⟩) := by
    decide
  obtain ⟨w, hrun, hw⟩ := Option.map_eq_some_iff.mp hsome
  simp only [Prod.mk.injEq] at hw
  obtain ⟨hread, hops, hanswers, hpersisted, hkey⟩ := hw
  refine ⟨as, w, hrun, hread, hops, hanswers, fun heq => ?_⟩
  rw [hpersisted, hkey] at heq
  exact absurd heq (by decide)

end RecordWorld

end XchainWallet
