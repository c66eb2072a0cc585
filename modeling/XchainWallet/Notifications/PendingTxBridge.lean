import XchainWallet.Ledger.PendingRecord

/-!
# Retiring the records of a confirmed transaction

`markPendingTxIndexed` flips the records of a transaction that reached a block to 'indexed', and fails
the replacements of each: they spend the same inputs, so none of them can confirm. The replacements are
walked hash by hash, each step over the records of one hash that are neither in a block nor failed, and
the walk goes on at the first replacement that one of these names.

The calls on one ledger run one after the other. A write may be refused at any point, and the call then
throws with the earlier writes done.
-/

namespace XchainWallet.PendingLedger

open Traced

def REPLACEMENT_LOST_ERROR : String := "The original transaction confirmed before this replacement did."

/-- What proved that a block carries the transaction, and which one. -/
structure Inclusion where
  blockIndex : Option ℕ

/-- `stamp` is the time of the call. -/
structure MarkOpts where
  stamp : String
  inclusion : Option Inclusion := none

/-- The record of a transaction that reached a block. -/
def indexedRecord (opts : MarkOpts) (rec : PendingRecord) : PendingRecord :=
  { rec with
    status := .indexed
    confirmedAt := (nonEmpty rec.confirmedAt).or (some opts.stamp)
    chainConfirmed := opts.inclusion.isSome || rec.chainConfirmed
    confirmedBlockIndex :=
      match opts.inclusion with
      | some inclusion => inclusion.blockIndex.filter (0 < ·)
      | none => rec.confirmedBlockIndex }

/-- The record of a replacement that can no longer confirm. -/
def lostRecord (rec : PendingRecord) : PendingRecord :=
  { rec with status := .failed, error := some REPLACEMENT_LOST_ERROR }

/-- A record of the hash that the walk retires. -/
def IsDead (next : String) (r : PendingRecord) : Prop :=
  r.hash = next ∧ r.status ≠ .indexed ∧ r.status ≠ .failed

instance (next : String) (r : PendingRecord) : Decidable (IsDead next r) :=
  inferInstanceAs (Decidable (_ ∧ _))

/-- Where the walk goes on after it retired these records. -/
def firstReplacement (dead : List PendingRecord) : String :=
  ((dead.map PendingRecord.replacement).find? (· ≠ "")).getD ""

/-- The walk over the replacements. `fuel` bounds its steps; the ledger never has enough records to
use it up (`failSuperseded_fails`). -/
def failSuperseded : ℕ → List String → String → Writes Unit
  | 0, _, _ => pure ()
  | fuel + 1, seen, next =>
    if next = "" ∨ next ∈ seen then pure ()
    else do
      let ledger ← read
      let dead := ledger.records.filter fun r => IsDead next r
      dead.forM fun r => put (lostRecord r)
      failSuperseded fuel (next :: seen) (firstReplacement dead)

def failSupersededReplacements (confirmed : PendingRecord) : Writes Unit := do
  let ledger ← read
  failSuperseded (ledger.records.length + 1) [] confirmed.replacement

/-- The records that were found, one after the other; whether one of them changed. -/
def markMatches (opts : MarkOpts) : List PendingRecord → Writes Bool
  | [] => pure false
  | rec :: rest =>
    if rec.status = .indexed then markMatches opts rest
    else do
      put (indexedRecord opts rec)
      failSupersededReplacements rec
      let _ ← markMatches opts rest
      pure true

/-- `findBy('txid', txid)`. -/
def matchesOf (records : List PendingRecord) (txid : String) : List PendingRecord :=
  records.filter fun r => r.txid = some txid

def markPendingTxIndexed (txid : String) (opts : MarkOpts) : Writes Bool :=
  if txid = "" then pure false
  else do
    let ledger ← read
    markMatches opts (matchesOf ledger.records txid)

/-! ### Chains of replacements -/

/-- The records of the hash and those that replaced them, in any number of steps. -/
inductive Later (records : List PendingRecord) : String → PendingRecord → Prop
  | here {next : String} {r : PendingRecord} (hnext : next ≠ "") (hr : r ∈ records)
      (hhash : r.hash = next) : Later records next r
  | onward {next : String} {r s : PendingRecord} (hr : r ∈ records) (hhash : r.hash = next)
      (hs : Later records r.replacement s) : Later records next s

/-- The records that the walk reaches from a hash: the records of the hash that are neither in a block
nor failed, and those that it reaches from the first replacement that these name. -/
inductive Walked (records : List PendingRecord) : String → PendingRecord → Prop
  | here {next : String} {r : PendingRecord} (hnext : next ≠ "") (hr : r ∈ records)
      (hdead : IsDead next r) : Walked records next r
  | onward {next : String} {s : PendingRecord} (hnext : next ≠ "")
      (hs : Walked records (firstReplacement (records.filter fun r => IsDead next r)) s) :
      Walked records next s

variable {records : List PendingRecord} {next : String} {r s : PendingRecord}

theorem Walked.next_ne (h : Walked records next r) : next ≠ "" := by
  rcases h with ⟨hnext, -, -⟩ | ⟨hnext, -⟩
  · exact hnext
  · exact hnext

theorem Walked.isDead (h : Walked records next r) : IsDead r.hash r := by
  induction h with
  | here _ _ hdead => exact ⟨rfl, hdead.2⟩
  | onward _ _ ih => exact ih

/-- The walk stops at a hash without a record that it can retire. -/
theorem not_walked_of_not_isDead (h : ∀ r ∈ records, ¬ IsDead next r) : ¬ Walked records next s := by
  have hnone : (records.filter fun r => IsDead next r) = [] := by
    rw [List.filter_eq_nil_iff]
    exact fun r hr hdead => h r hr (of_decide_eq_true hdead)
  rintro (⟨_, hr, hdead⟩ | ⟨_, hs⟩)
  · exact h s hr hdead
  · rw [hnone] at hs
    exact hs.next_ne rfl

/-- A walk that comes through a hash goes on as the walk from that hash. -/
theorem Walked.trans (h : Walked records next r) (hs : Walked records r.hash s) :
    Walked records next s := by
  induction h with
  | here hnext _ hdead =>
    rw [← hdead.1]
    exact hs
  | onward hnext _ ih => exact .onward hnext (ih hs)

/-! ### What the walk leaves -/

/-- The records that the walk reaches are failed, the others are as they were. -/
def FailsWalked (records : List PendingRecord) (next : String) (records' : List PendingRecord) : Prop :=
  ∃ g : PendingRecord → PendingRecord, records' = records.map g ∧
    ∀ r ∈ records, (Walked records next r → g r = lostRecord r) ∧ (¬ Walked records next r → g r = r)

theorem failsWalked_self (h : ∀ r, ¬ Walked records next r) : FailsWalked records next records :=
  ⟨id, (List.map_id records).symm, fun r _ => ⟨fun hr => absurd hr (h r), fun _ => rfl⟩⟩

/-- The records after one step of the walk. -/
def retire (next : String) (records : List PendingRecord) : List PendingRecord :=
  records.map fun r => if IsDead next r then lostRecord r else r

theorem not_isDead_lostRecord (next : String) (r : PendingRecord) : ¬ IsDead next (lostRecord r) :=
  fun h => h.2.2 rfl

/-- What can still be retired after one step could be before, and not by that step. -/
theorem mem_retire (next : String) (h : r ∈ retire next records) {n : String} (hdead : IsDead n r) :
    r ∈ records ∧ ¬ IsDead next r := by
  obtain ⟨r₀, hr₀, rfl⟩ := List.mem_map.mp h
  by_cases hnext : IsDead next r₀
  · rw [if_pos hnext] at hdead
    exact absurd hdead (not_isDead_lostRecord n r₀)
  · rw [if_neg hnext]
    exact ⟨hr₀, hnext⟩

theorem mem_retire_of_mem (hr : r ∈ records) (hnext : ¬ IsDead next r) : r ∈ retire next records :=
  List.mem_map.mpr ⟨r, hr, if_neg hnext⟩

theorem filter_retire {n : String} (hn : n ≠ next) :
    ((retire next records).filter fun r => IsDead n r) = records.filter fun r => IsDead n r := by
  rw [retire, List.filter_map]
  have hsame : ∀ r ∈ records.filter fun r => IsDead n r,
      (if IsDead next r then lostRecord r else r) = id r := by
    intro r hr
    have hdead : IsDead n r := of_decide_eq_true (List.mem_filter.mp hr).2
    exact if_neg fun h => hn (hdead.1.symm.trans h.1)
  have hfilter : records.filter ((fun r => decide (IsDead n r)) ∘
      fun r => if IsDead next r then lostRecord r else r) = records.filter fun r => IsDead n r := by
    refine List.filter_congr fun r _ => ?_
    by_cases hdead : IsDead next r
    · have hne : ¬ IsDead n r := fun h => hn (h.1.symm.trans hdead.1)
      simp only [Function.comp_apply, if_pos hdead, hne, not_isDead_lostRecord, decide_false]
    · simp only [Function.comp_apply, if_neg hdead]
  rw [hfilter, List.map_congr_left hsame, List.map_id]

/-- A walk after one step was one before. -/
theorem walked_of_walked_retire {n : String} (h : Walked (retire next records) n s) :
    Walked records n s := by
  induction h with
  | here hn hs hdead => exact .here hn (mem_retire _ hs hdead).1 hdead
  | @onward n s hn hs ih =>
    by_cases hnext : n = next
    · -- Nothing of this hash can be retired a second time.
      subst hnext
      exact absurd (Walked.onward hn hs) (not_walked_of_not_isDead fun r hr hdead =>
        (mem_retire _ hr hdead).2 hdead)
    · rw [filter_retire hnext] at ih
      exact .onward hn ih

/-- What the walk reaches is of the hash that one step retires, or is reached after that step: from
where the walk was, or from where that step leads. -/
theorem walked_retire_of_walked (next : String) {n : String} (h : Walked records n s) :
    IsDead next s ∨ Walked (retire next records) n s ∨
      Walked (retire next records) (firstReplacement (records.filter fun r => IsDead next r)) s := by
  induction h with
  | @here n s hn hs hdead =>
    by_cases hnext : IsDead next s
    · exact .inl hnext
    · exact .inr (.inl (.here hn (mem_retire_of_mem hs hnext) hdead))
  | @onward n s hn hs ih =>
    by_cases hnext : n = next
    · subst hnext
      rcases ih with ih | ih | ih
      · exact .inl ih
      · exact .inr (.inr ih)
      · exact .inr (.inr ih)
    · rcases ih with ih | ih | ih
      · exact .inl ih
      · rw [← filter_retire hnext] at ih
        exact .inr (.inl (.onward hn ih))
      · exact .inr (.inr ih)

/-- One step and the walk from there are the whole walk. -/
theorem FailsWalked.of_retire {records' : List PendingRecord} (hnext : next ≠ "")
    (h : FailsWalked (retire next records)
      (firstReplacement (records.filter fun r => IsDead next r)) records') :
    FailsWalked records next records' := by
  obtain ⟨g, rfl, hg⟩ := h
  refine ⟨fun r => g (if IsDead next r then lostRecord r else r), ?_, ?_⟩
  · rw [retire, List.map_map]
    rfl
  · intro r hr
    have hmem : (if IsDead next r then lostRecord r else r) ∈ retire next records :=
      List.mem_map_of_mem hr
    by_cases hdead : IsDead next r
    · simp only [if_pos hdead] at hmem ⊢
      have hlost : g (lostRecord r) = lostRecord r := (hg _ hmem).2 fun hwalked =>
        not_isDead_lostRecord _ r hwalked.isDead
      exact ⟨fun _ => hlost, fun hnot => absurd (.here hnext hr hdead) hnot⟩
    · simp only [if_neg hdead] at hmem ⊢
      refine ⟨fun hwalked => (hg r hmem).1 ?_, fun hnot => (hg r hmem).2 fun hwalked => hnot ?_⟩
      · rcases walked_retire_of_walked next hwalked with h | h | h
        · exact absurd h hdead
        · exact absurd h (not_walked_of_not_isDead fun r hr hd => (mem_retire _ hr hd).2 hd)
        · exact h
      · exact .onward hnext (walked_of_walked_retire hwalked)

/-- The records that a walk can still retire. -/
def liveCount (records : List PendingRecord) : ℕ :=
  records.countP fun r => r.status ≠ .indexed ∧ r.status ≠ .failed

theorem liveCount_retire_le (next : String) (records : List PendingRecord) :
    liveCount (retire next records) ≤ liveCount records := by
  rw [liveCount, retire, List.countP_map]
  refine List.countP_mono_left fun r _ h => ?_
  by_cases hr : IsDead next r
  · exact decide_eq_true hr.2
  · rw [Function.comp_apply, if_neg hr] at h
    exact h

theorem liveCount_retire_lt {dead : PendingRecord} (hmem : dead ∈ records) (hdead : IsDead next dead) :
    liveCount (retire next records) < liveCount records := by
  obtain ⟨before, after, rfl⟩ := List.append_of_mem hmem
  have hbefore := liveCount_retire_le next before
  have hafter := liveCount_retire_le next after
  have hlost : ¬ ((lostRecord dead).status ≠ .indexed ∧ (lostRecord dead).status ≠ .failed) :=
    fun h => h.2 rfl
  have hone : liveCount (retire next (before ++ dead :: after)) =
      liveCount (retire next before) + liveCount (retire next after) := by
    rw [retire, List.map_append, List.map_cons, if_pos hdead, liveCount, List.countP_append,
      List.countP_cons_of_neg (by simpa using hlost)]
    rfl
  have htwo : liveCount (before ++ dead :: after) = liveCount before + (liveCount after + 1) := by
    rw [liveCount, List.countP_append, List.countP_cons_of_pos
      (p := fun r : PendingRecord => r.status ≠ .indexed ∧ r.status ≠ .failed) (decide_eq_true hdead.2)]
    rfl
  omega

theorem failSuperseded_empty (fuel : ℕ) (seen : List String) : failSuperseded fuel seen "" = pure () := by
  cases fuel with
  | zero => rfl
  | succ fuel => rw [failSuperseded, if_pos (.inl rfl)]

/-- **The walk fails what it reaches.** It needs no more steps than there are records to retire. -/
theorem failSuperseded_fails (fuel : ℕ) (seen : List String) (next : String) (ledger : Ledger)
    (hseen : ∀ n ∈ seen, ∀ r ∈ ledger.records, ¬ IsDead n r)
    (hfuel : liveCount ledger.records < fuel) :
    Triple (fun s => s = ledger) (failSuperseded fuel seen next)
      (fun _ s => FailsWalked ledger.records next s.records) fun _ => True := by
  induction fuel generalizing seen next ledger with
  | zero => exact absurd hfuel (Nat.not_lt_zero _)
  | succ fuel ih =>
    rw [failSuperseded]
    by_cases hstop : next = "" ∨ next ∈ seen
    · rw [if_pos hstop]
      refine triple_pure ?_
      rintro _ rfl
      refine failsWalked_self fun r hwalked => ?_
      rcases hstop with rfl | hmem
      · exact hwalked.next_ne rfl
      · exact not_walked_of_not_isDead (hseen next hmem) hwalked
    rw [if_neg hstop]
    have hnext : next ≠ "" := fun h => hstop (.inl h)
    refine triple_read_bind ?_
    rintro ledger rfl
    by_cases hnone : (ledger.records.filter fun r => IsDead next r) = []
    · -- Nothing of the hash is left to retire, and the walk ends.
      rw [hnone]
      refine Triple.bind (Q := fun _ s => s = ledger) (triple_pure fun s hs => hs) fun _ => ?_
      rw [show firstReplacement [] = "" from rfl, failSuperseded_empty]
      refine triple_pure ?_
      rintro _ rfl
      refine failsWalked_self fun r => not_walked_of_not_isDead fun r hr hdead => ?_
      exact List.filter_eq_nil_iff.mp hnone r hr (decide_eq_true hdead)
    · obtain ⟨dead, hdead⟩ := List.exists_mem_of_ne_nil _ hnone
      obtain ⟨hmem, hdead⟩ := List.mem_filter.mp hdead
      refine Triple.bind (triple_forM_write _ ledger) fun _ => ?_
      have hrecords := ledger.records_foldl_put (p := fun r => IsDead next r) (f := lostRecord) fun _ => rfl
      simp only [decide_eq_true_eq] at hrecords
      have hwalk := ih (next :: seen) (firstReplacement (ledger.records.filter fun r => IsDead next r))
        ((ledger.records.filter fun r => IsDead next r).foldl (fun l r => l.put (lostRecord r)) ledger)
        ?_ ?_
      · refine hwalk.post fun _ s hs => ?_
        rw [hrecords] at hs
        exact hs.of_retire hnext
      · rw [hrecords]
        intro n hn r hr hd
        obtain ⟨hr', hne⟩ := mem_retire next hr hd
        rcases List.mem_cons.mp hn with rfl | hn
        · exact hne hd
        · exact hseen n hn r hr' hd
      · rw [hrecords]
        have hlt := liveCount_retire_lt hmem (of_decide_eq_true hdead)
        exact Nat.lt_of_lt_of_le hlt (Nat.lt_succ_iff.mp hfuel)

theorem failSupersededReplacements_fails (ledger : Ledger) (confirmed : PendingRecord) :
    Triple (fun s => s = ledger) (failSupersededReplacements confirmed)
      (fun _ s => FailsWalked ledger.records confirmed.replacement s.records) fun _ => True := by
  refine triple_read_bind ?_
  rintro ledger rfl
  have hcount : liveCount ledger.records < ledger.records.length + 1 :=
    Nat.lt_succ_of_le List.countP_le_length
  exact failSuperseded_fails _ [] _ ledger (by simp) hcount

end XchainWallet.PendingLedger
