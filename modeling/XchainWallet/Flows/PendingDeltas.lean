import Mathlib.Algebra.BigOperators.Pi
import Mathlib.Algebra.Order.BigOperators.Group.List
import XchainWallet.Decimal.Plain
import XchainWallet.Js.Text
import XchainWallet.Keyed.Firsts
import XchainWallet.Queue.Settlement

/-!
# Unconfirmed debits

`unconfirmedPendingDeltas` lists what the signed transactions of an address that no block carries
yet take off its balances. Of the records of one transaction only the first is netted, so the total
of a tick is independent of the order of the records exactly where those of one transaction debit
the same (`netsOnce_iff`). -/

namespace XchainWallet

/-! ### The records -/

/-- A leg of `balanceDebits`, or the single `tick` and `amount` of a record. -/
structure DebitLeg where
  tick : Option String
  amount : Option String
deriving DecidableEq

/-- A `PendingTx` with its debits. -/
structure PendingDebits extends PendingTx where
  tick : Option String := none
  amount : Option String := none
  balanceDebits : List DebitLeg := []
deriving DecidableEq

/-- The chain and the address whose balances are judged. -/
structure Venue where
  coin : String
  network : String
  source : String
deriving DecidableEq

/-- What is subtracted from a balance. -/
structure PendingDelta where
  tick : String
  amount : String
deriving DecidableEq

/-- `UNCONFIRMED_COMMITTED_STATUSES`. -/
def unconfirmedCommittedStatuses : List TxStatus := [.signed, .queued, .broadcasting, .broadcast]

/-- `isPositiveDecimalString(amount)`. -/
def isPositiveDecimalString (amount : String) : Bool :=
  let s := jsTrim amount.toList
  (Decimal.Plain.parse s).isSome ∧ s.any fun c => c ∈ "123456789".toList

/-- The delta of a leg that has a tick and a positive amount. -/
def DebitLeg.delta (leg : DebitLeg) : Option PendingDelta := do
  let tick ← nonEmpty leg.tick
  let amount ← nonEmpty leg.amount
  if isPositiveDecimalString amount then some ⟨tick, amount⟩ else none

namespace PendingDebits

/-- `p.txid.toLowerCase()`, where the record has a transaction. -/
def txidKey (p : PendingDebits) : Option String :=
  (nonEmpty p.txid).map fun txid => String.ofList (txid.toList.flatMap jsLower)

def deltas (p : PendingDebits) : List PendingDelta :=
  let legs := if p.balanceDebits = [] then [⟨p.tick, p.amount⟩] else p.balanceDebits
  legs.filterMap DebitLeg.delta

end PendingDebits

/-- The record is a signed spend of the source that no block carries yet. -/
def Venue.Covers (venue : Venue) (p : PendingDebits) : Prop :=
  p.fromAddress = venue.source ∧ p.chain = venue.coin ∧ p.network = venue.network ∧
    p.status ∈ unconfirmedCommittedStatuses

instance (venue : Venue) (p : PendingDebits) : Decidable (venue.Covers p) :=
  inferInstanceAs (Decidable (_ ∧ _ ∧ _ ∧ _))

/-- The records from one on, with the transactions seen before it. -/
def netFrom (venue : Venue) : Finset String → List PendingDebits → List PendingDelta
  | _, [] => []
  | seen, p :: rest =>
    if ¬venue.Covers p then netFrom venue seen rest
    else
      match p.txidKey with
      | none => p.deltas ++ netFrom venue seen rest
      | some txid =>
        if txid ∈ seen then netFrom venue seen rest
        else p.deltas ++ netFrom venue (insert txid seen) rest

def unconfirmedPendingDeltas (pendingTxs : List PendingDebits) (venue : Venue) :
    List PendingDelta :=
  if venue.source = "" then [] else netFrom venue ∅ pendingTxs

/-! ### Totals -/

/-- The number that an amount denotes. -/
def PendingDelta.value (delta : PendingDelta) : ℚ :=
  (Decimal.Plain.parse (jsTrim delta.amount.toList)).elim 0 Decimal.Plain.value

/-- What a list of deltas takes off the balance of a tick. -/
def netTotal (deltas : List PendingDelta) (tick : String) : ℚ :=
  ((deltas.filter (·.tick = tick)).map PendingDelta.value).sum

/-- What a record by itself takes off the balance of a tick. -/
def PendingDebits.debit (p : PendingDebits) (tick : String) : ℚ := netTotal p.deltas tick

/-- The records that are netted. -/
def netted (pendingTxs : List PendingDebits) (venue : Venue) : List PendingDebits :=
  if venue.source = "" then [] else pendingTxs.filter (venue.Covers ·)

/-- The records of one transaction debit the same. -/
def DebitsAgree (pendingTxs : List PendingDebits) (venue : Venue) : Prop :=
  ∀ p ∈ netted pendingTxs venue, ∀ q ∈ netted pendingTxs venue, ∀ txid,
    p.txidKey = some txid → q.txidKey = some txid → p.debit = q.debit

/-- **Each transaction is netted once**: in every order of the records the totals are the same; they
are what the records without a transaction debit and, once each, what the transactions debit; and
none is negative. -/
structure NetsOnce (pendingTxs : List PendingDebits) (venue : Venue) : Prop where
  anyOrder : ∀ pendingTxs', pendingTxs'.Perm pendingTxs → ∀ tick,
    netTotal (unconfirmedPendingDeltas pendingTxs' venue) tick =
      netTotal (unconfirmedPendingDeltas pendingTxs venue) tick
  once : ∃ debits : String → String → ℚ,
    (∀ p ∈ netted pendingTxs venue, ∀ txid, p.txidKey = some txid → p.debit = debits txid) ∧
      ∀ tick, netTotal (unconfirmedPendingDeltas pendingTxs venue) tick =
        (((netted pendingTxs venue).filter fun p => p.txidKey.isNone).map (·.debit tick)).sum +
          ∑ txid ∈ ((netted pendingTxs venue).filterMap PendingDebits.txidKey).toFinset,
            debits txid tick
  nonneg : ∀ tick, 0 ≤ netTotal (unconfirmedPendingDeltas pendingTxs venue) tick

theorem netTotal_append (deltas more : List PendingDelta) (tick : String) :
    netTotal (deltas ++ more) tick = netTotal deltas tick + netTotal more tick := by
  rw [netTotal, List.filter_append, List.map_append, List.sum_append]
  rfl

theorem PendingDelta.value_nonneg (delta : PendingDelta) : 0 ≤ delta.value := by
  rw [value]
  cases Decimal.Plain.parse (jsTrim delta.amount.toList) with
  | none => exact le_rfl
  | some p => exact p.value_nonneg

theorem netTotal_nonneg (deltas : List PendingDelta) (tick : String) :
    0 ≤ netTotal deltas tick := by
  refine List.sum_nonneg fun v hv => ?_
  obtain ⟨delta, -, rfl⟩ := List.mem_map.mp hv
  exact delta.value_nonneg

/-- The loop lists the deltas of the first record of each transaction. -/
theorem netFrom_eq (venue : Venue) (seen : Finset String) (pendingTxs : List PendingDebits) :
    netFrom venue seen pendingTxs =
      (Keyed.firsts PendingDebits.txidKey seen (pendingTxs.filter (venue.Covers ·))).flatMap
        PendingDebits.deltas := by
  induction pendingTxs generalizing seen with
  | nil => rfl
  | cons p rest ih =>
    by_cases hcovers : venue.Covers p
    · rw [netFrom, if_neg (not_not.mpr hcovers), List.filter_cons_of_pos (by simpa using hcovers)]
      cases hkey : p.txidKey with
      | none => rw [Keyed.firsts_cons_none hkey, List.flatMap_cons, ih]
      | some txid =>
        dsimp only
        split
        · next hseen => rw [Keyed.firsts_cons_seen hkey hseen, ih]
        · next hnew => rw [Keyed.firsts_cons_new hkey hnew, List.flatMap_cons, ih]
    · rw [netFrom, if_pos hcovers, List.filter_cons_of_neg (by simpa using hcovers), ih]

theorem unconfirmedPendingDeltas_eq (pendingTxs : List PendingDebits) (venue : Venue) :
    unconfirmedPendingDeltas pendingTxs venue =
      (Keyed.firsts PendingDebits.txidKey ∅ (netted pendingTxs venue)).flatMap
        PendingDebits.deltas := by
  rw [unconfirmedPendingDeltas, netted]
  split
  · rfl
  · exact netFrom_eq venue ∅ pendingTxs

theorem netTotal_flatMap (ps : List PendingDebits) :
    netTotal (ps.flatMap PendingDebits.deltas) = (ps.map PendingDebits.debit).sum := by
  funext tick
  induction ps with
  | nil => rfl
  | cons p ps ih =>
    rw [List.flatMap_cons, netTotal_append, ih, List.map_cons, List.sum_cons]
    rfl

/-- **The totals are sums of debits**, of the first record of each transaction. -/
theorem netTotal_unconfirmedPendingDeltas (pendingTxs : List PendingDebits) (venue : Venue) :
    netTotal (unconfirmedPendingDeltas pendingTxs venue) =
      ((Keyed.firsts PendingDebits.txidKey ∅ (netted pendingTxs venue)).map
        PendingDebits.debit).sum := by
  rw [unconfirmedPendingDeltas_eq, netTotal_flatMap]

theorem netted_perm {pendingTxs pendingTxs' : List PendingDebits} (venue : Venue)
    (h : pendingTxs'.Perm pendingTxs) :
    (netted pendingTxs' venue).Perm (netted pendingTxs venue) := by
  rw [netted, netted]
  split
  · exact .nil
  · exact h.filter _

/-- Every order of what is netted comes from one of the records. -/
theorem exists_netted {pendingTxs ps : List PendingDebits} {venue : Venue}
    (h : ps.Perm (netted pendingTxs venue)) :
    ∃ pendingTxs', pendingTxs'.Perm pendingTxs ∧ netted pendingTxs' venue = ps := by
  rw [netted] at h
  split at h
  · next hsource =>
    refine ⟨pendingTxs, .refl _, ?_⟩
    rw [netted, if_pos hsource, h.eq_nil]
  · next hsource =>
    refine ⟨ps ++ pendingTxs.filter fun p => !decide (venue.Covers p), ?_, ?_⟩
    · exact (h.append_right _).trans (List.filter_append_perm _ _)
    · have hcovers : ps.filter (venue.Covers ·) = ps :=
        List.filter_eq_self.mpr fun p hp => (List.mem_filter.mp (h.mem_iff.mp hp)).2
      rw [netted, if_neg hsource, List.filter_append, hcovers, List.filter_filter]
      simp

/-- **The totals depend on no order exactly where the records of one transaction debit the same.**
-/
theorem netsOnce_iff (pendingTxs : List PendingDebits) (venue : Venue) :
    NetsOnce pendingTxs venue ↔ DebitsAgree pendingTxs venue := by
  constructor
  · intro h
    refine Keyed.sum_firsts_perm_iff.mp fun ps hperm => ?_
    obtain ⟨pendingTxs', hperm', rfl⟩ := exists_netted hperm
    rw [← netTotal_unconfirmedPendingDeltas, ← netTotal_unconfirmedPendingDeltas]
    exact funext (h.anyOrder pendingTxs' hperm')
  · intro hagree
    refine ⟨fun pendingTxs' hperm tick => ?_, ?_, fun tick => netTotal_nonneg _ tick⟩
    · rw [netTotal_unconfirmedPendingDeltas, netTotal_unconfirmedPendingDeltas,
        Keyed.sum_firsts_perm (netted_perm venue hperm) hagree]
    · let debits : String → String → ℚ := fun txid =>
        ((netted pendingTxs venue).find? fun p => p.txidKey = some txid).elim 0 PendingDebits.debit
      have hdebits : ∀ p ∈ netted pendingTxs venue, ∀ txid, p.txidKey = some txid →
          p.debit = debits txid := by
        intro p hp txid hkey
        cases hfind : (netted pendingTxs venue).find? fun p => p.txidKey = some txid with
        | none => exact absurd hkey (by simpa using List.find?_eq_none.mp hfind p hp)
        | some q =>
          have hq : q.txidKey = some txid := by simpa using List.find?_some hfind
          simp only [debits, hfind, Option.elim_some]
          exact hagree p hp q (List.mem_of_find?_eq_some hfind) txid hkey hq
      refine ⟨debits, hdebits, fun tick => ?_⟩
      rw [netTotal_unconfirmedPendingDeltas, Keyed.sum_firsts ∅ hdebits, Finset.sdiff_empty,
        Pi.add_apply, Finset.sum_apply]
      congr 1
      rw [Pi.list_sum_apply, List.map_map]
      rfl

/-! ### A transaction with two records -/

private def spend : PendingDebits where
  id := "p"
  chain := "bitcoin"
  network := "mainnet"
  fromAddress := "source"
  actionSummary := ""
  createdAt := ""
  status := .broadcast
  txid := some "aa"
  balanceDebits := [⟨some "XCP", some "5"⟩]

/-- A record of the same transaction that has no debits. -/
private def bareSpend : PendingDebits := { spend with id := "q", balanceDebits := [] }

/-- A record without debits that comes first hides the debits of its transaction. -/
theorem not_netsOnce : ¬∀ pendingTxs venue, NetsOnce pendingTxs venue := by
  intro h
  have horder := (h [spend, bareSpend] ⟨"bitcoin", "mainnet", "source"⟩).anyOrder
    [bareSpend, spend] (.swap _ _ _) "XCP"
  exact absurd horder (by decide +kernel)

end XchainWallet
