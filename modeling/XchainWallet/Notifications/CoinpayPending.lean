import Mathlib.Data.List.Infix
import XchainWallet.Js.Text
import XchainWallet.Queue.Settlement

/-!
# Pending CoinPay payments

The defence of a wallet against paying one match twice: a pending transaction that references
the match, and whose status says that a payment may be in flight, counts as an attempt. A
reference is the structured parameter of the action, or a label in its summary. The label that
auto-pay writes is one that the check finds again.
-/

namespace XchainWallet

/-- A `PendingTx` with the fields that tell which match it pays. `orderMatch` is what
`params.ORDER_MATCH_ACTION_INDEX` shows, where the record has it. -/
structure ActionTx extends PendingTx where
  action : String
  orderMatch : Option String := none
deriving DecidableEq, Repr

/-- `ATTEMPTED_STATUSES`. -/
def attemptedStatuses : List TxStatus := [.signed, .queued, .broadcasting, .broadcast, .indexed]

/-- `/^\d+$/`. -/
def isIndex (text : String) : Bool := text ≠ "" ∧ text.toList.all Char.isDigit

/-- `/<label><idx>(?!\d)/`: the label and the index stand in the text with no further digit. -/
def labelled (label idx text : List Char) : Bool :=
  text.tails.any fun rest =>
    (label ++ idx).isPrefixOf rest ∧
      (rest.drop (label ++ idx).length).head?.all fun c => !c.isDigit

/-- `pendingTxReferencesMatch(tx, matchIndex)`. -/
def pendingTxReferencesMatch (tx : ActionTx) (matchIndex : String) : Bool :=
  tx.action = "COINPAY" ∧ isIndex matchIndex ∧
    (tx.orderMatch = some matchIndex ∨
      labelled "ORDER_MATCH #".toList matchIndex.toList tx.actionSummary.toList ∨
      labelled "match #".toList matchIndex.toList tx.actionSummary.toList)

/-- `hasAttemptedCoinpay(pendingTxs, matchIndex)`. -/
def hasAttemptedCoinpay (pendingTxs : List ActionTx) (matchIndex : String) : Bool :=
  pendingTxs.any fun tx =>
    tx.status ∈ attemptedStatuses ∧ pendingTxReferencesMatch tx matchIndex

/-- The summary that auto-pay gives its payments. -/
def autoPaidSummary (matchIndex orderActionIndex : String) : String :=
  "Auto-paid match #" ++ matchIndex ++ " for order #" ++ orderActionIndex

theorem labelled_of_append {label idx before rest : List Char}
    (hrest : rest.head?.all fun c => !c.isDigit) :
    labelled label idx (before ++ (label ++ idx ++ rest)) := by
  rw [labelled, List.any_eq_true]
  refine ⟨label ++ idx ++ rest, (List.mem_tails _ _).mpr (List.suffix_append _ _), ?_⟩
  have hstarts : (label ++ idx).isPrefixOf (label ++ idx ++ rest) :=
    List.isPrefixOf_iff_prefix.mpr (List.prefix_append _ _)
  simp only [hstarts, List.drop_left, hrest, and_self, decide_true]

private theorem toList_autoPaidSummary (matchIndex orderActionIndex : String) :
    (autoPaidSummary matchIndex orderActionIndex).toList = "Auto-paid ".toList ++
      ("match #".toList ++ matchIndex.toList ++
        ' ' :: ("for order #".toList ++ orderActionIndex.toList)) := by
  have hhead : "Auto-paid match #".toList = "Auto-paid ".toList ++ "match #".toList := by
    decide
  have hspace : " for order #".toList = ' ' :: "for order #".toList := by decide
  unfold autoPaidSummary
  rw [String.toList_append, String.toList_append, String.toList_append, hhead, hspace]
  -- as literals the words would be compared letter by letter
  generalize "Auto-paid ".toList = auto
  generalize "match #".toList = label
  generalize "for order #".toList = order
  simp only [List.append_assoc, List.cons_append]

/-- **The label is found again.** A payment that auto-pay has summed up references its match. -/
theorem references_autoPaidSummary {tx : ActionTx} {matchIndex orderActionIndex : String}
    (haction : tx.action = "COINPAY") (hindex : isIndex matchIndex)
    (hsummary : tx.actionSummary = autoPaidSummary matchIndex orderActionIndex) :
    pendingTxReferencesMatch tx matchIndex := by
  have hlabel : labelled "match #".toList matchIndex.toList tx.actionSummary.toList := by
    rw [hsummary, toList_autoPaidSummary]
    exact labelled_of_append rfl
  rw [pendingTxReferencesMatch, decide_eq_true_eq]
  exact ⟨haction, hindex, .inr (.inr hlabel)⟩

end XchainWallet
