import XchainWallet.Keyed.List
import XchainWallet.Market.AutopayPolicy
import XchainWallet.Notifications.CoinpayPending

/-!
# The auto-pay watcher

`CoinpayAutopayWatcher` polls the obligations of the orders whose owner consented, applies the
policy to each, and pays. This module has its memory (the matches that it attempted, the holds
that it took, the matches that it saw terminal) and what handling one obligation row does to
it. What a row is handled with besides (the rows of its block, the tip, the clock, a signer, and
how reservation and payment end) are answers of the environment.

Notifications are left out: no payment, hold or mark depends on them.
-/

namespace XchainWallet

/-- An obligation row with the address that owes it. -/
structure CoinpayRow extends CoinpayObligation where
  payerAddress : String
deriving DecidableEq

/-- A hold of the reservation ledger that the watcher has taken for a match. -/
structure Hold where
  matchIndex : String
  reservationId : String
  chainId : String
deriving DecidableEq, Repr

/-- The memory of a watcher: `_attempted`, `_holds` and `_terminalMatches`. -/
structure Watcher where
  attempted : List String := []
  holds : List Hold := []
  terminalMatches : List String := []
deriving DecidableEq

/-- What one cycle works on: the consents that it listed, the pending transactions that it
listed, and whether it holds the lease. -/
structure PollCycle where
  consents : List AutopayOrder
  pendingTxs : List ActionTx
  isPayer : Bool
deriving DecidableEq

/-- What is read while a row is handled, up to the decision. -/
structure RowReads where
  blockRows : Option (List OrderMatchRow)
  tipHeight : JsNumber
  nowSeconds : ℚ
  signer : Bool
deriving DecidableEq

/-- An entry of the reservation ledger. -/
structure LedgerEntry where
  id : String
  chainId : String
deriving DecidableEq, Repr

/-- The id of the hold for a match. -/
def holdId (chainId matchIndex : String) : String := "autopay:" ++ chainId ++ ":" ++ matchIndex

/-- The match index of a ledger entry that auto-pay has made. -/
def LedgerEntry.matchIndex? (entry : LedgerEntry) : Option String :=
  let heading := holdId entry.chainId ""
  if heading.toList.isPrefixOf entry.id.toList then
    let matchIndex := String.ofList (entry.id.toList.drop heading.length)
    if matchIndex = "" then none else some matchIndex
  else none

/-! ### The decision on a row -/

/-- The match row of an obligation, among the rows of its block. -/
def matchRowOf (row : CoinpayObligation) (blockRows : Option (List OrderMatchRow)) :
    Option OrderMatchRow :=
  if (positive? row.blockIndex).isSome then
    blockRows.bind fun rows => rows.find? fun m => m.actionIndex = row.actionIndex
  else none

/-- The match row names the order as one of its two sides. -/
def OrderMatchRow.Names (matchRow : OrderMatchRow) (orderActionIndex : String) : Prop :=
  matchRow.giveActionIndex = some orderActionIndex ∨ matchRow.getActionIndex = some orderActionIndex

instance (matchRow : OrderMatchRow) (orderActionIndex : String) :
    Decidable (matchRow.Names orderActionIndex) :=
  inferInstanceAs (Decidable (_ ∨ _))

/-- The consent that an obligation is linked to: its order is a side of the match. -/
def linkedConsent (addrConsents : List AutopayOrder) (matchRow : Option OrderMatchRow) :
    Option AutopayOrder :=
  addrConsents.find? fun c => ∃ orderActionIndex ∈ c.orderActionIndex, ∃ m ∈ matchRow,
    m.Names orderActionIndex

/-- The consents of a chain and an address among those that the cycle listed. -/
def PollCycle.consentsFor (cycle : PollCycle) (chainId address : String) : List AutopayOrder :=
  cycle.consents.filter fun c => c.chainId = chainId ∧ c.sourceAddress = address

/-- What becomes of a row. -/
inductive RowVerdict
  | ignored
  | terminal
  | standsBy
  | refused (refusal : Refusal) (reason : Reason)
  | attempted
  | locked
  | unusableAmount
  | pays (consent : AutopayOrder) (amountBase : ℕ)
deriving DecidableEq

namespace Watcher

/-- `this._attempted.has(matchIndex) || pendingTxs.some(...)`. -/
def alreadyAttempted (w : Watcher) (pendingTxs : List ActionTx) (matchIndex : String) : Bool :=
  matchIndex ∈ w.attempted ∨ hasAttemptedCoinpay pendingTxs matchIndex

/-- `_handleObligation(...)`, up to the call of `_pay`, and the amount that `_pay` reads. A row
is handled for its payer's address. -/
def judge (w : Watcher) (cycle : PollCycle) (chainId : String) (row : CoinpayRow)
    (reads : RowReads) : RowVerdict :=
  let matchIndex := row.actionIndex
  if matchIndex = "" then .ignored
  else if row.coinpayStatus ≠ .text "pending_coinpay" then .terminal
  else
    let matchRow := matchRowOf row.toCoinpayObligation reads.blockRows
    match linkedConsent (cycle.consentsFor chainId row.payerAddress) matchRow with
    | none => .ignored
    | some consent =>
      let alreadyAttempted := w.alreadyAttempted cycle.pendingTxs matchIndex
      let decision := evaluateObligation
        { obligation := some row.toCoinpayObligation
          consent := some consent
          matchRow
          tipHeight := reads.tipHeight
          nowSeconds := reads.nowSeconds
          alreadyAttempted }
      if ¬cycle.isPayer then .standsBy
      else match decision with
        | .error (refusal, reason) => .refused refusal reason
        | .ok _ =>
          if alreadyAttempted then .attempted
          else if ¬reads.signer then .locked
          else match obligationBaseUnits row.coinAmount with
            | none => .unusableAmount
            | some amount => if amount = 0 then .unusableAmount else .pays consent amount

/-- What a row has gone through that is paid: the policy pays it under the consent, and the
amount is the one that the policy has read. -/
theorem judge_eq_pays {w : Watcher} {cycle : PollCycle} {chainId : String} {row : CoinpayRow}
    {reads : RowReads} {consent : AutopayOrder} {amountBase : ℕ}
    (h : w.judge cycle chainId row reads = .pays consent amountBase) :
    ∃ input payAmountBase, evaluateObligation input = .ok payAmountBase ∧
      input.obligation = some row.toCoinpayObligation ∧ input.consent = some consent ∧
      obligationBaseUnits row.coinAmount = some amountBase ∧ 0 < amountBase := by
  rw [judge] at h
  split at h
  · exact nomatch h
  · split at h
    · exact nomatch h
    · dsimp only at h
      split at h
      · exact nomatch h
      · split at h
        · exact nomatch h
        · split at h
          · exact nomatch h
          · next payAmountBase heval =>
            split at h
            · exact nomatch h
            · split at h
              · exact nomatch h
              · split at h
                · exact nomatch h
                · next amount hamount =>
                  split at h
                  · exact nomatch h
                  · next hpos =>
                    obtain ⟨rfl, rfl⟩ := RowVerdict.pays.inj h
                    exact ⟨_, payAmountBase, heval, rfl, rfl, hamount, Nat.pos_of_ne_zero hpos⟩

/-! ### What the memory goes through -/

/-- A row whose obligation is no longer pending marks its match. -/
def markTerminal (w : Watcher) (matchIndex : String) : Watcher :=
  { w with terminalMatches := w.terminalMatches.insert matchIndex }

/-- `_pay(...)`, up to the call of `coinpayAction`: the hold, where the ledger took it, and the
mark of the attempt. -/
def beginPayment (w : Watcher) (chainId matchIndex : String) (reserved : Bool) : Watcher :=
  let hold : Hold := ⟨matchIndex, holdId chainId matchIndex, chainId⟩
  { w with
    holds := if reserved then Keyed.upsert Hold.matchIndex hold w.holds else w.holds
    attempted := w.attempted.insert matchIndex }

/-- A payment has failed. One that did not reach the broadcast frees the attempt and the hold. -/
def failPayment (w : Watcher) (matchIndex : String) (broadcastReached : Bool) : Watcher :=
  if broadcastReached then w
  else { w with
    attempted := w.attempted.filter (· ≠ matchIndex)
    holds := Keyed.erase Hold.matchIndex matchIndex w.holds }

/-- The obligation of the match has left pending, or a payment of it is indexed. -/
def Settled (w : Watcher) (pendingTxs : List ActionTx) (matchIndex : String) : Prop :=
  matchIndex ∈ w.terminalMatches ∨
    pendingTxs.any fun tx => tx.status = .indexed ∧ pendingTxReferencesMatch tx matchIndex

instance (w : Watcher) (pendingTxs : List ActionTx) (matchIndex : String) :
    Decidable (w.Settled pendingTxs matchIndex) :=
  inferInstanceAs (Decidable (_ ∨ _))

/-- `_releaseTerminalHolds(pendingTxs)`. -/
def releaseTerminalHolds (w : Watcher) (pendingTxs : List ActionTx) : Watcher :=
  { w with
    terminalMatches := []
    holds := w.holds.filter fun hold => ¬w.Settled pendingTxs hold.matchIndex }

/-- One entry of `_restoreHolds()`. -/
def restoreHold (w : Watcher) (entry : LedgerEntry) : Watcher :=
  match entry.matchIndex? with
  | none => w
  | some matchIndex =>
    let hold : Hold := ⟨matchIndex, entry.id, entry.chainId⟩
    { w with holds := Keyed.upsert Hold.matchIndex hold w.holds }

/-- `_restoreHolds()` on the entries of the ledger. -/
def restoreHolds (w : Watcher) (entries : List LedgerEntry) : Watcher :=
  entries.foldl restoreHold w

end Watcher

end XchainWallet
