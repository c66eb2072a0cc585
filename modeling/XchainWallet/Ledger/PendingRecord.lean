import XchainWallet.Js.Text
import XchainWallet.Keyed.Table
import XchainWallet.Queue.Settlement
import XchainWallet.Traced.Flaky

/-!
# The ledger of pending transactions

A record of the ledger is one transaction that the wallet built: where it is on its way, what it takes
from which address, and the transaction that replaced it, if its fee was bumped. Records are found by
their transaction hash, which the code compares trimmed and in lower case.

What a transaction still takes from a balance is read off the records that are committed and not yet in
a block, `UNCONFIRMED_COMMITTED_STATUSES`.
-/

namespace XchainWallet.PendingLedger

open Traced

/-- An outgoing amount of one leg. -/
structure BalanceDebit where
  tick : String
  amount : String
deriving DecidableEq

/-- A record of the vault's `pendingTxs`, with the fields that balances and confirmations read. -/
structure PendingRecord where
  id : String
  chain : String
  network : String
  fromAddress : String
  toAddress : Option String := none
  txHex : Option String := none
  txid : Option String := none
  status : TxStatus
  createdAt : String := ""
  broadcastAt : Option String := none
  confirmedAt : Option String := none
  rbfReplacement : Option String := none
  rbfReplacesPendingTxId : Option String := none
  error : Option String := none
  tick : Option String := none
  amount : Option String := none
  balanceDebits : List BalanceDebit := []
  nativeDebitSats : Option String := none
  mempoolSeenAt : Option String := none
  chainConfirmed : Bool := false
  confirmedBlockIndex : Option ℕ := none
deriving DecidableEq

/-- `String(v || '').trim().toLowerCase()`. -/
def lower (v : Option String) : String := lowerCase (String.ofList (jsTrim (v.getD "").toList))

/-- The hash that a record is found by. -/
def PendingRecord.hash (r : PendingRecord) : String := lower r.txid

/-- The hash of the transaction that replaced this one. -/
def PendingRecord.replacement (r : PendingRecord) : String := lower r.rbfReplacement

/-- The statuses of a spend that is committed and that no balance reflects. -/
def UNCONFIRMED_COMMITTED_STATUSES : List TxStatus := [.signed, .queued, .broadcasting, .broadcast]

/-! ### The store -/

/-- The stored records, no two of them under one id. -/
abbrev Ledger := Keyed.Table PendingRecord.id

/-- The store refused a write. -/
inductive WriteRefused
  | refused

/-- A program over the ledger. -/
abbrev Writes (α : Type) := Traced (Flaky Ledger) Empty WriteRefused α

def put (r : PendingRecord) : Writes Unit := write .refused fun (ledger : Ledger) => ledger.put r

end XchainWallet.PendingLedger
