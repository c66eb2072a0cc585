import XchainWallet.Schemas.Collections

/-!
# Removing a wallet

`removeWallet` deletes a wallet's record and everything linked to it: its accounts, the addresses under
them and those of its imported keys, the grants of connected sites, its pending transactions and the
records of nine collections that name it. It reads what belongs to the wallet up front, deletes one
record at a time, and any of these writes may be refused; the call then throws with the earlier writes
done, and can be made again.

Which pending transactions belong to the wallet is read off its addresses, so a call that comes after
one that deleted an address and failed starts from less. Everything else is deleted before what it is
found by.
-/

namespace XchainWallet.RemoveWallet

open Traced Schemas PendingLedger

/-! ### The flow -/

inductive RemoveError
  | walletIdRequired
  | walletNotFound (walletId : String)
  | refused

/-- The message of an error of the flow itself; a refused write throws the store's own. -/
def RemoveError.message : RemoveError → Option String
  | walletIdRequired => some "removeWallet: walletId is required"
  | walletNotFound walletId => some ("unlockWallet: no wallet with id \"" ++ walletId ++ "\"")
  | refused => none

abbrev Removal (α : Type) := Traced (Flaky Collections) Empty RemoveError α

variable (v : Collections) (walletId : String)

def accountsOf : List Account := v.accounts.records.filter fun a => a.walletId = walletId

def accountIds : List String := (accountsOf v walletId).map (·.id)

def importedAddrIds (wallet : Wallet) : List String := wallet.importedKeys.map (·.addressId)

/-- `(addr.accountId && accountIds.has(addr.accountId)) || importedAddrIds.has(addr.id)`. -/
def isLinked (wallet : Wallet) (addr : Address) : Bool :=
  (nonEmpty addr.accountId).any (· ∈ accountIds v wallet.id) || decide (addr.id ∈ importedAddrIds wallet)

def addressesToDelete (wallet : Wallet) : List Address := v.addresses.records.filter (isLinked v wallet)

def grantedAccounts (site : ConnectedSite) : List String := site.accounts.getD []

/-- The site without the wallet's accounts. -/
def pruned (site : ConnectedSite) : ConnectedSite :=
  { site with accounts := some ((grantedAccounts site).filter (· ∉ accountIds v walletId)) }

def namesAccount (site : ConnectedSite) : Bool :=
  (grantedAccounts site).any (· ∈ accountIds v walletId)

/-- The sites that name an account of the wallet and others, without the former. -/
def connectedSiteUpdates : List ConnectedSite :=
  ((v.connectedSites.records.filter (namesAccount v walletId)).filter
    fun site => grantedAccounts (pruned v walletId site) ≠ []).map (pruned v walletId)

/-- The sites that name accounts of the wallet only. -/
def connectedSiteDeletes : List ConnectedSite :=
  (v.connectedSites.records.filter (namesAccount v walletId)).filter
    fun site => grantedAccounts (pruned v walletId site) = []

def pendingScopesToDelete (wallet : Wallet) : List Scope :=
  (addressesToDelete v wallet).map pendingScopeForAddress

def survivingPendingScopes (wallet : Wallet) : List Scope :=
  (v.addresses.records.filter fun addr => !isLinked v wallet addr).map pendingScopeForAddress

def pendingTxsToDelete (wallet : Wallet) : List PendingRecord :=
  v.pendingTxs.records.filter fun pending =>
    pendingScopeForPendingTx pending ∈ pendingScopesToDelete v wallet ∧
      pendingScopeForPendingTx pending ∉ survivingPendingScopes v wallet

/-- `findBy('walletId', walletId)`. -/
def recordsOf (collection : WalletCollection) : List WalletScoped :=
  (v.perWallet collection).records.filter fun r => r.walletId = walletId

variable {v walletId}

/-! ### The writes -/

def removeAddress (addr : Address) (v : Collections) : Collections :=
  { v with addresses := v.addresses.delete addr.id }

def putSite (site : ConnectedSite) (v : Collections) : Collections :=
  { v with connectedSites := v.connectedSites.put site }

def removeSite (site : ConnectedSite) (v : Collections) : Collections :=
  { v with connectedSites := v.connectedSites.delete site.id }

def removeAccount (account : Account) (v : Collections) : Collections :=
  { v with accounts := v.accounts.delete account.id }

def removePendingTx (pending : PendingRecord) (v : Collections) : Collections :=
  { v with pendingTxs := v.pendingTxs.delete pending.id }

def removeRecord (collection : WalletCollection) (r : WalletScoped) (v : Collections) : Collections :=
  { v with
    perWallet := Function.update v.perWallet collection ((v.perWallet collection).delete r.id) }

def removeWalletRecord (walletId : String) (v : Collections) : Collections :=
  { v with wallets := v.wallets.delete walletId }

/-- `deleteRecords`, and `putSite` one after the other: a loop of writes. -/
def writeEach {γ : Type} (f : γ → Collections → Collections) (records : List γ) : Removal Unit :=
  records.forM fun r => write .refused (f r)

/-- How many records of each kind were deleted. -/
structure Removed where
  accounts : ℕ
  addresses : ℕ
  pendingTxs : ℕ
  perWallet : WalletCollection → ℕ
  connectedSiteGrants : ℕ

/-- The wallet's own record, found. -/
def requireWallet (v : Collections) (walletId : String) : Removal Wallet :=
  match v.wallets.get walletId with
  | some wallet => pure wallet
  | none => throw (.walletNotFound walletId)

/-- The collections whose records go after the pending transactions, in this order. -/
def laterCollections : List WalletCollection :=
  [.pendingAirdrops, .pendingDeploys, .multisigSigningSessions, .coSignerAccounts, .watchlistEntries,
    .priceAlerts, .gatedKeys, .autopayOrders]

def removeRecordsOf (v : Collections) (walletId : String) (collection : WalletCollection) : Removal Unit :=
  writeEach (removeRecord collection) (recordsOf v walletId collection)

def removeFound (v : Collections) (wallet : Wallet) : Removal Removed := do
  writeEach removeAddress (addressesToDelete v wallet)
  writeEach putSite (connectedSiteUpdates v wallet.id)
  writeEach removeSite (connectedSiteDeletes v wallet.id)
  writeEach removeAccount (accountsOf v wallet.id)
  removeRecordsOf v wallet.id .signers
  writeEach removePendingTx (pendingTxsToDelete v wallet)
  laterCollections.forM (removeRecordsOf v wallet.id)
  write .refused (removeWalletRecord wallet.id)
  -- Agent accounts that were added while the wallet was being removed.
  let late ← read
  removeRecordsOf late wallet.id .coSignerAccounts
  pure
    { accounts := (accountsOf v wallet.id).length
      addresses := (addressesToDelete v wallet).length
      pendingTxs := (pendingTxsToDelete v wallet).length
      perWallet := fun collection =>
        (recordsOf v wallet.id collection).length +
          if collection = .coSignerAccounts then (recordsOf late wallet.id collection).length else 0
      connectedSiteGrants :=
        (connectedSiteUpdates v wallet.id).length + (connectedSiteDeletes v wallet.id).length }

def removeWallet (walletId : String) : Removal Removed :=
  if walletId = "" then throw .walletIdRequired
  else do
    let v ← read
    let wallet ← requireWallet v walletId
    removeFound v wallet

/-! ### What belongs to a wallet -/

/-- An address under an account of the wallet, or of one of its imported keys. -/
def OwnsAddress (v : Collections) (walletId : String) (addr : Address) : Prop :=
  (∃ account ∈ v.accounts.records, account.walletId = walletId ∧ nonEmpty addr.accountId = some account.id) ∨
    ∃ wallet ∈ v.wallets.records, wallet.id = walletId ∧ addr.id ∈ importedAddrIds wallet

/-- A pending transaction from an address of the wallet that no other wallet has. -/
def OwnsPendingTx (v : Collections) (walletId : String) (pending : PendingRecord) : Prop :=
  (∃ addr ∈ v.addresses.records, OwnsAddress v walletId addr ∧
      pendingScopeForAddress addr = pendingScopeForPendingTx pending) ∧
    ∀ addr ∈ v.addresses.records, pendingScopeForAddress addr = pendingScopeForPendingTx pending →
      OwnsAddress v walletId addr

/-- The grant names an account of the wallet. -/
def Names (v : Collections) (walletId : String) (site : ConnectedSite) : Prop :=
  ∃ account ∈ v.accounts.records, account.walletId = walletId ∧ account.id ∈ grantedAccounts site

theorem mem_accountIds {id : String} :
    id ∈ accountIds v walletId ↔ ∃ account ∈ v.accounts.records, account.walletId = walletId ∧ account.id = id := by
  simp only [accountIds, accountsOf, List.mem_map, List.mem_filter, decide_eq_true_eq, and_assoc]

theorem isLinked_iff {wallet : Wallet} (hwallet : wallet ∈ v.wallets.records) {addr : Address} :
    isLinked v wallet addr = true ↔ OwnsAddress v wallet.id addr := by
  have himported : addr.id ∈ importedAddrIds wallet ↔
      ∃ w ∈ v.wallets.records, w.id = wallet.id ∧ addr.id ∈ importedAddrIds w := by
    constructor
    · exact fun h => ⟨wallet, hwallet, rfl, h⟩
    · rintro ⟨w, hw, hid, h⟩
      rwa [v.wallets.eq_of_key_eq hw hwallet hid] at h
  have hunder : (nonEmpty addr.accountId).any (· ∈ accountIds v wallet.id) = true ↔
      ∃ account ∈ v.accounts.records, account.walletId = wallet.id ∧
        nonEmpty addr.accountId = some account.id := by
    rw [Option.any_eq_true_iff_get]
    constructor
    · rintro ⟨hsome, hmem⟩
      obtain ⟨account, haccount, hwalletId, hid⟩ := mem_accountIds.mp (of_decide_eq_true hmem)
      exact ⟨account, haccount, hwalletId, by rw [hid, Option.some_get]⟩
    · rintro ⟨account, haccount, hwalletId, hid⟩
      refine ⟨by rw [hid]; rfl, decide_eq_true (mem_accountIds.mpr ⟨account, haccount, hwalletId, ?_⟩)⟩
      simp only [hid, Option.get_some]
  rw [isLinked, Bool.or_eq_true, hunder, decide_eq_true_iff, himported, OwnsAddress]

theorem namesAccount_iff {site : ConnectedSite} :
    namesAccount v walletId site = true ↔ Names v walletId site := by
  simp only [namesAccount, List.any_eq_true, decide_eq_true_eq, mem_accountIds, Names]
  constructor
  · rintro ⟨_, hgranted, account, haccount, hwalletId, rfl⟩
    exact ⟨account, haccount, hwalletId, hgranted⟩
  · rintro ⟨account, haccount, hwalletId, hgranted⟩
    exact ⟨_, hgranted, account, haccount, hwalletId, rfl⟩

theorem mem_pendingTxsToDelete {wallet : Wallet} (hwallet : wallet ∈ v.wallets.records)
    {pending : PendingRecord} :
    pending ∈ pendingTxsToDelete v wallet ↔
      pending ∈ v.pendingTxs.records ∧ OwnsPendingTx v wallet.id pending := by
  simp only [pendingTxsToDelete, pendingScopesToDelete, survivingPendingScopes, addressesToDelete,
    List.mem_filter, List.mem_map, decide_eq_true_eq, OwnsPendingTx, Bool.not_eq_true',
    ← isLinked_iff hwallet, and_assoc, not_exists, not_and]
  refine and_congr_right fun _ => and_congr Iff.rfl ?_
  refine forall₂_congr fun addr _ => ⟨fun h hscope => ?_, fun h hlinked hscope => ?_⟩
  · by_contra hlinked
    exact h (Bool.not_eq_true _ ▸ hlinked) hscope
  · exact Bool.false_ne_true (hlinked.symm.trans (h hscope))

end XchainWallet.RemoveWallet
