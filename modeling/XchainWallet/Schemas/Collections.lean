import XchainWallet.Json.Value
import XchainWallet.Ledger.PendingRecord

/-!
# The collections of the vault

The records that the flows over whole wallets read and write. A record has its own identity, the fields
that refer to other records and those that a flow reads; the rest of it is `body`, which no flow looks
at and none may lose.

The collections whose records only name the wallet that they belong to are one family, indexed by
`WalletCollection`.
-/

namespace XchainWallet.Schemas

open PendingLedger

structure ImportedKey where
  addressId : String
  encryptedWif : String
deriving DecidableEq

structure KdfParams where
  salt : String
  iterations : ℕ
  memory : ℕ
  parallelism : ℕ
deriving DecidableEq

structure Wallet where
  id : String
  encryptedSeed : String
  encryptedPassphrase : Option String
  kdfParams : KdfParams
  importedKeys : List ImportedKey
  body : Json.Value

/-- `activeAddressByChainId` maps a chain to the id of an address. -/
structure Account where
  id : String
  walletId : String
  activeAddressByChainId : List (String × String)
  body : Json.Value

structure Address where
  id : String
  accountId : Option String
  signerId : Option String
  chain : String
  network : String
  address : String
  body : Json.Value

/-- `accounts` are those of the site's permissions, `none` where that is no array. -/
structure ConnectedSite where
  id : String
  origin : String
  accounts : Option (List String)
  body : Json.Value

structure Contact where
  id : String
  body : Json.Value

/-- The collections whose records name their wallet. -/
inductive WalletCollection
  | signers
  | pendingAirdrops
  | pendingDeploys
  | multisigSigningSessions
  | coSignerAccounts
  | watchlistEntries
  | priceAlerts
  | gatedKeys
  | autopayOrders
deriving DecidableEq

/-- A record of one of these collections. -/
structure WalletScoped where
  id : String
  walletId : String
  body : Json.Value

/-- What the vault holds. -/
structure Collections where
  wallets : Keyed.Table Wallet.id
  accounts : Keyed.Table Account.id
  addresses : Keyed.Table Address.id
  contacts : Keyed.Table Contact.id
  connectedSites : Keyed.Table ConnectedSite.id
  pendingTxs : Ledger
  perWallet : WalletCollection → Keyed.Table WalletScoped.id
  settings : Option Json.Value

/-- `JSON.stringify([chain, network, address])`, which no two triples of texts share. -/
abbrev Scope := String × String × String

instance : LawfulBEq Scope := inferInstance

def pendingScopeForAddress (address : Address) : Scope := (address.chain, address.network, address.address)

def pendingScopeForPendingTx (pending : PendingRecord) : Scope :=
  (pending.chain, pending.network, pending.fromAddress)

end XchainWallet.Schemas
