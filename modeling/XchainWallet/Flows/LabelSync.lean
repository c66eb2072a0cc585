import XchainWallet.Keyed.List

/-!
# The label-sync payload

`buildLabelSyncPayload` collects the labelled addresses of a wallet and the contacts of its vault, and
`applyLabelSyncPayload` writes such a payload into a vault. Of the records the fields are kept that the
two read, write or match by; the encryption of the payload is left out. An application looks every
entry up in the lists as they were before the first write.
-/

namespace XchainWallet.LabelSync

/-! ### Records -/

structure Wallet where
  id : String
  importedKeys : List String

structure Account where
  id : String
  walletId : String
  name : String
  index : ℕ

structure Address where
  id : String
  accountId : Option String
  chain : String
  network : String
  address : String
  label : String
  deriving DecidableEq

structure ContactEntry where
  chain : String
  address : String
  label : String
  deriving DecidableEq

structure Contact where
  schemaVersion : ℕ
  id : String
  name : String
  notes : String
  entries : List ContactEntry
  avatarSeed : String
  createdAt : String
  updatedAt : String
  deriving DecidableEq

structure Vault where
  wallets : List Wallet
  accounts : List Account
  addresses : List Address
  contacts : List Contact

/-- What a vault checks of its records: every wallet has an id, and no two addresses and no two
contacts share one. -/
structure Vault.Stored (v : Vault) : Prop where
  wallets : ∀ wallet ∈ v.wallets, wallet.id ≠ ""
  addresses : Keyed.Distinct Address.id v.addresses
  contacts : Keyed.Distinct Contact.id v.contacts

/-! ### The payload -/

def LABEL_SYNC_PAYLOAD_VERSION : ℕ := 1

structure LabelEntry where
  id : String
  address : String
  label : String

structure PayloadEntry where
  chain : String
  address : String
  label : Option String

structure PayloadContact where
  id : Option String
  name : String
  notes : Option String
  entries : Option (List PayloadEntry)

structure LabelSyncBody where
  version : ℕ
  updatedAt : String
  labels : Option (List LabelEntry)
  contacts : Option (List PayloadContact)

/-- Whether an address is of an account of the wallet, or one of its imported keys. -/
def Vault.Owns (v : Vault) (wallet : Wallet) (a : Address) : Bool :=
  (v.accounts.any fun account => account.walletId = wallet.id ∧ a.accountId = some account.id) ||
    wallet.importedKeys.contains a.id

/-- The addresses of a wallet that have a label. -/
def Vault.labelled (v : Vault) (wallet : Wallet) : List Address :=
  v.addresses.filter fun a => v.Owns wallet a && a.label ≠ ""

def toPayloadContact (c : Contact) : PayloadContact :=
  ⟨some c.id, c.name, some c.notes,
    some (c.entries.map fun e => ⟨e.chain, e.address, some e.label⟩)⟩

def buildLabelSyncPayload (v : Vault) (walletId now : String) : Except String LabelSyncBody :=
  if walletId = "" then .error "buildLabelSyncPayload: walletId is required"
  else
    match Keyed.find Wallet.id walletId v.wallets with
    | none => .error ("unlockWallet: no wallet with id \"" ++ walletId ++ "\"")
    | some wallet => .ok
        { version := LABEL_SYNC_PAYLOAD_VERSION, updatedAt := now,
          labels := some ((v.labelled wallet).map fun a => ⟨a.id, a.address, a.label⟩),
          contacts := some (v.contacts.map toPayloadContact) }

/-! ### Applying a payload -/

inductive OnConflict where
  | overwrite
  | preserve
  deriving DecidableEq

structure ApplyLabelSyncResult where
  addressesUpdated : ℕ
  addressesSkipped : ℕ
  addressesMissing : ℕ
  contactsAdded : ℕ
  contactsUpdated : ℕ
  contactsSkipped : ℕ

/-- An application under way: the stored records and the counts. -/
structure Applied where
  addresses : List Address
  contacts : List Contact
  result : ApplyLabelSyncResult

/-- The record an entry names: by its id, else by its address string. The wallet, the chain and the
network have no part in it. -/
def labelMatch (allAddresses : List Address) (entry : LabelEntry) : Option Address :=
  (Keyed.find Address.id entry.id allAddresses).or
    (Keyed.find Address.address entry.address allAddresses)

/-- Whether an entry writes its label into the record `a`, which it names. -/
def Writes (onConflict : OnConflict) (entry : LabelEntry) (a : Address) : Bool :=
  !(a.label ≠ "" && onConflict = .preserve) && a.label ≠ entry.label

def applyLabel (allAddresses : List Address) (onConflict : OnConflict) (acc : Applied)
    (entry : LabelEntry) : Applied :=
  match labelMatch allAddresses entry with
  | none => { acc with
      result := { acc.result with addressesMissing := acc.result.addressesMissing + 1 } }
  | some a =>
    if Writes onConflict entry a then
      { acc with
        addresses := Keyed.upsert Address.id { a with label := entry.label } acc.addresses,
        result := { acc.result with addressesUpdated := acc.result.addressesUpdated + 1 } }
    else { acc with
      result := { acc.result with addressesSkipped := acc.result.addressesSkipped + 1 } }

/-- The entries that a contact of the payload brings. -/
def PayloadContact.toEntries (incoming : PayloadContact) : List ContactEntry :=
  (incoming.entries.getD []).map fun e => ⟨e.chain, e.address, e.label.getD ""⟩

/-- The new record of a contact that the vault does not have. -/
def PayloadContact.toContact (incoming : PayloadContact) (id now : String) : Contact :=
  { schemaVersion := 1, id := id, name := incoming.name, notes := incoming.notes.getD "",
    entries := incoming.toEntries,
    avatarSeed := ((incoming.entries.getD []).head?.map PayloadEntry.address).getD "",
    createdAt := now,
    updatedAt := now }

/-- A contact of the vault with what the payload says of it. -/
def PayloadContact.mergeInto (incoming : PayloadContact) (existing : Contact) (now : String) :
    Contact :=
  { existing with
    name := incoming.name,
    notes := incoming.notes.getD existing.notes,
    entries := incoming.toEntries,
    updatedAt := now }

def applyContact (allContacts : List Contact) (onConflict : OnConflict) (now : String)
    (acc : Applied) (incoming : PayloadContact) : Applied :=
  match incoming.id with
  | none => acc
  | some id =>
    match Keyed.find Contact.id id allContacts with
    | none => { acc with
        contacts := Keyed.upsert Contact.id (incoming.toContact id now) acc.contacts,
        result := { acc.result with contactsAdded := acc.result.contactsAdded + 1 } }
    | some existing =>
      if onConflict = .preserve then { acc with
        result := { acc.result with contactsSkipped := acc.result.contactsSkipped + 1 } }
      else { acc with
        contacts := Keyed.upsert Contact.id (incoming.mergeInto existing now) acc.contacts,
        result := { acc.result with contactsUpdated := acc.result.contactsUpdated + 1 } }

/-- The records after the two loops of an application. -/
def applied (v : Vault) (payload : LabelSyncBody) (onConflict : OnConflict) (now : String) : Applied :=
  (payload.contacts.getD []).foldl (applyContact v.contacts onConflict now)
    ((payload.labels.getD []).foldl (applyLabel v.addresses onConflict)
      ⟨v.addresses, v.contacts, ⟨0, 0, 0, 0, 0, 0⟩⟩)

def applyLabelSyncPayload (v : Vault) (walletId : String) (payload : LabelSyncBody)
    (onConflict : OnConflict) (now : String) : Except String (Vault × ApplyLabelSyncResult) :=
  if walletId = "" then .error "applyLabelSyncPayload: walletId is required"
  else if payload.version ≠ LABEL_SYNC_PAYLOAD_VERSION then
    .error ("applyLabelSyncPayload: unsupported payload version " ++ toString payload.version ++
      " (expected " ++ toString LABEL_SYNC_PAYLOAD_VERSION ++ ")")
  else
    let done := applied v payload onConflict now
    .ok ({ v with addresses := done.addresses, contacts := done.contacts }, done.result)

end XchainWallet.LabelSync
