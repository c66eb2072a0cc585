import XchainWallet.Checks.Refuse
import XchainWallet.Flows.RemoveWallet

/-!
# Backup files

`exportBackupFile` takes a wallet with its accounts, addresses and pending transactions, the grants of its
accounts and the contacts and settings. `importBackupFile` opens a file, migrates and checks every record
of it, re-seals the wallet's secrets under the password of this device, gives the records new ids where
the wallet is added to others, and stores all of them in one write.

The file's own encryption and the migrations and validators of the records are parameters, and so are
the random ids, nonces and salts.
-/

namespace XchainWallet.BackupFile

open Traced Schemas PendingLedger

/-- What a backup file holds of a wallet. -/
structure Payload where
  wallet : Wallet
  accounts : List Account
  addresses : List Address
  contacts : List Contact
  connectedSites : List ConnectedSite
  settings : Option Json.Value
  pendingTxs : List PendingRecord

/-- The names that the collections have in messages and counts. -/
inductive Name
  | wallets
  | accounts
  | addresses
  | contacts
  | connectedSites
  | pendingTxs
  | settings
deriving DecidableEq

def Name.text : Name → String
  | wallets => "wallets"
  | accounts => "accounts"
  | addresses => "addresses"
  | contacts => "contacts"
  | connectedSites => "connectedSites"
  | pendingTxs => "pendingTxs"
  | settings => "settings"

inductive ImportError
  | passwordRequired
  | unreadable (message : String)
  | missingWallet
  | noId (name : Name) (index : ℕ)
  | migration (message : String)
  | foreignAccount (id : String)
  | foreignAddress (id : String)
  | invalidPayload (name : Name) (index : ℕ) (errors : List String)
  | walletPasswordRequired
  | devicePasswordRequired
  | key (message : String)
  | seedPassword (what : String)
  | sealDamaged (what : String)
  | conflict (conflicts : List String)
  | invalidRecord (name : Name) (errors : List String)
  | refused

/-- The message of an error of the flow or of the vault's validation. -/
def ImportError.message : ImportError → Option String
  | passwordRequired => some "importBackupFile: password is required"
  | missingWallet => some "importBackupFile: payload missing wallet record"
  | noId name index =>
    some ("importBackupFile: payload " ++ name.text ++ "[" ++ toString index ++ "] has no id")
  | foreignAccount id => some ("importBackupFile: account \"" ++ id ++ "\" belongs to another wallet")
  | foreignAddress id => some ("importBackupFile: address \"" ++ id ++ "\" belongs to another wallet")
  | invalidPayload name index errors =>
    some ("importBackupFile: payload " ++ name.text ++ "[" ++ toString index ++ "] is invalid (" ++
      "; ".intercalate errors ++ ")")
  | conflict conflicts =>
    some ("importBackupFile: refusing to overwrite " ++ toString conflicts.length ++
      " existing record(s): " ++ ", ".intercalate (conflicts.take 5))
  | invalidRecord name errors =>
    some ("Vault: invalid " ++ name.text ++ " record: " ++ "; ".intercalate errors)
  | unreadable message | migration message | key message => some message
  | _ => none

/-! ### The export -/

/-- The site with the grants of the wallet's accounts; one without any grant names no account, and is
kept whole. -/
def scopeSite (accountIds : List String) (site : ConnectedSite) : List ConnectedSite :=
  match site.accounts with
  | none => [site]
  | some [] => [site]
  | some granted =>
    if granted.filter (· ∈ accountIds) = [] then []
    else [{ site with accounts := some (granted.filter (· ∈ accountIds)) }]

def exportBackupFile (v : Collections) (wallet : Wallet) (includePendingTxs : Bool) : Payload :=
  { wallet := wallet
    accounts := RemoveWallet.accountsOf v wallet.id
    addresses := v.addresses.records.filter (RemoveWallet.isLinked v wallet)
    contacts := v.contacts.records
    connectedSites :=
      v.connectedSites.records.flatMap (scopeSite (RemoveWallet.accountIds v wallet.id))
    settings := v.settings
    pendingTxs :=
      if includePendingTxs then
        v.pendingTxs.records.filter fun pending => pendingScopeForPendingTx pending ∈
          (v.addresses.records.filter (RemoveWallet.isLinked v wallet)).map pendingScopeForAddress
      else [] }

/-! ### Checking the records -/

/-- The migrations to the current version and the validators, which give the errors of a record. -/
structure Schema where
  migrateWallet : Wallet → Except String Wallet
  migrateAccount : Account → Except String Account
  migrateAddress : Address → Except String Address
  migrateContact : Contact → Except String Contact
  migrateConnectedSite : ConnectedSite → Except String ConnectedSite
  migratePendingTx : PendingRecord → Except String PendingRecord
  migrateSettings : Json.Value → Except String Json.Value
  validateWallet : Wallet → List String
  validateAccount : Account → List String
  validateAddress : Address → List String
  validateContact : Contact → List String
  validateConnectedSite : ConnectedSite → List String
  validatePendingTx : PendingRecord → List String
  validateSettings : Json.Value → List String

abbrev Step (α : Type) := Except ImportError α

def migratePayloadRecords {α : Type} (name : Name) (key : α → String)
    (migrateRecord : α → Except String α) (records : List α) : Step (List α) :=
  records.zipIdx.mapM fun record =>
    if key record.1 = "" then .error (.noId name record.2)
    else (migrateRecord record.1).mapError .migration

def assertRecordsValid {α : Type} (name : Name) (records : List α) (validate : α → List String) :
    Step Unit :=
  match records.zipIdx.find? fun record => validate record.1 ≠ [] with
  | some record => .error (.invalidPayload name record.2 (validate record.1))
  | none => .ok ()

/-- An account of the payload is of its wallet. -/
def checkAccounts (wallet : Wallet) (accounts : List Account) : Step Unit :=
  match accounts.find? fun account => account.walletId ≠ wallet.id with
  | some account => .error (.foreignAccount account.id)
  | none => .ok ()

/-- An address of the payload is under one of its accounts or of one of its imported keys. -/
def belongs (wallet : Wallet) (accounts : List Account) (address : Address) : Bool :=
  address.accountId.any (· ∈ accounts.map (·.id)) ||
    decide (address.id ∈ (RemoveWallet.importedAddrIds wallet).filter (· ≠ ""))

def checkAddresses (wallet : Wallet) (accounts : List Account) (addresses : List Address) : Step Unit :=
  match addresses.find? fun address => ! belongs wallet accounts address with
  | some address => .error (.foreignAddress address.id)
  | none => .ok ()

def migrateSettingsOf (schema : Schema) : Option Json.Value → Step (Option Json.Value)
  | none => .ok none
  | some settings => ((schema.migrateSettings settings).mapError .migration).map some

/-- Every record migrated and checked, before the first write. A pending transaction whose address is
not in the payload is dropped. -/
def prepareDecodedPayload (schema : Schema) (decoded : Payload) : Step Payload := do
  let wallet ← (schema.migrateWallet decoded.wallet).mapError .migration
  let accounts ← migratePayloadRecords .accounts Account.id schema.migrateAccount decoded.accounts
  let addresses ← migratePayloadRecords .addresses Address.id schema.migrateAddress decoded.addresses
  let contacts ← migratePayloadRecords .contacts Contact.id schema.migrateContact decoded.contacts
  let sites ← migratePayloadRecords .connectedSites ConnectedSite.id schema.migrateConnectedSite
    decoded.connectedSites
  let pendings ← migratePayloadRecords .pendingTxs PendingRecord.id schema.migratePendingTx
    decoded.pendingTxs
  let settings ← migrateSettingsOf schema decoded.settings
  checkAccounts wallet accounts
  checkAddresses wallet accounts addresses
  let pendingTxs := pendings.filter fun pending =>
    pendingScopeForPendingTx pending ∈ addresses.map pendingScopeForAddress
  let connectedSites := sites.flatMap (scopeSite (accounts.map (·.id)))
  assertRecordsValid .accounts accounts schema.validateAccount
  assertRecordsValid .addresses addresses schema.validateAddress
  assertRecordsValid .contacts contacts schema.validateContact
  assertRecordsValid .connectedSites connectedSites schema.validateConnectedSite
  assertRecordsValid .pendingTxs pendingTxs schema.validatePendingTx
  assertRecordsValid .settings settings.toList schema.validateSettings
  pure { wallet, accounts, addresses, contacts, connectedSites, settings, pendingTxs }

/-! ### Re-sealing -/

/-- Why a seal did not open: the key does not fit, or it is no seal. -/
inductive OpenFault
  | wrongKey
  | damaged

/-- Key derivation and sealing. `encrypt n` is the `n`-th seal, with its own nonce; the texts are the
Base64 of what the ciphers take and give. -/
structure Crypto (κ β : Type) where
  derive : String → Schemas.KdfParams → Except String κ
  decrypt : κ → String → Option String → Except OpenFault β
  encrypt : ℕ → κ → β → Option String → String
  freshSalt : String

variable {κ β : Type}

def PASSPHRASE_AAD : String := "xchain-wallet:bip39-passphrase:v1"

def KDF_MIN_ITERATIONS : ℕ := 3

def KDF_MIN_MEMORY_KIB : ℕ := 64 * 1024

/-- What is sealed in a wallet's record. -/
structure Secrets (β : Type) where
  seed : Option β
  wifs : List (Option β)
  passphrase : Option β

/-- What the seal holds, `none` where there is no seal. -/
def openSeal (crypto : Crypto κ β) (key : κ) (what : String) (aad : Option String) (text : String) :
    Step (Option β) :=
  if text = "" then .ok none
  else
    match crypto.decrypt key text aad with
    | .ok plain => .ok (some plain)
    | .error .wrongKey => .error (.seedPassword what)
    | .error .damaged => .error (.sealDamaged what)

def openSecrets (crypto : Crypto κ β) (key : κ) (wallet : Wallet) : Step (Secrets β) := do
  let seed ← openSeal crypto key "seed" none wallet.encryptedSeed
  let wifs ← wallet.importedKeys.mapM fun k => openSeal crypto key "imported key" none k.encryptedWif
  let passphrase ← openSeal crypto key "passphrase" (some PASSPHRASE_AAD)
    (wallet.encryptedPassphrase.getD "")
  pure { seed, wifs, passphrase }

/-- The `n`-th seal, where there was one. -/
def resealText (crypto : Crypto κ β) (n : ℕ) (key : κ) (aad : Option String) (text : String) :
    Option β → String
  | none => text
  | some plain => crypto.encrypt n key plain aad

def resealKeys (crypto : Crypto κ β) (key : κ) : ℕ → List ImportedKey → List (Option β) → List ImportedKey
  | n, k :: keys, wif :: wifs =>
    { k with encryptedWif := resealText crypto n key none k.encryptedWif wif } ::
      resealKeys crypto key (n + 1) keys wifs
  | _, keys, _ => keys

def reseal (crypto : Crypto κ β) (key : κ) (params : Schemas.KdfParams) (secrets : Secrets β) (wallet : Wallet) :
    Wallet :=
  { wallet with
    encryptedSeed := resealText crypto 0 key none wallet.encryptedSeed secrets.seed
    importedKeys := resealKeys crypto key 1 wallet.importedKeys secrets.wifs
    encryptedPassphrase := wallet.encryptedPassphrase.map fun text =>
      resealText crypto (1 + wallet.importedKeys.length) key (some PASSPHRASE_AAD) text secrets.passphrase
    kdfParams := params }

def hasKeyMaterial (wallet : Wallet) : Bool :=
  wallet.encryptedSeed ≠ "" || wallet.importedKeys.any (·.encryptedWif ≠ "") ||
    wallet.encryptedPassphrase.getD "" ≠ ""

/-- A fresh salt and the cost of the old seal, at least the floor. -/
def nextParams (crypto : Crypto κ β) (params : Schemas.KdfParams) : Schemas.KdfParams :=
  { salt := crypto.freshSalt
    iterations := max params.iterations KDF_MIN_ITERATIONS
    memory := max params.memory KDF_MIN_MEMORY_KIB
    parallelism := params.parallelism }

/-- The wallet under the device's password, and whether anything was sealed in it. `onDeviceKey` is lent
the new key. -/
def rekeyWalletRecord (crypto : Crypto κ β) (onDeviceKey : κ → Schemas.KdfParams → Except String Unit)
    (walletPassword devicePassword : String) (wallet : Wallet) : Step (Wallet × Bool) :=
  if hasKeyMaterial wallet then do
    Checks.refuseIf (walletPassword = "") .walletPasswordRequired
    Checks.refuseIf (devicePassword = "") .devicePasswordRequired
    let oldKey ← (crypto.derive walletPassword wallet.kdfParams).mapError .key
    let secrets ← openSecrets crypto oldKey wallet
    let newKey ← (crypto.derive devicePassword (nextParams crypto wallet.kdfParams)).mapError .key
    (onDeviceKey newKey (nextParams crypto wallet.kdfParams)).mapError .key
    pure (reseal crypto newKey (nextParams crypto wallet.kdfParams) secrets wallet, true)
  else .ok (wallet, false)

/-! ### New ids -/

/-- Old ids and the new ones, the `n`-th random id and those after it. -/
def minted (newId : ℕ → String) (n : ℕ) (ids : List String) : List (String × String) :=
  ids.zipIdx.map fun id => (id.1, newId (n + id.2))

/-- `map.get(id) ?? id`, where a later pair has replaced an earlier one. -/
def renamed (pairs : List (String × String)) (id : String) : String :=
  (pairs.reverse.lookup id).getD id

def walletIdMap (newId : ℕ → String) (p : Payload) : List (String × String) :=
  minted newId 0 [p.wallet.id]

def accountIdMap (newId : ℕ → String) (p : Payload) : List (String × String) :=
  minted newId 1 (p.accounts.map (·.id))

def addressIdMap (newId : ℕ → String) (p : Payload) : List (String × String) :=
  minted newId (1 + p.accounts.length) (p.addresses.map (·.id))

def remintIdentifiers (newId : ℕ → String) (p : Payload) : Payload :=
  { p with
    wallet :=
      { p.wallet with
        id := newId 0
        importedKeys := p.wallet.importedKeys.map fun k =>
          { k with addressId := renamed (addressIdMap newId p) k.addressId } }
    accounts := p.accounts.mapIdx fun i a =>
      { a with id := newId (1 + i), walletId := renamed (walletIdMap newId p) a.walletId }
    addresses := p.addresses.mapIdx fun i a =>
      { a with
        id := newId (1 + p.accounts.length + i)
        accountId := a.accountId.map (renamed (accountIdMap newId p)) }
    connectedSites := p.connectedSites.map fun site =>
      { site with accounts := site.accounts.map (List.map (renamed (accountIdMap newId p))) }
    pendingTxs := p.pendingTxs.mapIdx fun i pending =>
      { pending with id := newId (1 + p.accounts.length + p.addresses.length + i) } }

/-! ### The import -/

inductive OnConflict
  | overwrite
  | preserve
  | error
deriving DecidableEq

inductive Mode
  | fresh
  | add
deriving DecidableEq

/-- A record to be written, in the collection that it goes to. -/
inductive Staged
  | wallet (record : Wallet)
  | account (record : Account)
  | address (record : Address)
  | contact (record : Contact)
  | connectedSite (record : ConnectedSite)
  | pendingTx (record : PendingRecord)
  | settings (record : Json.Value)

def Staged.name : Staged → Name
  | wallet _ => .wallets
  | account _ => .accounts
  | address _ => .addresses
  | contact _ => .contacts
  | connectedSite _ => .connectedSites
  | pendingTx _ => .pendingTxs
  | settings _ => .settings

def Staged.errors (schema : Schema) : Staged → List String
  | wallet record => schema.validateWallet record
  | account record => schema.validateAccount record
  | address record => schema.validateAddress record
  | contact record => schema.validateContact record
  | connectedSite record => schema.validateConnectedSite record
  | pendingTx record => schema.validatePendingTx record
  | settings record => schema.validateSettings record

def Staged.put (v : Collections) : Staged → Collections
  | wallet record => { v with wallets := v.wallets.put record }
  | account record => { v with accounts := v.accounts.put record }
  | address record => { v with addresses := v.addresses.put record }
  | contact record => { v with contacts := v.contacts.put record }
  | connectedSite record => { v with connectedSites := v.connectedSites.put record }
  | pendingTx record => { v with pendingTxs := v.pendingTxs.put record }
  | settings record => { v with settings := some record }

/-- The records of one collection that are written: those without an id are passed over, and so are
those that are there already, where these are preserved. -/
def stageCollection {α : Type} (key : α → String) (existing : String → Bool) (onConflict : OnConflict)
    (migrateRecord : α → Except String α) (stage : α → Staged) (records : List α) : Step (List Staged) :=
  (records.filter fun record =>
      key record ≠ "" && !(existing (key record) && onConflict = .preserve)).mapM fun record =>
    ((migrateRecord record).mapError .migration).map stage

/-- The settings are written where the vault has none, or over those it has when the backup takes the
vault's place. -/
def stageSettings (schema : Schema) (v : Collections) (onConflict : OnConflict) (mode : Mode)
    (settings : Option Json.Value) : Step (List Staged) :=
  match settings with
  | none => .ok []
  | some record =>
    if v.settings = none ∨ (onConflict = .overwrite ∧ mode ≠ .add) then
      ((schema.migrateSettings record).mapError .migration).map fun record => [.settings record]
    else .ok []

/-- Labels of the records of one collection that the vault holds already. -/
def check (name : Name) (existing : String → Bool) (ids : List String) : List String :=
  (ids.filter existing).map fun id => name.text ++ "/" ++ id

def collectConflicts (v : Collections) (mode : Mode) (p : Payload) : List String :=
  (if mode = .add then []
    else check .wallets (v.wallets.get · |>.isSome) [p.wallet.id] ++
      check .accounts (v.accounts.get · |>.isSome) (p.accounts.map (·.id)) ++
      check .addresses (v.addresses.get · |>.isSome) (p.addresses.map (·.id)) ++
      check .pendingTxs (v.pendingTxs.get · |>.isSome) (p.pendingTxs.map (·.id))) ++
    check .contacts (v.contacts.get · |>.isSome) (p.contacts.map (·.id)) ++
    check .connectedSites (v.connectedSites.get · |>.isSome) (p.connectedSites.map (·.id)) ++
    if mode ≠ .add ∧ p.settings.isSome ∧ v.settings.isSome then ["settings"] else []

def stageAll (schema : Schema) (v : Collections) (onConflict : OnConflict) (mode : Mode) (p : Payload) :
    Step (List Staged) := do
  let wallets ← stageCollection Wallet.id (v.wallets.get · |>.isSome) onConflict schema.migrateWallet
    .wallet [p.wallet]
  let accounts ← stageCollection Account.id (v.accounts.get · |>.isSome) onConflict schema.migrateAccount
    .account p.accounts
  let addresses ← stageCollection Address.id (v.addresses.get · |>.isSome) onConflict
    schema.migrateAddress .address p.addresses
  let contacts ← stageCollection Contact.id (v.contacts.get · |>.isSome) onConflict schema.migrateContact
    .contact p.contacts
  let sites ← stageCollection ConnectedSite.id (v.connectedSites.get · |>.isSome) onConflict
    schema.migrateConnectedSite .connectedSite p.connectedSites
  let pendings ← stageCollection PendingRecord.id (v.pendingTxs.get · |>.isSome) onConflict
    schema.migratePendingTx .pendingTx p.pendingTxs
  let settings ← stageSettings schema v onConflict mode p.settings
  pure (wallets ++ accounts ++ addresses ++ contacts ++ sites ++ pendings ++ settings)

/-- `Vault.putMany`: every record is validated before anything changes. -/
def validateStaged (schema : Schema) (staged : List Staged) : Step Unit :=
  match staged.find? fun entry => entry.errors schema ≠ [] with
  | some entry => .error (.invalidRecord entry.name (entry.errors schema))
  | none => .ok ()

structure Deps (κ β φ : Type) where
  decode : String → φ → Except String Payload
  schema : Schema
  crypto : Crypto κ β
  onDeviceKey : κ → Schemas.KdfParams → Except String Unit
  newId : ℕ → String

structure Opts where
  password : String
  walletPassword : String
  devicePassword : String
  onConflict : OnConflict
  mode : Mode

structure ImportResult where
  payload : Payload
  walletId : String
  writes : Name → ℕ
  rekeyed : Bool

variable {φ : Type}

/-- The payload as it is stored, with the wallet `rekeyed`. -/
def adopted (newId : ℕ → String) (mode : Mode) (prepared : Payload) (rekeyed : Wallet) : Payload :=
  if mode = .add then remintIdentifiers newId { prepared with wallet := rekeyed }
  else { prepared with wallet := rekeyed }

/-- Everything up to the write. -/
def planImport (deps : Deps κ β φ) (opts : Opts) (fileContent : φ) (v : Collections) :
    Step (ImportResult × List Staged) := do
  Checks.refuseIf (opts.password = "") .passwordRequired
  let decoded ← (deps.decode opts.password fileContent).mapError .unreadable
  Checks.refuseIf (decoded.wallet.id = "") .missingWallet
  let prepared ← prepareDecodedPayload deps.schema decoded
  let rekeyed ← rekeyWalletRecord deps.crypto deps.onDeviceKey opts.walletPassword opts.devicePassword
    prepared.wallet
  let payload := adopted deps.newId opts.mode prepared rekeyed.1
  Checks.refuseIf (collectConflicts v opts.mode payload ≠ [] ∧ opts.onConflict = .error)
    (.conflict (collectConflicts v opts.mode payload))
  let staged ← stageAll deps.schema v opts.onConflict opts.mode payload
  validateStaged deps.schema staged
  pure ({ payload
          walletId := payload.wallet.id
          writes := fun name => (staged.filter (·.name = name)).length
          rekeyed := rekeyed.2 }, staged)

/-- One write for all records, and none where there are no records. -/
def writeStaged : List Staged → Traced (Flaky Collections) Empty ImportError Unit
  | [] => pure ()
  | staged => write .refused fun v => staged.foldl Staged.put v

def importBackupFile (deps : Deps κ β φ) (opts : Opts) (fileContent : φ) :
    Traced (Flaky Collections) Empty ImportError ImportResult := do
  let v ← read
  let plan ← attempt (planImport deps opts fileContent v)
  writeStaged plan.2
  pure plan.1

end XchainWallet.BackupFile
