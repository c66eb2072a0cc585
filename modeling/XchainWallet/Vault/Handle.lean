import XchainWallet.Vault.Codec
import XchainWallet.Vault.ConflictReplay

/-!
# Vault handles and the calls made on them

A `Handle` is one `Vault` object: its key, its decoded document, the baseline it last saw
stored, and the tail of writes that run one after another. A call first runs the checks that
the source makes before anything is awaited (`Handle.prepare`); what is left is an `Op` that
waits in the queue.

A `Pc` is an `await` at which the running write, or an `open`, is suspended. It holds what
the source keeps in local variables across that `await`. The document objects carry a
reference (`DocObj`), because the source compares `this._doc` with them by identity.
-/

namespace XchainWallet

/-- A document object, with its identity among the objects of one handle. -/
structure DocObj (ν : Type) where
  ref : ℕ
  val : VaultDocument ν

/-! ### Errors -/

/-- What a backend's promise rejects with. -/
inductive BackendError
  | conflict
  | quota
  | other (message : String)
deriving DecidableEq, Repr

/-- What a call on the vault rejects with. -/
inductive VaultError
  | notOpen
  | closed
  | validation (collection : String) (errors : List String)
  | conflict (collection : String)
  | noWallet (id : String)
  | codec (error : CodecError)
  | encode (message : String)
  | storageQuota
  | backend (message : String)
deriving DecidableEq, Repr

def VaultError.message : VaultError → String
  | .notOpen => "Vault is not open"
  | .closed => "Vault is closed (masterKey cleared)"
  | .validation collection errors =>
    s!"Vault: invalid {collection} record: " ++ String.intercalate "; " errors
  | .conflict collection => s!"Vault: {collection} changed while this write was being prepared"
  | .noWallet id => s!"Vault.rekey: no wallet with id \"{id}\""
  | .codec error => error.message
  | .encode message => message
  | .storageQuota => "Storage is full. Free some space, then try again."
  | .backend message => message

/-- `throw err` of a backend error, once no quota retry is left. -/
def VaultError.ofBackend : BackendError → VaultError
  | .conflict => .conflict "storage"
  | .quota => .storageQuota
  | .other message => .backend message

/-- The document key of a collection. -/
def Collection.name : Collection → String
  | .wallets => "wallets"
  | .accounts => "accounts"
  | .addresses => "addresses"
  | .contacts => "contacts"
  | .connectedSites => "connectedSites"
  | .pendingTxs => "pendingTxs"
  | .signers => "signers"
  | .pendingAirdrops => "pendingAirdrops"
  | .pendingDeploys => "pendingDeploys"
  | .watchlistEntries => "watchlistEntries"
  | .priceAlerts => "priceAlerts"
  | .multisigSigningSessions => "multisigSigningSessions"
  | .coSignerAccounts => "coSignerAccounts"
  | .gatedKeys => "gatedKeys"
  | .autopayOrders => "autopayOrders"
  | .autopayLeases => "autopayLeases"

/-- The record schemas: the errors that `validate` finds, and the storage form of the
settings. -/
structure Schema (ν : Type) where
  validate : Collection → VaultRecord ν → List String
  validateSettings : ν → List String
  deflateSettings : ν → ν

/-- The schemas that refuse nothing. -/
def Schema.free {ν : Type} : Schema ν :=
  { validate := fun _ _ => [], validateSettings := fun _ => [], deflateSettings := id }

/-! ### Calls -/

/-- One entry of `putMany`: a store of the vault and the record for it. -/
inductive Entry (ν : Type)
  | collection (c : Collection) (record : VaultRecord ν)
  | settings (record : ν)

/-- The argument of `rekey`. The wallets that the caller prepared from come with the answer
to the identity comparison `previous.wallets.some((stored, i) => stored !== readWallets[i])`,
which only equal records can pass. -/
structure RekeyArgs (κ ν : Type) where
  masterKey : Option κ
  wallets : List (VaultRecord ν)
  readWallets : Option (List (VaultRecord ν))
  sameObjects : Bool

/-- A call on a handle that writes. -/
inductive Request (κ ν : Type)
  | put (entry : Entry ν)
  | putMany (entries : List (Entry ν))
  | collectionPutMany (c : Collection) (records : List (VaultRecord ν))
  | delete (c : Collection) (id : String)
  | clearSettings
  | save
  | clear
  | rekey (args : RekeyArgs κ ν)

/-- The operation that a call leaves in the queue of writes. -/
inductive Op (κ ν : Type)
  | save
  | clear
  | mutate (χ : Change ν)
  | rekey (args : RekeyArgs κ ν)

section Prepare

variable {κ ν : Type} (schema : Schema ν)

/-- The checks of one record of a collection. -/
def Schema.check (c : Collection) (record : VaultRecord ν) : Except VaultError Unit :=
  if record.id = "" then .error (.validation c.name ["record.id is required"])
  else if schema.validate c record ≠ [] then
    .error (.validation c.name (schema.validate c record))
  else .ok ()

/-- The same checks for a list, which stop at the first record that fails. -/
def Schema.checkAll (c : Collection) : List (VaultRecord ν) → Except VaultError Unit
  | [] => .ok ()
  | record :: records =>
    match schema.check c record with
    | .error err => .error err
    | .ok () => checkAll c records

/-- `store._prepare(record)`. -/
def Entry.prepare : Entry ν → Except VaultError (DocumentStep ν)
  | .collection c record =>
    match schema.check c record with
    | .error err => .error err
    | .ok () => .ok (.record c record)
  | .settings record =>
    if schema.validateSettings record ≠ [] then
      .error (.validation "settings" (schema.validateSettings record))
    else .ok (.settings (schema.deflateSettings record))

/-- `entries.map((entry) => entry.store._prepare(entry.record))`. -/
def prepareEntries : List (Entry ν) → Except VaultError (List (DocumentStep ν))
  | [] => .ok []
  | entry :: entries =>
    match entry.prepare schema with
    | .error err => .error err
    | .ok step =>
      match prepareEntries entries with
      | .error err => .error err
      | .ok steps => .ok (step :: steps)

/-- The part of a call that runs before its write is queued; `none` is the early return of
an empty `putMany`. -/
def Request.prepare : Request κ ν → Except VaultError (Option (Op κ ν))
  | .put entry =>
    match entry.prepare schema with
    | .error err => .error err
    | .ok step => .ok (some (.mutate (.putMany [step])))
  | .putMany entries =>
    match prepareEntries schema entries with
    | .error err => .error err
    | .ok [] => .ok none
    | .ok steps => .ok (some (.mutate (.putMany steps)))
  | .collectionPutMany c records =>
    match schema.checkAll c records with
    | .error err => .error err
    | .ok () =>
      if records = [] then .ok none else .ok (some (.mutate (.collectionPutMany c records)))
  | .delete c id => .ok (some (.mutate (.delete c id)))
  | .clearSettings => .ok (some (.mutate .clearSettings))
  | .save => .ok (some .save)
  | .clear => .ok (some .clear)
  | .rekey args =>
    match schema.checkAll .wallets args.wallets with
    | .error err => .error err
    | .ok () => .ok (some (.rekey args))

/-- The loop of `rekey` that puts each replacement over the wallet with its id. -/
def replaceWallets : List (VaultRecord ν) → List (VaultRecord ν) →
    Except VaultError (List (VaultRecord ν))
  | [], arr => .ok arr
  | record :: wallets, arr =>
    match arr.findIdx? fun r => r.id = record.id with
    | none => .error (.noWallet record.id)
    | some idx => replaceWallets wallets (arr.set idx record)

/-- The document that `rekey` builds from the current one. -/
def RekeyArgs.build [DecidableEq ν] (args : RekeyArgs κ ν) (previous : VaultDocument ν) :
    Except VaultError (VaultDocument ν) :=
  if ∃ read ∈ args.readWallets, ¬(args.sameObjects ∧ read = previous.collection .wallets) then
    .error (.conflict "wallets")
  else
    match replaceWallets args.wallets (previous.collection .wallets) with
    | .error err => .error err
    | .ok arr => .ok (previous.withCollection .wallets arr)

end Prepare

/-! ### Suspended operations -/

/-- What runs `_saveNow`: a `save()`, or a mutation with the document before it and its
result. The `document` is the one in place, which `_saveNow` encodes. -/
inductive Task (ν : Type)
  | save (document : DocObj ν)
  | mutate (previous document : DocObj ν) (result : Option Bool)

/-- Where the running write resumes: in the first attempt of `_saveNow`, in its retry with
the merged document, or in `rekey`. -/
inductive Cont (κ ν : Type)
  | first (task : Task ν) (retryOnConflict : Option (ConflictReplay ν))
  | retry (task : Task ν) (retried : DocObj ν)
  | rekey (previous next : DocObj ν) (nextKey : Option κ)

/-- The arguments of a pending `_saveBlob`. `trimmed` says that the quota retry is used. -/
structure SaveRequest (κ ν : Type) where
  blob : SealedBlob κ ν
  document : Option (VaultDocument ν)
  expected : Option (SealedBlob κ ν)
  trimmed : Bool

/-- The `await` at which the running write is suspended. -/
inductive Pc (κ ν : Type)
  | encoding (encoded : Except VaultError (SealedBlob κ ν)) (k : Cont κ ν)
  | saving (request : SaveRequest κ ν) (k : Cont κ ν)
  | answered (answer : Except BackendError Unit) (request : SaveRequest κ ν) (k : Cont κ ν)
  | stored (k : Cont κ ν)
  | reloading (k : Cont κ ν)
  | loaded (answer : Except BackendError (Option (SealedBlob κ ν))) (k : Cont κ ν)
  | decoding (blob : SealedBlob κ ν) (decoded : Except CodecError (VaultDocument ν))
      (k : Cont κ ν)
  | reloaded (document : Option (VaultDocument ν)) (k : Cont κ ν)
  | clearing
  | cleared (answer : Except BackendError Unit)

/-- The `await` at which an `open` is suspended. -/
inductive OpenPc (κ ν : Type)
  | loading
  | loaded (answer : Except BackendError (Option (SealedBlob κ ν)))
  | decoding (blob : SealedBlob κ ν) (decoded : Except CodecError (VaultDocument ν))

/-- The running write: its call, its operation and where it stands. -/
structure Running (κ ν : Type) where
  call : ℕ
  op : Op κ ν
  pc : Pc κ ν

/-- One `Vault` object. `queue` is the tail of writes behind the running one. -/
structure Handle (κ ν : Type) where
  masterKey : Option κ
  autoSave : Bool := true
  doc : Option (DocObj ν) := none
  persistedBlob : Option (SealedBlob κ ν) := none
  persistedDocument : Option (VaultDocument ν) := none
  opened : Bool := false
  opening : Option (OpenPc κ ν) := none
  queue : List (ℕ × Op κ ν) := []
  running : Option (Running κ ν) := none
  nextRef : ℕ := 0
  nextCall : ℕ := 0

namespace Handle

variable {κ ν : Type}

/-- `_assertOpen()`. -/
def assertOpen (s : Handle κ ν) : Except VaultError Unit :=
  if ¬(s.opened ∧ s.doc.isSome) then .error .notOpen
  else if s.masterKey.isNone then .error .closed
  else .ok ()

/-- `get isOpen()`. -/
def isOpen (s : Handle κ ν) : Bool := s.opened && s.doc.isSome && s.masterKey.isSome

/-- `close()`. -/
def close (s : Handle κ ν) : Handle κ ν :=
  { s with
    masterKey := none, doc := none, persistedBlob := none, persistedDocument := none,
    opened := false }

/-- `this._doc = document; this._persistedBlob = blob; this._persistedDocument = document`
for a document that was just decoded or made. -/
def install (s : Handle κ ν) (document : VaultDocument ν) (blob : Option (SealedBlob κ ν)) :
    Handle κ ν :=
  { s with
    doc := some { ref := s.nextRef, val := document }, nextRef := s.nextRef + 1,
    persistedBlob := blob, persistedDocument := some document }

end Handle

end XchainWallet
