import XchainWallet.Flows.BackupFile

/-!
# What an import leaves in the vault

An import that throws has not changed the vault, wherever it throws: everything is checked before the one
write. After one that returned, the secrets of the imported wallet open under the password of the device
to what they were in the file, and of the records that the vault held none has changed that the import was
not told to overwrite (`importBackupFile_restores`).
-/

namespace XchainWallet.BackupFile

open Traced Schemas PendingLedger Checks
open Except (ok.inj)

/-! ### Seals -/

section Seals

variable {κ β : Type} {crypto : Crypto κ β}

/-- What was sealed opens under the same key and additional data; a seal is not the empty text. -/
structure Crypto.Sound (crypto : Crypto κ β) : Prop where
  decrypt_encrypt : ∀ n key plain aad, crypto.decrypt key (crypto.encrypt n key plain aad) aad = .ok plain
  encrypt_ne : ∀ n key plain aad, crypto.encrypt n key plain aad ≠ ""

variable {what : String} {aad : Option String} {text : String} {oldKey newKey : κ}

theorem openSeal_resealText (hsound : crypto.Sound) (n : ℕ) {sealed : Option β}
    (h : openSeal crypto oldKey what aad text = .ok sealed) :
    openSeal crypto newKey what aad (resealText crypto n newKey aad text sealed) = .ok sealed := by
  by_cases hempty : text = ""
  · rw [openSeal, if_pos hempty] at h
    obtain rfl := ok.inj h
    rw [resealText, openSeal, if_pos hempty]
  · rw [openSeal, if_neg hempty] at h
    rcases hopen : crypto.decrypt oldKey text aad with fault | plain
    · rw [hopen] at h
      rcases fault with - | - <;> exact absurd h (by rintro ⟨⟩)
    · rw [hopen] at h
      obtain rfl := ok.inj h
      rw [resealText, openSeal, if_neg (hsound.encrypt_ne _ _ _ _), hsound.decrypt_encrypt]

theorem mapM_openSeal_resealKeys (hsound : crypto.Sound) {keys : List ImportedKey} {wifs : List (Option β)}
    (h : keys.mapM (fun k => openSeal crypto oldKey what none k.encryptedWif) = .ok wifs) (n : ℕ) :
    (resealKeys crypto newKey n keys wifs).mapM
      (fun k => openSeal crypto newKey what none k.encryptedWif) = .ok wifs := by
  induction keys generalizing wifs n with
  | nil =>
    obtain rfl := ok.inj h
    rfl
  | cons k keys ih =>
    simp only [List.mapM_cons, bind_eq_ok, pure_eq_ok] at h
    obtain ⟨wif, hwif, rest, hrest, rfl⟩ := h
    simp only [resealKeys, List.mapM_cons, bind_eq_ok, pure_eq_ok]
    exact ⟨wif, openSeal_resealText hsound n hwif, rest, ih hrest (n + 1), rfl⟩

/-- **Re-sealing keeps the secrets.** -/
theorem openSecrets_reseal (hsound : crypto.Sound) {wallet : Wallet} {secrets : Secrets β}
    (params : Schemas.KdfParams) (h : openSecrets crypto oldKey wallet = .ok secrets) :
    openSecrets crypto newKey (reseal crypto newKey params secrets wallet) = .ok secrets := by
  simp only [openSecrets, bind_eq_ok, pure_eq_ok] at h ⊢
  obtain ⟨seed, hseed, wifs, hwifs, passphrase, hpassphrase, rfl⟩ := h
  refine ⟨seed, openSeal_resealText hsound 0 hseed, wifs, mapM_openSeal_resealKeys hsound hwifs 1,
    passphrase, ?_, rfl⟩
  rcases hsealed : wallet.encryptedPassphrase with - | text
  · rw [hsealed] at hpassphrase
    obtain rfl := ok.inj hpassphrase
    rw [reseal, hsealed]
    rfl
  · rw [hsealed] at hpassphrase
    rw [reseal, hsealed]
    exact openSeal_resealText hsound _ hpassphrase

/-- The secrets that open under the wallet's password in one record open under the device's in the
other. -/
def Restored (crypto : Crypto κ β) (walletPassword devicePassword : String) (sealed stored : Wallet) :
    Prop :=
  ∃ oldKey newKey secrets, crypto.derive walletPassword sealed.kdfParams = .ok oldKey ∧
    openSecrets crypto oldKey sealed = .ok secrets ∧
    crypto.derive devicePassword stored.kdfParams = .ok newKey ∧
    openSecrets crypto newKey stored = .ok secrets

variable {walletPassword devicePassword : String}

theorem Restored.of_seals_eq {sealed stored stored' : Wallet}
    (h : Restored crypto walletPassword devicePassword sealed stored)
    (hseed : stored'.encryptedSeed = stored.encryptedSeed)
    (hkeys : stored'.importedKeys.map (·.encryptedWif) = stored.importedKeys.map (·.encryptedWif))
    (hpassphrase : stored'.encryptedPassphrase = stored.encryptedPassphrase)
    (hparams : stored'.kdfParams = stored.kdfParams) :
    Restored crypto walletPassword devicePassword sealed stored' := by
  obtain ⟨oldKey, newKey, secrets, hold, hsecrets, hnew, hopen⟩ := h
  refine ⟨oldKey, newKey, secrets, hold, hsecrets, hparams ▸ hnew, ?_⟩
  have hwifs : stored'.importedKeys.mapM (fun k => openSeal crypto newKey "imported key" none k.encryptedWif) =
      stored.importedKeys.mapM (fun k => openSeal crypto newKey "imported key" none k.encryptedWif) := by
    have hmap := congrArg (fun texts => texts.mapM (openSeal crypto newKey "imported key" none)) hkeys
    simpa only [List.mapM_map, Function.comp_def] using hmap
  rw [openSecrets, hseed, hwifs, hpassphrase]
  exact hopen

theorem restored_rekey (hsound : crypto.Sound)
    {onDeviceKey : κ → Schemas.KdfParams → Except String Unit} {wallet : Wallet}
    {rekeyed : Wallet × Bool} (hmaterial : hasKeyMaterial wallet = true)
    (h : rekeyWalletRecord crypto onDeviceKey walletPassword devicePassword wallet = .ok rekeyed) :
    Restored crypto walletPassword devicePassword wallet rekeyed.1 := by
  rw [rekeyWalletRecord, if_pos hmaterial] at h
  simp only [bind_eq_ok, mapError_eq_ok, pure_eq_ok] at h
  obtain ⟨-, -, -, -, oldKey, hold, secrets, hsecrets, newKey, hnew, -, -, rfl⟩ := h
  exact ⟨oldKey, newKey, secrets, hold, hsecrets, hnew, openSecrets_reseal hsound _ hsecrets⟩

theorem rekey_frame {onDeviceKey : κ → Schemas.KdfParams → Except String Unit} {wallet : Wallet}
    {rekeyed : Wallet × Bool}
    (h : rekeyWalletRecord crypto onDeviceKey walletPassword devicePassword wallet = .ok rekeyed) :
    rekeyed.1.id = wallet.id ∧ rekeyed.1.body = wallet.body := by
  rw [rekeyWalletRecord] at h
  by_cases hmaterial : hasKeyMaterial wallet = true
  · rw [if_pos hmaterial] at h
    simp only [bind_eq_ok, mapError_eq_ok, pure_eq_ok] at h
    obtain ⟨-, -, -, -, oldKey, -, secrets, -, newKey, -, -, -, rfl⟩ := h
    exact ⟨rfl, rfl⟩
  · rw [if_neg hmaterial] at h
    obtain rfl := ok.inj h
    exact ⟨rfl, rfl⟩

end Seals

/-! ### What is staged -/

section Staging

variable {schema : Schema} {v : Collections} {onConflict : OnConflict} {mode : Mode} {p : Payload}

/-- Migrations keep a record's id, and return a record of the current version as it is. The version is in
what the flow does not look at. -/
structure Schema.Settles (schema : Schema) : Prop where
  wallet : ∀ r r', schema.migrateWallet r = .ok r' →
    r'.id = r.id ∧ ∀ q : Wallet, q.body = r'.body → schema.migrateWallet q = .ok q
  account : ∀ r r', schema.migrateAccount r = .ok r' →
    r'.id = r.id ∧ ∀ q : Account, q.body = r'.body → schema.migrateAccount q = .ok q
  address : ∀ r r', schema.migrateAddress r = .ok r' →
    r'.id = r.id ∧ ∀ q : Address, q.body = r'.body → schema.migrateAddress q = .ok q
  contact : ∀ r r', schema.migrateContact r = .ok r' →
    r'.id = r.id ∧ ∀ q : Contact, q.body = r'.body → schema.migrateContact q = .ok q
  connectedSite : ∀ r r', schema.migrateConnectedSite r = .ok r' →
    r'.id = r.id ∧ ∀ q : ConnectedSite, q.body = r'.body → schema.migrateConnectedSite q = .ok q
  pendingTx : ∀ r r', schema.migratePendingTx r = .ok r' →
    r'.id = r.id ∧ ∀ id, schema.migratePendingTx { r' with id := id } = .ok { r' with id := id }

/-- The migrated version of one of the records, one with an id that is not preserved. -/
def Chosen {α : Type} {key : α → String} (t : Keyed.Table key) (onConflict : OnConflict)
    (migrateRecord : α → Except String α) (records : List α) (r : α) : Prop :=
  ∃ q ∈ records, key q ≠ "" ∧ ¬ ((t.get (key q)).isSome ∧ onConflict = .preserve) ∧
    migrateRecord q = .ok r

theorem mem_stageCollection {α : Type} {key : α → String} {t : Keyed.Table key}
    {migrateRecord : α → Except String α} {stage : α → Staged} {records : List α} {staged : List Staged}
    (h : stageCollection key (t.get · |>.isSome) onConflict migrateRecord stage records = .ok staged)
    (entry : Staged) :
    entry ∈ staged ↔ ∃ r, Chosen t onConflict migrateRecord records r ∧ entry = stage r := by
  have hiff : ∀ q, (!((t.get (key q)).isSome && decide (onConflict = .preserve))) = true ↔
      ¬ ((t.get (key q)).isSome = true ∧ onConflict = .preserve) := by
    intro q
    rw [Bool.not_eq_true', ← Bool.not_eq_true, Bool.and_eq_true_iff, decide_eq_true_iff]
  rw [mem_of_mapM_eq_ok h]
  constructor
  · rintro ⟨q, hq, hmigrate⟩
    obtain ⟨hq, hchosen⟩ := List.mem_filter.mp hq
    rcases hmigrated : migrateRecord q with e | r
    · rw [hmigrated] at hmigrate
      exact absurd hmigrate (by rintro ⟨⟩)
    · rw [hmigrated] at hmigrate
      refine ⟨r, ⟨q, hq, ?_, ?_, hmigrated⟩, (ok.inj hmigrate).symm⟩
      · exact of_decide_eq_true (Bool.and_eq_true_iff.mp hchosen).1
      · exact (hiff q).mp (Bool.and_eq_true_iff.mp hchosen).2
  · rintro ⟨r, ⟨q, hq, hne, hnot, hmigrated⟩, rfl⟩
    refine ⟨q, List.mem_filter.mpr ⟨hq, ?_⟩, by rw [hmigrated]; rfl⟩
    exact Bool.and_eq_true_iff.mpr ⟨decide_eq_true hne, (hiff q).mpr hnot⟩

/-- Where the records that are written come from. -/
def Comes (schema : Schema) (v : Collections) (onConflict : OnConflict) (mode : Mode) (p : Payload) :
    Staged → Prop
  | .wallet r => Chosen v.wallets onConflict schema.migrateWallet [p.wallet] r
  | .account r => Chosen v.accounts onConflict schema.migrateAccount p.accounts r
  | .address r => Chosen v.addresses onConflict schema.migrateAddress p.addresses r
  | .contact r => Chosen v.contacts onConflict schema.migrateContact p.contacts r
  | .connectedSite r => Chosen v.connectedSites onConflict schema.migrateConnectedSite p.connectedSites r
  | .pendingTx r => Chosen v.pendingTxs onConflict schema.migratePendingTx p.pendingTxs r
  | .settings _ => p.settings.isSome ∧ (v.settings = none ∨ (onConflict = .overwrite ∧ mode ≠ .add))

theorem comes_of_mem_stageSettings {staged : List Staged}
    (h : stageSettings schema v onConflict mode p.settings = .ok staged) {entry : Staged}
    (hentry : entry ∈ staged) :
    (∃ r, entry = .settings r) ∧ p.settings.isSome ∧
      (v.settings = none ∨ (onConflict = .overwrite ∧ mode ≠ .add)) := by
  rcases hsettings : p.settings with - | record
  · rw [hsettings] at h
    obtain rfl := ok.inj h
    exact absurd hentry List.not_mem_nil
  · simp only [hsettings, stageSettings] at h
    by_cases hwritten : v.settings = none ∨ (onConflict = .overwrite ∧ mode ≠ .add)
    · rw [if_pos hwritten] at h
      rcases hmigrated : schema.migrateSettings record with e | r
      · rw [hmigrated] at h
        exact absurd h (by rintro ⟨⟩)
      · rw [hmigrated] at h
        obtain rfl := ok.inj h
        exact ⟨⟨r, List.mem_singleton.mp hentry⟩, rfl, hwritten⟩
    · rw [if_neg hwritten] at h
      obtain rfl := ok.inj h
      exact absurd hentry List.not_mem_nil

/-- **What is staged.** -/
theorem mem_stageAll {staged : List Staged} (h : stageAll schema v onConflict mode p = .ok staged) :
    (∀ entry ∈ staged, Comes schema v onConflict mode p entry) ∧
      ∀ entry, Comes schema v onConflict mode p entry → (∀ r, entry ≠ .settings r) → entry ∈ staged := by
  simp only [stageAll, bind_eq_ok, pure_eq_ok] at h
  obtain ⟨wallets, hwallets, accounts, haccounts, addresses, haddresses, contacts, hcontacts, sites, hsites,
    pendings, hpendings, settings, hsettings, rfl⟩ := h
  have hmem : ∀ entry, entry ∈ wallets ++ accounts ++ addresses ++ contacts ++ sites ++ pendings ++ settings ↔
      entry ∈ wallets ∨ entry ∈ accounts ∨ entry ∈ addresses ∨ entry ∈ contacts ∨ entry ∈ sites ∨
        entry ∈ pendings ∨ entry ∈ settings := by
    intro entry
    simp only [List.mem_append, or_assoc]
  constructor
  · intro entry hentry
    rcases (hmem entry).mp hentry with hin | hin | hin | hin | hin | hin | hin
    · obtain ⟨r, hr, rfl⟩ := (mem_stageCollection hwallets entry).mp hin
      exact hr
    · obtain ⟨r, hr, rfl⟩ := (mem_stageCollection haccounts entry).mp hin
      exact hr
    · obtain ⟨r, hr, rfl⟩ := (mem_stageCollection haddresses entry).mp hin
      exact hr
    · obtain ⟨r, hr, rfl⟩ := (mem_stageCollection hcontacts entry).mp hin
      exact hr
    · obtain ⟨r, hr, rfl⟩ := (mem_stageCollection hsites entry).mp hin
      exact hr
    · obtain ⟨r, hr, rfl⟩ := (mem_stageCollection hpendings entry).mp hin
      exact hr
    · obtain ⟨⟨r, rfl⟩, hwritten⟩ := comes_of_mem_stageSettings hsettings hin
      exact hwritten
  · intro entry hcomes hnot
    rw [hmem]
    rcases entry with r | r | r | r | r | r | r
    · exact .inl ((mem_stageCollection hwallets _).mpr ⟨r, hcomes, rfl⟩)
    · exact .inr (.inl ((mem_stageCollection haccounts _).mpr ⟨r, hcomes, rfl⟩))
    · exact .inr (.inr (.inl ((mem_stageCollection haddresses _).mpr ⟨r, hcomes, rfl⟩)))
    · exact .inr (.inr (.inr (.inl ((mem_stageCollection hcontacts _).mpr ⟨r, hcomes, rfl⟩))))
    · exact .inr (.inr (.inr (.inr (.inl ((mem_stageCollection hsites _).mpr ⟨r, hcomes, rfl⟩)))))
    · exact .inr (.inr (.inr (.inr (.inr (.inl ((mem_stageCollection hpendings _).mpr ⟨r, hcomes, rfl⟩))))))
    · exact absurd rfl (hnot r)

end Staging

/-! ### What the write makes of a table -/

/-- One of the vault's tables, and the staged records that go there. -/
structure Slot {α : Type} (key : α → String) where
  table : Collections → Keyed.Table key
  pick : Staged → Option α
  table_put : ∀ (v : Collections) (entry : Staged), table (entry.put v) =
    match pick entry with
    | some r => (table v).put r
    | none => table v

def walletSlot : Slot Wallet.id where
  table v := v.wallets
  pick | .wallet r => some r | _ => none
  table_put v entry := by cases entry <;> rfl

def accountSlot : Slot Account.id where
  table v := v.accounts
  pick | .account r => some r | _ => none
  table_put v entry := by cases entry <;> rfl

def addressSlot : Slot Address.id where
  table v := v.addresses
  pick | .address r => some r | _ => none
  table_put v entry := by cases entry <;> rfl

def contactSlot : Slot Contact.id where
  table v := v.contacts
  pick | .contact r => some r | _ => none
  table_put v entry := by cases entry <;> rfl

def connectedSiteSlot : Slot ConnectedSite.id where
  table v := v.connectedSites
  pick | .connectedSite r => some r | _ => none
  table_put v entry := by cases entry <;> rfl

def pendingTxSlot : Slot PendingRecord.id where
  table v := v.pendingTxs
  pick | .pendingTx r => some r | _ => none
  table_put v entry := by cases entry <;> rfl

theorem Slot.table_foldl {α : Type} {key : α → String} (slot : Slot key) (staged : List Staged)
    (v : Collections) :
    slot.table (staged.foldl Staged.put v) = (staged.filterMap slot.pick).foldl Keyed.Table.put (slot.table v) := by
  induction staged generalizing v with
  | nil => rfl
  | cons entry rest ih =>
    rw [List.foldl_cons, ih, slot.table_put]
    rcases hpick : slot.pick entry with - | r
    · rw [List.filterMap_cons_none hpick]
    · rw [List.filterMap_cons_some hpick, List.foldl_cons]

/-- A record of the table stays, unless one with its id is staged. -/
theorem Slot.mem_or_staged {α : Type} {key : α → String} (slot : Slot key) {staged : List Staged}
    {v : Collections} {a : α} (ha : a ∈ (slot.table v).records) :
    a ∈ (slot.table (staged.foldl Staged.put v)).records ∨
      ∃ entry ∈ staged, ∃ r, slot.pick entry = some r ∧ key r = key a := by
  by_cases hstaged : ∃ entry ∈ staged, ∃ r, slot.pick entry = some r ∧ key r = key a
  · exact .inr hstaged
  · refine .inl ?_
    rw [slot.table_foldl]
    refine Keyed.Table.mem_foldl_put_of_mem ha fun r hr hkey => hstaged ?_
    obtain ⟨entry, hentry, hpick⟩ := List.mem_filterMap.mp hr
    exact ⟨entry, hentry, r, hpick, hkey⟩

/-- A staged record is held afterwards, where no other one with its id is staged. -/
theorem Slot.mem_of_staged {α : Type} {key : α → String} (slot : Slot key) {staged : List Staged}
    {v : Collections} {entry : Staged} (hentry : entry ∈ staged) {a : α} (hpick : slot.pick entry = some a)
    (hunique : ∀ entry ∈ staged, ∀ r, slot.pick entry = some r → key r = key a → r = a) :
    a ∈ (slot.table (staged.foldl Staged.put v)).records := by
  rw [slot.table_foldl]
  refine Keyed.Table.mem_foldl_put_self (List.mem_filterMap.mpr ⟨entry, hentry, hpick⟩) ?_
  intro r hr hkey
  obtain ⟨entry', hentry', hpick'⟩ := List.mem_filterMap.mp hr
  exact hunique entry' hentry' r hpick' hkey

/-- A record of the vault stays, unless it is overwritten by one of the backup with its id. -/
theorem Slot.kept_or_overwritten {α : Type} {key : α → String} (slot : Slot key) {staged : List Staged}
    {v : Collections} {onConflict : OnConflict} {migrateRecord : α → Except String α} {records : List α}
    (hcomes : ∀ entry ∈ staged, ∀ r, slot.pick entry = some r →
      Chosen (slot.table v) onConflict migrateRecord records r)
    (hkey : ∀ q r, migrateRecord q = .ok r → key r = key q)
    (hnone : onConflict = .error → ∀ q ∈ records, (slot.table v).get (key q) = none) {a : α}
    (ha : a ∈ (slot.table v).records) :
    a ∈ (slot.table (staged.foldl Staged.put v)).records ∨
      onConflict = .overwrite ∧ ∃ q ∈ records, key q = key a := by
  refine (slot.mem_or_staged ha).imp_right ?_
  rintro ⟨entry, hentry, r, hpick, hr⟩
  obtain ⟨q, hq, -, hchosen, hmigrated⟩ := hcomes entry hentry r hpick
  have hqa : key q = key a := (hkey q r hmigrated).symm.trans hr
  have hheld : (slot.table v).get (key q) = some a :=
    ((slot.table v).get_eq_some).mpr ⟨ha, hqa.symm⟩
  refine ⟨?_, q, hq, hqa⟩
  rcases onConflict with - | - | -
  · rfl
  · exact absurd ⟨by rw [hheld]; rfl, rfl⟩ hchosen
  · exact absurd ((hnone rfl q hq).symm.trans hheld) (by rintro ⟨⟩)

/-! ### Conflicts -/

theorem check_eq_nil {name : Name} {existing : String → Bool} {ids : List String} :
    check name existing ids = [] ↔ ∀ id ∈ ids, existing id = false := by
  rw [check, List.map_eq_nil_iff, List.filter_eq_nil_iff]
  exact forall₂_congr fun id _ => by rw [Bool.not_eq_true]

theorem get_eq_none_of_check {α : Type} {key : α → String} {t : Keyed.Table key} {name : Name}
    {l : List α} (h : check name (t.get · |>.isSome) (l.map key) = []) :
    ∀ q ∈ l, t.get (key q) = none := by
  intro q hq
  have hfalse := check_eq_nil.mp h (key q) (List.mem_map_of_mem hq)
  exact Option.not_isSome_iff_eq_none.mp (ne_true_of_eq_false hfalse)

/-- The ids that are given out are not empty, and none that a record of the vault has. -/
structure Fresh (newId : ℕ → String) (v : Collections) : Prop where
  ne : ∀ n, newId n ≠ ""
  wallets : ∀ n, v.wallets.get (newId n) = none
  accounts : ∀ n, v.accounts.get (newId n) = none
  addresses : ∀ n, v.addresses.get (newId n) = none
  pendingTxs : ∀ n, v.pendingTxs.get (newId n) = none
  signers : ∀ n, (v.perWallet .signers).get (newId n) = none

/-- Where the import may go on, the vault holds none of the wallet's own records in mode `add`, and none
of the backup's at all where a conflict is an error. -/
structure NoClash (v : Collections) (onConflict : OnConflict) (mode : Mode) (p : Payload) : Prop where
  wallets : onConflict = .error ∨ mode = .add → ∀ q ∈ [p.wallet], v.wallets.get q.id = none
  accounts : onConflict = .error ∨ mode = .add → ∀ q ∈ p.accounts, v.accounts.get q.id = none
  addresses : onConflict = .error ∨ mode = .add → ∀ q ∈ p.addresses, v.addresses.get q.id = none
  pendingTxs : onConflict = .error ∨ mode = .add → ∀ q ∈ p.pendingTxs, v.pendingTxs.get q.id = none
  contacts : onConflict = .error → ∀ q ∈ p.contacts, v.contacts.get q.id = none
  connectedSites : onConflict = .error → ∀ q ∈ p.connectedSites, v.connectedSites.get q.id = none

theorem noClash {v : Collections} {onConflict : OnConflict} {mode : Mode} {newId : ℕ → String}
    {prepared : Payload} {rekeyed : Wallet} (hfresh : Fresh newId v)
    (h : ¬ (collectConflicts v mode (adopted newId mode prepared rekeyed) ≠ [] ∧ onConflict = .error)) :
    NoClash v onConflict mode (adopted newId mode prepared rekeyed) := by
  have hnil : onConflict = .error →
      collectConflicts v mode (adopted newId mode prepared rekeyed) = [] := by
    intro herror
    by_contra hne
    exact h ⟨hne, herror⟩
  by_cases hadd : mode = .add
  · obtain rfl := hadd
    refine ⟨fun _ q hq => ?_, fun _ q hq => ?_, fun _ q hq => ?_, fun _ q hq => ?_, fun herror => ?_,
      fun herror => ?_⟩
    · obtain rfl := List.mem_singleton.mp hq
      exact hfresh.wallets _
    · obtain ⟨i, hi, rfl⟩ := List.mem_mapIdx.mp hq
      exact hfresh.accounts _
    · obtain ⟨i, hi, rfl⟩ := List.mem_mapIdx.mp hq
      exact hfresh.addresses _
    · obtain ⟨i, hi, rfl⟩ := List.mem_mapIdx.mp hq
      exact hfresh.pendingTxs _
    · have hall := hnil herror
      simp only [collectConflicts, List.append_eq_nil_iff] at hall
      exact get_eq_none_of_check hall.1.1.2
    · have hall := hnil herror
      simp only [collectConflicts, List.append_eq_nil_iff] at hall
      exact get_eq_none_of_check hall.1.2
  · have hall : onConflict = .error ∨ mode = .add →
        collectConflicts v mode (adopted newId mode prepared rekeyed) = [] :=
      fun hor => hnil (hor.resolve_right hadd)
    simp only [collectConflicts, if_neg hadd, List.append_eq_nil_iff] at hall
    refine ⟨fun hor => ?_, fun hor => ?_, fun hor => ?_, fun hor => ?_, fun herror => ?_, fun herror => ?_⟩
    · exact get_eq_none_of_check (l := [_]) (hall hor).1.1.1.1.1.1
    · exact get_eq_none_of_check (hall hor).1.1.1.1.1.2
    · exact get_eq_none_of_check (hall hor).1.1.1.1.2
    · exact get_eq_none_of_check (hall hor).1.1.1.2
    · exact get_eq_none_of_check (hall (.inl herror)).1.1.2
    · exact get_eq_none_of_check (hall (.inl herror)).1.2

/-! ### The import -/

section Import

variable {κ β φ : Type} {deps : Deps κ β φ} {opts : Opts} {fileContent : φ} {v v' : Collections}

/-- The records of `v` are those of `v'`, but for those that the import was told to overwrite and that the
backup holds. -/
structure Unchanged (opts : Opts) (p : Payload) (v v' : Collections) : Prop where
  wallets : ∀ a ∈ v.wallets.records, a ∈ v'.wallets.records ∨
    opts.onConflict = .overwrite ∧ opts.mode = .fresh ∧ p.wallet.id = a.id
  accounts : ∀ a ∈ v.accounts.records, a ∈ v'.accounts.records ∨
    opts.onConflict = .overwrite ∧ opts.mode = .fresh ∧ ∃ q ∈ p.accounts, q.id = a.id
  addresses : ∀ a ∈ v.addresses.records, a ∈ v'.addresses.records ∨
    opts.onConflict = .overwrite ∧ opts.mode = .fresh ∧ ∃ q ∈ p.addresses, q.id = a.id
  pendingTxs : ∀ a ∈ v.pendingTxs.records, a ∈ v'.pendingTxs.records ∨
    opts.onConflict = .overwrite ∧ opts.mode = .fresh ∧ ∃ q ∈ p.pendingTxs, q.id = a.id
  contacts : ∀ a ∈ v.contacts.records, a ∈ v'.contacts.records ∨
    opts.onConflict = .overwrite ∧ ∃ q ∈ p.contacts, q.id = a.id
  connectedSites : ∀ a ∈ v.connectedSites.records, a ∈ v'.connectedSites.records ∨
    opts.onConflict = .overwrite ∧ ∃ q ∈ p.connectedSites, q.id = a.id
  perWallet : v'.perWallet = v.perWallet
  settings : v.settings.isSome → v'.settings = v.settings ∨
    opts.onConflict = .overwrite ∧ opts.mode = .fresh ∧ p.settings.isSome

theorem perWallet_foldl (staged : List Staged) (v : Collections) :
    (staged.foldl Staged.put v).perWallet = v.perWallet := by
  induction staged generalizing v with
  | nil => rfl
  | cons entry rest ih =>
    rw [List.foldl_cons, ih]
    cases entry <;> rfl

theorem settings_foldl {staged : List Staged} (h : ∀ entry ∈ staged, ∀ r, entry ≠ .settings r)
    (v : Collections) : (staged.foldl Staged.put v).settings = v.settings := by
  induction staged generalizing v with
  | nil => rfl
  | cons entry rest ih =>
    rw [List.foldl_cons, ih fun e he => h e (.tail _ he)]
    rcases entry with r | r | r | r | r | r | r
    · rfl
    · rfl
    · rfl
    · rfl
    · rfl
    · rfl
    · exact absurd rfl (h _ (.head _) r)

theorem Mode.eq_fresh {mode : Mode} (h : mode ≠ .add) : mode = .fresh := by
  cases mode with
  | fresh => rfl
  | add => exact absurd rfl h

/-- A record of one of the wallet's own collections is overwritten in mode `fresh` only. -/
theorem Slot.kept_or_overwritten_fresh {α : Type} {key : α → String} (slot : Slot key) {staged : List Staged}
    {migrateRecord : α → Except String α} {records : List α}
    (hcomes : ∀ entry ∈ staged, ∀ r, slot.pick entry = some r →
      Chosen (slot.table v) opts.onConflict migrateRecord records r)
    (hkey : ∀ q r, migrateRecord q = .ok r → key r = key q)
    (hnone : opts.onConflict = .error ∨ opts.mode = .add → ∀ q ∈ records, (slot.table v).get (key q) = none)
    {a : α} (ha : a ∈ (slot.table v).records) :
    a ∈ (slot.table (staged.foldl Staged.put v)).records ∨
      opts.onConflict = .overwrite ∧ opts.mode = .fresh ∧ ∃ q ∈ records, key q = key a := by
  refine (slot.kept_or_overwritten hcomes hkey (fun herror => hnone (.inl herror)) ha).imp_right ?_
  rintro ⟨hover, q, hq, hqa⟩
  refine ⟨hover, Mode.eq_fresh fun hadd => ?_, q, hq, hqa⟩
  have hheld := ((slot.table v).get_eq_some).mpr ⟨ha, hqa.symm⟩
  exact absurd ((hnone (.inr hadd) q hq).symm.trans hheld) (by rintro ⟨⟩)

theorem unchanged (hsettles : deps.schema.Settles) {p : Payload} {staged : List Staged}
    (hclash : NoClash v opts.onConflict opts.mode p)
    (hstaged : stageAll deps.schema v opts.onConflict opts.mode p = .ok staged) :
    Unchanged opts p v (staged.foldl Staged.put v) := by
  have hcomes := (mem_stageAll hstaged).1
  have hpick : ∀ {α : Type} {key : α → String} (slot : Slot key) {chosen : α → Prop},
      (∀ entry r, slot.pick entry = some r →
        Comes deps.schema v opts.onConflict opts.mode p entry → chosen r) →
      ∀ entry ∈ staged, ∀ r, slot.pick entry = some r → chosen r :=
    fun slot chosen h entry hentry r hr => h entry r hr (hcomes entry hentry)
  refine ⟨fun a ha => ?_, fun a ha => ?_, fun a ha => ?_, fun a ha => ?_, fun a ha => ?_, fun a ha => ?_,
    perWallet_foldl staged v, fun hsome => ?_⟩
  · refine (walletSlot.kept_or_overwritten_fresh (hpick walletSlot ?_)
      (fun q r h => (hsettles.wallet q r h).1) hclash.wallets ha).imp_right ?_
    · rintro (r | r | r | r | r | r | r) r' ⟨⟩ hr
      exact hr
    · rintro ⟨hover, hmode, q, hq, hqa⟩
      obtain rfl := List.mem_singleton.mp hq
      exact ⟨hover, hmode, hqa⟩
  · refine accountSlot.kept_or_overwritten_fresh (hpick accountSlot ?_)
      (fun q r h => (hsettles.account q r h).1) hclash.accounts ha
    rintro (r | r | r | r | r | r | r) r' ⟨⟩ hr
    exact hr
  · refine addressSlot.kept_or_overwritten_fresh (hpick addressSlot ?_)
      (fun q r h => (hsettles.address q r h).1) hclash.addresses ha
    rintro (r | r | r | r | r | r | r) r' ⟨⟩ hr
    exact hr
  · refine pendingTxSlot.kept_or_overwritten_fresh (hpick pendingTxSlot ?_)
      (fun q r h => (hsettles.pendingTx q r h).1) hclash.pendingTxs ha
    rintro (r | r | r | r | r | r | r) r' ⟨⟩ hr
    exact hr
  · refine contactSlot.kept_or_overwritten (hpick contactSlot ?_)
      (fun q r h => (hsettles.contact q r h).1) hclash.contacts ha
    rintro (r | r | r | r | r | r | r) r' ⟨⟩ hr
    exact hr
  · refine connectedSiteSlot.kept_or_overwritten (hpick connectedSiteSlot ?_)
      (fun q r h => (hsettles.connectedSite q r h).1) hclash.connectedSites ha
    rintro (r | r | r | r | r | r | r) r' ⟨⟩ hr
    exact hr
  · by_cases hany : ∃ r, Staged.settings r ∈ staged
    · obtain ⟨r, hr⟩ := hany
      obtain ⟨hp, hnone | ⟨hover, hmode⟩⟩ := hcomes _ hr
      · rw [hnone] at hsome
        exact absurd hsome Bool.false_ne_true
      · exact .inr ⟨hover, Mode.eq_fresh hmode, hp⟩
    · exact .inl (settings_foldl (fun entry hentry r heq => hany ⟨r, heq ▸ hentry⟩) v)

/-- What was planned, step by step. -/
theorem planImport_eq_ok {plan : ImportResult × List Staged}
    (h : planImport deps opts fileContent v = .ok plan) :
    ∃ decoded prepared rekeyed, deps.decode opts.password fileContent = .ok decoded ∧
      prepareDecodedPayload deps.schema decoded = .ok prepared ∧ decoded.wallet.id ≠ "" ∧
      rekeyWalletRecord deps.crypto deps.onDeviceKey opts.walletPassword opts.devicePassword
        prepared.wallet = .ok rekeyed ∧
      plan.1.payload = adopted deps.newId opts.mode prepared rekeyed.1 ∧
      plan.1.walletId = plan.1.payload.wallet.id ∧ plan.1.rekeyed = rekeyed.2 ∧
      ¬ (collectConflicts v opts.mode plan.1.payload ≠ [] ∧ opts.onConflict = .error) ∧
      stageAll deps.schema v opts.onConflict opts.mode plan.1.payload = .ok plan.2 := by
  simp only [planImport, bind_eq_ok, mapError_eq_ok, refuseIf_eq_ok, pure_eq_ok] at h
  obtain ⟨-, -, decoded, hdecoded, -, hid, prepared, hprepared, rekeyed, hrekeyed, -, hconflicts, staged, hstaged,
    -, -, rfl⟩ := h
  exact ⟨decoded, prepared, rekeyed, hdecoded, hprepared, hid, hrekeyed, rfl, rfl, rfl, hconflicts, hstaged⟩

theorem triple_writeStaged {s : Collections} (staged : List Staged) :
    Triple (fun s' => s' = s) (writeStaged staged) (fun _ s' => s' = staged.foldl Staged.put s)
      fun s' => s' = s := by
  rcases staged with - | ⟨entry, rest⟩
  · exact triple_pure fun _ hs => hs
  · have hwrite : writeStaged (entry :: rest) =
        write .refused fun v => (entry :: rest).foldl Staged.put v := rfl
    rw [hwrite]
    refine triple_write (fun s' hs => ?_) fun _ hs => hs
    rw [hs]

/-- **One write or none.** -/
theorem triple_importBackupFile :
    Triple (fun s => s = v) (importBackupFile deps opts fileContent)
      (fun result s => ∃ staged, planImport deps opts fileContent v = .ok (result, staged) ∧
        s = staged.foldl Staged.put v)
      fun s => s = v := by
  refine triple_read_bind fun u hu => ?_
  obtain rfl := hu
  refine (triple_attempt (Q := fun plan s => s = u ∧ planImport deps opts fileContent u = .ok plan)
    (fun s plan hs hplan => ⟨hs, hplan⟩) fun _ hs => hs).bind fun plan => ?_
  refine triple_of_store fun s hs => ?_
  obtain ⟨rfl, hplan⟩ := hs
  refine (triple_writeStaged plan.2).bind fun _ => ?_
  exact triple_pure fun s' hs' => ⟨plan.2, hplan, hs'⟩

theorem prepared_wallet {schema : Schema} {decoded prepared : Payload}
    (h : prepareDecodedPayload schema decoded = .ok prepared) :
    schema.migrateWallet decoded.wallet = .ok prepared.wallet := by
  simp only [prepareDecodedPayload, bind_eq_ok, mapError_eq_ok, pure_eq_ok] at h
  obtain ⟨wallet, hwallet, accounts, -, addresses, -, contacts, -, sites, -, pendings, -, settings, -, -, -, -, -,
    -, -, -, -, -, -, -, -, -, -, -, -, rfl⟩ := h
  exact hwallet

/-- The re-sealed wallet keeps its seals where it is given new ids. -/
theorem adopted_wallet (newId : ℕ → String) (mode : Mode) (prepared : Payload) (rekeyed : Wallet) :
    ((adopted newId mode prepared rekeyed).wallet.body = rekeyed.body ∧
      (adopted newId mode prepared rekeyed).wallet.encryptedSeed = rekeyed.encryptedSeed ∧
      (adopted newId mode prepared rekeyed).wallet.importedKeys.map (·.encryptedWif) =
        rekeyed.importedKeys.map (·.encryptedWif) ∧
      (adopted newId mode prepared rekeyed).wallet.encryptedPassphrase = rekeyed.encryptedPassphrase ∧
      (adopted newId mode prepared rekeyed).wallet.kdfParams = rekeyed.kdfParams) ∧
    ((adopted newId mode prepared rekeyed).wallet.id = rekeyed.id ∨
      (adopted newId mode prepared rekeyed).wallet.id = newId 0) := by
  rw [adopted]
  by_cases hadd : mode = .add
  · rw [if_pos hadd]
    refine ⟨⟨rfl, rfl, ?_, rfl, rfl⟩, .inr rfl⟩
    simp only [remintIdentifiers, List.map_map, Function.comp_def]
  · rw [if_neg hadd]
    exact ⟨⟨rfl, rfl, rfl, rfl, rfl⟩, .inl rfl⟩

/-- The imported wallet is stored, unless one with its id is preserved. -/
theorem wallet_stored (hsettles : deps.schema.Settles) (hfresh : Fresh deps.newId v)
    {plan : ImportResult × List Staged} (h : planImport deps opts fileContent v = .ok plan)
    (hnot : ¬ (opts.onConflict = .preserve ∧ (v.wallets.get plan.1.walletId).isSome)) :
    plan.1.payload.wallet ∈ (plan.2.foldl Staged.put v).wallets.records := by
  obtain ⟨decoded, prepared, rekeyed, -, hprepared, hid, hrekeyed, hpayload, hwalletId, -, -, hstaged⟩ :=
    planImport_eq_ok h
  have hmigrated := prepared_wallet hprepared
  obtain ⟨hkeptId, hcurrent⟩ := hsettles.wallet _ _ hmigrated
  obtain ⟨hrekeyedId, hrekeyedBody⟩ := rekey_frame hrekeyed
  obtain ⟨⟨hbody, -⟩, hids⟩ := adopted_wallet deps.newId opts.mode prepared rekeyed.1
  rw [← hpayload] at hbody hids
  have hmigrate := hcurrent _ (hbody.trans hrekeyedBody)
  have hne : plan.1.payload.wallet.id ≠ "" := by
    rcases hids with heq | heq
    · rw [heq, hrekeyedId, hkeptId]
      exact hid
    · rw [heq]
      exact hfresh.ne 0
  have hcomes : Comes deps.schema v opts.onConflict opts.mode plan.1.payload
      (.wallet plan.1.payload.wallet) := by
    refine ⟨_, List.mem_singleton_self _, hne, fun hpreserve => hnot ?_, hmigrate⟩
    rw [hwalletId]
    exact ⟨hpreserve.2, hpreserve.1⟩
  have hentry := (mem_stageAll hstaged).2 _ hcomes (by rintro r ⟨⟩)
  refine walletSlot.mem_of_staged hentry rfl ?_
  -- Only one wallet is staged.
  rintro (r | r | r | r | r | r | r) hr r' ⟨⟩ -
  obtain ⟨q, hq, -, -, hq'⟩ := (mem_stageAll hstaged).1 _ hr
  rw [List.mem_singleton.mp hq] at hq'
  exact ok.inj (hq'.symm.trans hmigrate)

/-- **Importing a backup.** A call that throws has left the vault as it was. After one that returned, the
imported wallet is stored, unless one with its id was to be preserved, and its secrets open under the
password of the device to what they are in the backup. No record of the vault has changed, but for those
that were to be overwritten and are in the backup. -/
theorem importBackupFile_restores (deps : Deps κ β φ) (hsound : deps.crypto.Sound)
    (hsettles : deps.schema.Settles) (opts : Opts) (fileContent : φ) (w : Flaky Collections)
    (hfresh : Fresh deps.newId w.store) {r : Except ImportError ImportResult} {w' : Flaky Collections}
    {n : List Empty} (hrun : (importBackupFile deps opts fileContent).run w = (r, w', n)) :
    (∀ e, r = .error e → w'.store = w.store) ∧
      ∀ result, r = .ok result → ∃ decoded prepared,
        deps.decode opts.password fileContent = .ok decoded ∧
        prepareDecodedPayload deps.schema decoded = .ok prepared ∧
        (¬ (opts.onConflict = .preserve ∧ (w.store.wallets.get result.walletId).isSome) →
          ∃ stored ∈ w'.store.wallets.records, stored.id = result.walletId ∧
            (hasKeyMaterial prepared.wallet = true →
              Restored deps.crypto opts.walletPassword opts.devicePassword prepared.wallet stored)) ∧
        Unchanged opts result.payload w.store w'.store := by
  constructor
  · rintro e rfl
    exact triple_importBackupFile.throws hrun rfl
  · rintro result rfl
    obtain ⟨staged, hplan, hstore⟩ := triple_importBackupFile.returns hrun rfl
    obtain ⟨decoded, prepared, rekeyed, hdecoded, hprepared, -, hrekeyed, hpayload, hwalletId, -, hconflicts,
      hstaged⟩ := planImport_eq_ok hplan
    refine ⟨decoded, prepared, hdecoded, hprepared, fun hnot => ?_, ?_⟩
    · refine ⟨result.payload.wallet, hstore ▸ wallet_stored hsettles hfresh hplan hnot, hwalletId.symm,
        fun hmaterial => ?_⟩
      obtain ⟨⟨-, hseed, hkeys, hpassphrase, hparams⟩, -⟩ :=
        adopted_wallet deps.newId opts.mode prepared rekeyed.1
      have hrestored := restored_rekey hsound hmaterial hrekeyed
      have hadopted := hrestored.of_seals_eq hseed hkeys hpassphrase hparams
      exact hpayload ▸ hadopted
    · rw [hstore]
      have hadopted : result.payload = adopted deps.newId opts.mode prepared rekeyed.1 := hpayload
      have hclash : NoClash w.store opts.onConflict opts.mode result.payload := by
        rw [hadopted] at hconflicts ⊢
        exact noClash hfresh hconflicts
      exact unchanged hsettles hclash hstaged

end Import

/-! ### Runs on plain files -/

/-- Seals that begin with their key. -/
def Crypto.marked : Crypto Char String where
  derive password _ := match password.toList with
    | key :: _ => .ok key
    | [] => .error "deriveMasterKey: password is required"
  decrypt key text _ := match text.toList with
    | mark :: plain => if mark = key then .ok (String.ofList plain) else .error .wrongKey
    | [] => .error .damaged
  encrypt _ key plain _ := String.ofList (key :: plain.toList)
  freshSalt := "t"

theorem Crypto.marked_sound : Crypto.marked.Sound where
  decrypt_encrypt n key plain aad := by simp [Crypto.marked]
  encrypt_ne n key plain aad h := by simpa [Crypto.marked] using congrArg String.toList h

/-- Records of the current version that are all valid. -/
def Schema.asItIs : Schema where
  migrateWallet := .ok
  migrateAccount := .ok
  migrateAddress := .ok
  migrateContact := .ok
  migrateConnectedSite := .ok
  migratePendingTx := .ok
  migrateSettings := .ok
  validateWallet _ := []
  validateAccount _ := []
  validateAddress _ := []
  validateContact _ := []
  validateConnectedSite _ := []
  validatePendingTx _ := []
  validateSettings _ := []

theorem Schema.asItIs_settles : Schema.asItIs.Settles where
  wallet _ _ h := ⟨congrArg Wallet.id (ok.inj h).symm, fun _ _ => rfl⟩
  account _ _ h := ⟨congrArg Account.id (ok.inj h).symm, fun _ _ => rfl⟩
  address _ _ h := ⟨congrArg Address.id (ok.inj h).symm, fun _ _ => rfl⟩
  contact _ _ h := ⟨congrArg Contact.id (ok.inj h).symm, fun _ _ => rfl⟩
  connectedSite _ _ h := ⟨congrArg ConnectedSite.id (ok.inj h).symm, fun _ _ => rfl⟩
  pendingTx _ _ h := ⟨congrArg PendingRecord.id (ok.inj h).symm, fun _ => rfl⟩

/-- A file is its password and the payload. -/
def Deps.plain : Deps Char String (String × Payload) where
  decode password file :=
    if password = file.1 then .ok file.2 else .error "wrong password or tampered file"
  schema := .asItIs
  crypto := .marked
  onDeviceKey _ _ := .ok ()
  newId n := String.ofList (List.replicate (n + 1) 'i')

theorem Deps.plain_injective : Function.Injective Deps.plain.newId := by
  intro m n h
  have hlength := congrArg String.length h
  simpa [Deps.plain] using hlength

private def sealedBy (mark : String) : Wallet :=
  { id := "w", encryptedSeed := mark ++ "seed", encryptedPassphrase := none
    kdfParams := { salt := "s", iterations := 3, memory := 65536, parallelism := 1 }
    importedKeys := [], body := .null }

private def backup (accounts : List Account) : String × Payload :=
  ("f", { wallet := sealedBy "a", accounts := accounts, addresses := [], contacts := []
          connectedSites := [], settings := none, pendingTxs := [] })

private def holding (wallets : Keyed.Table Wallet.id) (accounts : Keyed.Table Account.id) : Collections :=
  { wallets := wallets, accounts := accounts, addresses := .empty, contacts := .empty
    connectedSites := .empty, pendingTxs := .empty, perWallet := fun _ => .empty
    settings := none }

private def typed (onConflict : OnConflict) : Opts :=
  { password := "f", walletPassword := "a", devicePassword := "b", onConflict := onConflict, mode := .fresh }

/-- A wallet that is restored into an empty vault opens under the password of the device. -/
theorem importBackupFile_restores_fresh :
    ∃ result w' n, (importBackupFile Deps.plain (typed .error) (backup [])).run
        ⟨holding .empty .empty, fun _ => true⟩ = (.ok result, w', n) ∧
      ∃ stored ∈ w'.store.wallets.records,
        Restored .marked "a" "b" (sealedBy "a") stored := by
  refine ⟨_, _, _, rfl, ?_⟩
  have hfresh : Fresh Deps.plain.newId (holding .empty .empty) :=
    ⟨fun n h => by simpa [Deps.plain] using congrArg String.toList h, fun _ => rfl, fun _ => rfl, fun _ => rfl,
      fun _ => rfl, fun _ => rfl⟩
  obtain ⟨decoded, prepared, hdecoded, hprepared, hstored, -⟩ :=
    (importBackupFile_restores Deps.plain Crypto.marked_sound Schema.asItIs_settles (typed .error) (backup [])
      ⟨holding .empty .empty, fun _ => true⟩ hfresh rfl).2 _ rfl
  obtain ⟨stored, hmem, -, hrestored⟩ := hstored fun h => absurd h.1 (by decide)
  obtain rfl := Except.ok.inj hdecoded
  obtain rfl := Except.ok.inj hprepared
  exact ⟨stored, hmem, hrestored (by decide)⟩

/-- Neither does a successful import leave every record of the other wallets as it was, nor does every
secret of the backup open under the password of the device: records are overwritten by their ids, and a
wallet that is preserved is not re-sealed. -/
theorem not_importBackupFile_restores :
    (¬ ∀ (opts : Opts) (file : String × Payload) (w w' : Flaky Collections) (result : ImportResult)
        (n : List Empty), (importBackupFile Deps.plain opts file).run w = (.ok result, w', n) →
        ∀ a ∈ w.store.accounts.records, a.walletId ≠ file.2.wallet.id → a ∈ w'.store.accounts.records) ∧
      ¬ ∀ (opts : Opts) (file : String × Payload) (w w' : Flaky Collections) (result : ImportResult)
        (n : List Empty), (importBackupFile Deps.plain opts file).run w = (.ok result, w', n) →
        hasKeyMaterial file.2.wallet = true → ∃ stored ∈ w'.store.wallets.records,
          Restored .marked opts.walletPassword opts.devicePassword file.2.wallet stored := by
  constructor
  · intro hkept
    have hmem := hkept (typed .overwrite) (backup [⟨"a", "w", [], .null⟩])
      ⟨holding .empty (.singleton ⟨"a", "other", [], .null⟩), fun _ => true⟩ _ _ _ rfl
      ⟨"a", "other", [], .null⟩ (List.mem_singleton_self _) (by decide)
    have heq := congrArg Account.walletId (List.mem_singleton.mp hmem)
    exact absurd heq (by decide)
  · intro hopens
    obtain ⟨stored, hmem, oldKey, newKey, secrets, -, -, hnew, hopen⟩ := hopens (typed .preserve) (backup [])
      ⟨holding (.singleton (sealedBy "c")) .empty, fun _ => true⟩ _ _ _ rfl (by decide)
    obtain rfl := List.mem_singleton.mp hmem
    obtain rfl := Except.ok.inj hnew
    exact absurd hopen (by rintro ⟨⟩)

end XchainWallet.BackupFile
