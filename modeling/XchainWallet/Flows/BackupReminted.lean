import XchainWallet.Flows.BackupRestored

/-!
# New ids for a wallet that joins others

Where a backup is added to a vault that has wallets, its wallet, accounts, addresses and pending
transactions get new ids, and references between them are to follow. Those of accounts to their wallet, of
addresses to their accounts, of imported keys to their addresses and of grants to accounts do. The
overrides of active addresses, the signers of addresses and the transactions that a bump replaces are not
rewritten, so the copy is faithful exactly where these name no record (`importBackupFile_add_copies_iff`).
-/

namespace XchainWallet.BackupFile

open Traced Schemas PendingLedger Checks
open List (forall₂_same mem_mapIdx mem_singleton not_mem_nil)

/-! ### Renaming -/

section Renaming

variable {newId : ℕ → String} {n : ℕ} {ids : List String} {x : String}

theorem lookup_of_mem {pairs : List (String × String)} (hdistinct : (pairs.map Prod.fst).Nodup)
    {x y : String} (h : (x, y) ∈ pairs) : pairs.lookup x = some y := by
  induction pairs with
  | nil => exact absurd h not_mem_nil
  | cons pair rest ih =>
    obtain ⟨hnot, hrest⟩ := List.nodup_cons.mp hdistinct
    rcases List.mem_cons.mp h with rfl | h
    · rw [List.lookup_cons_self]
    · have hne : x ≠ pair.1 := by
        intro heq
        exact hnot (heq ▸ List.mem_map_of_mem (f := Prod.fst) h)
      rw [List.lookup_cons, beq_false_of_ne hne]
      exact ih hrest h

theorem lookup_of_not_mem {pairs : List (String × String)} {x : String} (h : x ∉ pairs.map Prod.fst) :
    pairs.lookup x = none := by
  rw [List.lookup_eq_none_iff]
  rintro ⟨k, y⟩ hmem
  exact bne_iff_ne.mpr fun heq => h (heq ▸ List.mem_map_of_mem hmem)

theorem map_fst_minted : (minted newId n ids).map Prod.fst = ids := by
  rw [minted, List.map_map]
  exact List.zipIdx_map_fst 0 ids

/-- The `i`-th id of the list becomes the `i`-th new one. -/
theorem renamed_minted (hdistinct : ids.Nodup) {i : ℕ} (h : ids[i]? = some x) :
    renamed (minted newId n ids) x = newId (n + i) := by
  have hmem : (x, newId (n + i)) ∈ (minted newId n ids).reverse := by
    rw [List.mem_reverse, minted]
    exact List.mem_map.mpr ⟨(x, i), List.mem_zipIdx_iff_getElem?.mpr h, rfl⟩
  have hkeys : ((minted newId n ids).reverse.map Prod.fst).Nodup := by
    rw [List.map_reverse, map_fst_minted, List.nodup_reverse]
    exact hdistinct
  rw [renamed, lookup_of_mem hkeys hmem, Option.getD_some]

theorem renamed_minted_of_not_mem (h : x ∉ ids) : renamed (minted newId n ids) x = x := by
  have hnot : x ∉ (minted newId n ids).reverse.map Prod.fst := by
    rw [List.map_reverse, map_fst_minted, List.mem_reverse]
    exact h
  rw [renamed, lookup_of_not_mem hnot, Option.getD_none]

end Renaming

/-! ### References -/

/-- The ids of one kind of record: in the vault that was exported, in the backup, among the imported
records in the same order, and in the vault before the import. -/
structure Ids where
  source : List String
  exported : List String
  imported : List String
  held : List String

/-- A reference `x` of the backup has become `y`: where it named a record, `y` names the imported copy of
it, and it names no record that was in the vault already. -/
def Ids.Follows (k : Ids) (x y : String) : Prop :=
  (x ∈ k.source → ∃ i : ℕ, k.exported[i]? = some x ∧ k.imported[i]? = some y) ∧ y ∉ k.held

/-- The id names no record of the vaults with these ids. -/
def Unknown (source held : List String) (x : String) : Prop := x ∉ source ∧ x ∉ held

theorem Ids.follows_self {k : Ids} (hnew : ∀ y ∈ k.imported, y ∉ k.source) {x : String} :
    k.Follows x x ↔ Unknown k.source k.held x := by
  refine and_congr_left fun _ => ⟨fun h hx => ?_, fun h => fun hx => absurd hx h⟩
  obtain ⟨i, -, hi⟩ := h hx
  exact hnew x (List.mem_of_getElem? hi) hx

/-- References that are renamed follow, unless they name a record that is not in the backup. -/
theorem Ids.follows_renamed {k : Ids} {newId : ℕ → String} {n : ℕ} (hdistinct : k.exported.Nodup)
    (himported : ∀ i, i < k.exported.length → k.imported[i]? = some (newId (n + i)))
    (hheld : ∀ y ∈ k.imported, y ∉ k.held) {x : String} :
    k.Follows x (renamed (minted newId n k.exported) x) ↔
      x ∈ k.exported ∨ Unknown k.source k.held x := by
  by_cases hx : x ∈ k.exported
  · obtain ⟨i, hi⟩ := List.mem_iff_getElem?.mp hx
    obtain ⟨hlt, -⟩ := List.getElem?_eq_some_iff.mp hi
    have hcopy := himported i hlt
    rw [renamed_minted hdistinct hi]
    exact iff_of_true ⟨fun _ => ⟨i, hi, hcopy⟩, hheld _ (List.mem_of_getElem? hcopy)⟩ (.inl hx)
  · rw [renamed_minted_of_not_mem hx, or_iff_right hx]
    refine and_congr_left fun _ => ⟨fun h hsource => ?_, fun h => fun hsource => absurd hsource h⟩
    obtain ⟨i, hi, -⟩ := h hsource
    exact hx (List.mem_of_getElem? hi)

/-! ### The imported records and the exported ones -/

section Copies

variable (v t : Collections) (p p' : Payload)

def walletRefs : Ids :=
  { source := v.wallets.records.map (·.id), exported := [p.wallet.id], imported := [p'.wallet.id]
    held := t.wallets.records.map (·.id) }

def accountRefs : Ids :=
  { source := v.accounts.records.map (·.id), exported := p.accounts.map (·.id)
    imported := p'.accounts.map (·.id), held := t.accounts.records.map (·.id) }

def addressRefs : Ids :=
  { source := v.addresses.records.map (·.id), exported := p.addresses.map (·.id)
    imported := p'.addresses.map (·.id), held := t.addresses.records.map (·.id) }

def pendingTxRefs : Ids :=
  { source := v.pendingTxs.records.map (·.id), exported := p.pendingTxs.map (·.id)
    imported := p'.pendingTxs.map (·.id), held := t.pendingTxs.records.map (·.id) }

/-- The ids of wallets and of the records of signers; a wallet's own keys are named by its id. -/
def signerIdsOf (v : Collections) : List String :=
  v.wallets.records.map (·.id) ++ (v.perWallet .signers).records.map (·.id)

def signerRefs : Ids :=
  { source := signerIdsOf v, exported := [p.wallet.id], imported := [p'.wallet.id]
    held := signerIdsOf t }

/-- The imported records are the exported ones with other ids, and every reference follows. -/
structure Isomorphic : Prop where
  wallet : p'.wallet.body = p.wallet.body
  importedKeys : List.Forall₂ (addressRefs v t p p').Follows (p.wallet.importedKeys.map (·.addressId))
    (p'.wallet.importedKeys.map (·.addressId))
  accounts : List.Forall₂ (fun a a' => a'.body = a.body ∧
    (walletRefs v t p p').Follows a.walletId a'.walletId ∧
    List.Forall₂ (fun r r' => r'.1 = r.1 ∧ (addressRefs v t p p').Follows r.2 r'.2)
      a.activeAddressByChainId a'.activeAddressByChainId) p.accounts p'.accounts
  addresses : List.Forall₂ (fun a a' =>
    a' = { a with id := a'.id, accountId := a'.accountId, signerId := a'.signerId } ∧
      Option.Rel (accountRefs v t p p').Follows a.accountId a'.accountId ∧
      Option.Rel (signerRefs v t p p').Follows a.signerId a'.signerId) p.addresses p'.addresses
  connectedSites : List.Forall₂ (fun site site' => site' = { site with accounts := site'.accounts } ∧
    Option.Rel (List.Forall₂ (accountRefs v t p p').Follows) site.accounts site'.accounts)
    p.connectedSites p'.connectedSites
  pendingTxs : List.Forall₂ (fun q q' =>
    q' = { q with id := q'.id, rbfReplacesPendingTxId := q'.rbfReplacesPendingTxId } ∧
      Option.Rel (pendingTxRefs v t p p').Follows q.rbfReplacesPendingTxId q'.rbfReplacesPendingTxId)
    p.pendingTxs p'.pendingTxs
  contacts : p'.contacts = p.contacts
  settings : p'.settings = p.settings

/-- What is not rewritten names no record, and what is rewritten names none that is not in the backup. -/
structure NamesNone : Prop where
  active : ∀ a ∈ p.accounts, ∀ r ∈ a.activeAddressByChainId,
    Unknown (v.addresses.records.map (·.id)) (t.addresses.records.map (·.id)) r.2
  signer : ∀ a ∈ p.addresses, ∀ x ∈ a.signerId, Unknown (signerIdsOf v) (signerIdsOf t) x
  replaced : ∀ q ∈ p.pendingTxs, ∀ x ∈ q.rbfReplacesPendingTxId,
    Unknown (v.pendingTxs.records.map (·.id)) (t.pendingTxs.records.map (·.id)) x
  account : ∀ a ∈ p.addresses, ∀ x ∈ a.accountId, x ∈ p.accounts.map (·.id) ∨
    Unknown (v.accounts.records.map (·.id)) (t.accounts.records.map (·.id)) x
  imported : ∀ k ∈ p.wallet.importedKeys, k.addressId ∈ p.addresses.map (·.id) ∨
    Unknown (v.addresses.records.map (·.id)) (t.addresses.records.map (·.id)) k.addressId

end Copies

theorem forall₂_mapIdx {α β : Type} {R : α → β → Prop} {l : List α} {f : ℕ → α → β} :
    List.Forall₂ R l (l.mapIdx f) ↔ ∀ i a, l[i]? = some a → R a (f i a) := by
  induction l generalizing f with
  | nil => simp
  | cons a l ih =>
    rw [List.mapIdx_cons, List.forall₂_cons, ih]
    constructor
    · rintro ⟨hfirst, hrest⟩ i b hb
      rcases i with - | i
      · obtain ⟨⟩ := hb
        exact hfirst
      · exact hrest i b hb
    · exact fun h => ⟨h 0 a rfl, fun i b hb => h (i + 1) b hb⟩

theorem optionRel_map {α : Type} {R : α → α → Prop} {o : Option α} {f : α → α} :
    Option.Rel R o (o.map f) ↔ ∀ x ∈ o, R x (f x) := by
  cases o with
  | none | some a => simp

theorem optionRel_self {α : Type} {R : α → α → Prop} {o : Option α} :
    Option.Rel R o o ↔ ∀ x ∈ o, R x x := by
  have hmap := optionRel_map (R := R) (o := o) (f := id)
  rwa [Option.map_id] at hmap

/-! ### Which references follow -/

/-- The ids of a backup are distinct, its accounts are of its wallet and its grants of its accounts. -/
structure Exported (p : Payload) : Prop where
  accounts : (p.accounts.map (·.id)).Nodup
  addresses : (p.addresses.map (·.id)).Nodup
  walletId : ∀ a ∈ p.accounts, a.walletId = p.wallet.id
  granted : ∀ site ∈ p.connectedSites, ∀ granted ∈ site.accounts, ∀ x ∈ granted, x ∈ p.accounts.map (·.id)

/-- The wallet of the backup under another seal. -/
structure Rekeyed (wallet rekeyed : Wallet) : Prop where
  id_eq : rekeyed.id = wallet.id
  body_eq : rekeyed.body = wallet.body
  keys_eq : rekeyed.importedKeys.map (·.addressId) = wallet.importedKeys.map (·.addressId)

section Follow

variable {v t : Collections} {p : Payload} {rekeyed : Wallet} {newId : ℕ → String}

theorem not_mem_of_get_eq_none {α : Type} {key : α → String} {table : Keyed.Table key} {id : String}
    (h : table.get id = none) : id ∉ table.records.map key := by
  intro hmem
  obtain ⟨a, ha, rfl⟩ := List.mem_map.mp hmem
  exact table.get_eq_none.mp h a ha rfl

theorem getElem?_map_mapIdx {α : Type} (key : α → String) (n : ℕ) {f : ℕ → α → α}
    (hkey : ∀ i a, key (f i a) = newId (n + i)) (l : List α) {i : ℕ} (hi : i < l.length) :
    ((l.mapIdx f).map key)[i]? = some (newId (n + i)) := by
  rw [List.getElem?_map, List.getElem?_mapIdx, List.getElem?_eq_getElem hi]
  exact congrArg some (hkey i _)

theorem mem_map_mapIdx {α : Type} (key : α → String) (n : ℕ) {f : ℕ → α → α}
    (hkey : ∀ i a, key (f i a) = newId (n + i)) {l : List α} {y : String}
    (hy : y ∈ (l.mapIdx f).map key) : ∃ m, y = newId m := by
  obtain ⟨b, hb, rfl⟩ := List.mem_map.mp hy
  obtain ⟨i, hi, rfl⟩ := mem_mapIdx.mp hb
  exact ⟨n + i, hkey i _⟩

theorem mem_imported_accounts {y : String}
    (hy : y ∈ (remintIdentifiers newId p).accounts.map (·.id)) : ∃ m, y = newId m :=
  mem_map_mapIdx Account.id 1 (fun _ _ => rfl) hy

theorem mem_imported_addresses {y : String}
    (hy : y ∈ (remintIdentifiers newId p).addresses.map (·.id)) : ∃ m, y = newId m :=
  mem_map_mapIdx Address.id (1 + p.accounts.length) (fun _ _ => rfl) hy

theorem mem_imported_pendingTxs {y : String}
    (hy : y ∈ (remintIdentifiers newId p).pendingTxs.map (·.id)) : ∃ m, y = newId m :=
  mem_map_mapIdx PendingRecord.id (1 + p.accounts.length + p.addresses.length)
    (fun _ _ => rfl) hy

theorem accounts_follow_iff (hexported : Exported p) (ht : Fresh newId t) (hv : Fresh newId v)
    (hrekeyed : Rekeyed p.wallet rekeyed) :
    List.Forall₂ (fun a a' => a'.body = a.body ∧
        (walletRefs v t p (remintIdentifiers newId { p with wallet := rekeyed })).Follows
          a.walletId a'.walletId ∧
        List.Forall₂ (fun r r' => r'.1 = r.1 ∧
            (addressRefs v t p (remintIdentifiers newId { p with wallet := rekeyed })).Follows r.2 r'.2)
          a.activeAddressByChainId a'.activeAddressByChainId)
      p.accounts (remintIdentifiers newId { p with wallet := rekeyed }).accounts ↔
      ∀ a ∈ p.accounts, ∀ r ∈ a.activeAddressByChainId,
        Unknown (v.addresses.records.map (·.id)) (t.addresses.records.map (·.id)) r.2 := by
  have hactive := @Ids.follows_self
    (addressRefs v t p (remintIdentifiers newId { p with wallet := rekeyed })) fun y hy => by
      obtain ⟨m, rfl⟩ := mem_imported_addresses hy
      exact not_mem_of_get_eq_none (hv.addresses m)
  rw [remintIdentifiers, forall₂_mapIdx]
  constructor
  · intro h a ha r hr
    obtain ⟨i, hi⟩ := List.mem_iff_getElem?.mp ha
    obtain ⟨-, -, hsame⟩ := h i a hi
    exact hactive.mp (forall₂_same.mp hsame r hr).2
  · intro h i a hi
    have ha := List.mem_of_getElem? hi
    refine ⟨rfl, ?_, forall₂_same.mpr fun r hr => ⟨rfl, hactive.mpr (h a ha r hr)⟩⟩
    -- The account is of the wallet, which has got the first new id.
    have hwallet : a.walletId = rekeyed.id := (hexported.walletId a ha).trans hrekeyed.id_eq.symm
    have hrenamed : renamed (minted newId 0 [rekeyed.id]) rekeyed.id = newId (0 + 0) :=
      renamed_minted (List.nodup_singleton rekeyed.id) rfl
    rw [hwallet]
    refine ⟨fun _ => ⟨0, congrArg some hrekeyed.id_eq.symm, congrArg some hrenamed.symm⟩, ?_⟩
    rw [walletIdMap, hrenamed]
    exact not_mem_of_get_eq_none (ht.wallets 0)

/-- References to accounts are renamed. -/
theorem accountRefs_follows_iff (hexported : Exported p) (ht : Fresh newId t) {x : String} :
    (accountRefs v t p (remintIdentifiers newId { p with wallet := rekeyed })).Follows x
        (renamed (accountIdMap newId { p with wallet := rekeyed }) x) ↔
      x ∈ p.accounts.map (·.id) ∨
        Unknown (v.accounts.records.map (·.id)) (t.accounts.records.map (·.id)) x := by
  refine Ids.follows_renamed (k := accountRefs v t p _) (n := 1) hexported.accounts (fun i hi => ?_)
    fun y hy => ?_
  · exact getElem?_map_mapIdx Account.id 1 (fun _ _ => rfl) p.accounts (by simpa [accountRefs] using hi)
  · obtain ⟨m, rfl⟩ := mem_imported_accounts hy
    exact not_mem_of_get_eq_none (ht.accounts m)

/-- References to addresses are renamed where imported keys make them. -/
theorem addressRefs_follows_iff (hexported : Exported p) (ht : Fresh newId t) {x : String} :
    (addressRefs v t p (remintIdentifiers newId { p with wallet := rekeyed })).Follows x
        (renamed (addressIdMap newId { p with wallet := rekeyed }) x) ↔
      x ∈ p.addresses.map (·.id) ∨
        Unknown (v.addresses.records.map (·.id)) (t.addresses.records.map (·.id)) x := by
  refine Ids.follows_renamed (k := addressRefs v t p _) (n := 1 + p.accounts.length) hexported.addresses
    (fun i hi => ?_) fun y hy => ?_
  · exact getElem?_map_mapIdx Address.id (1 + p.accounts.length) (fun _ _ => rfl) p.addresses (by simpa [addressRefs] using hi)
  · obtain ⟨m, rfl⟩ := mem_imported_addresses hy
    exact not_mem_of_get_eq_none (ht.addresses m)

theorem importedKeys_follow_iff (hexported : Exported p) (ht : Fresh newId t)
    (hrekeyed : Rekeyed p.wallet rekeyed) :
    List.Forall₂ (addressRefs v t p (remintIdentifiers newId { p with wallet := rekeyed })).Follows
        (p.wallet.importedKeys.map (·.addressId))
        ((remintIdentifiers newId { p with wallet := rekeyed }).wallet.importedKeys.map (·.addressId)) ↔
      ∀ k ∈ p.wallet.importedKeys, k.addressId ∈ p.addresses.map (·.id) ∨
        Unknown (v.addresses.records.map (·.id)) (t.addresses.records.map (·.id)) k.addressId := by
  have himported : (remintIdentifiers newId { p with wallet := rekeyed }).wallet.importedKeys.map
      (·.addressId) = (p.wallet.importedKeys.map (·.addressId)).map
        (renamed (addressIdMap newId { p with wallet := rekeyed })) := by
    rw [← hrekeyed.keys_eq, remintIdentifiers]
    simp only [List.map_map, Function.comp_def]
  rw [himported, List.forall₂_map_right_iff, forall₂_same, List.forall_mem_map]
  exact forall₂_congr fun k _ => addressRefs_follows_iff hexported ht

theorem addresses_follow_iff (hexported : Exported p) (ht : Fresh newId t) (hv : Fresh newId v) :
    List.Forall₂ (fun a a' =>
        a' = { a with id := a'.id, accountId := a'.accountId, signerId := a'.signerId } ∧
          Option.Rel (accountRefs v t p (remintIdentifiers newId { p with wallet := rekeyed })).Follows
            a.accountId a'.accountId ∧
          Option.Rel (signerRefs v t p (remintIdentifiers newId { p with wallet := rekeyed })).Follows
            a.signerId a'.signerId)
      p.addresses (remintIdentifiers newId { p with wallet := rekeyed }).addresses ↔
      ∀ a ∈ p.addresses,
        (∀ x ∈ a.accountId, x ∈ p.accounts.map (·.id) ∨
          Unknown (v.accounts.records.map (·.id)) (t.accounts.records.map (·.id)) x) ∧
        ∀ x ∈ a.signerId, Unknown (signerIdsOf v) (signerIdsOf t) x := by
  have hsigner := @Ids.follows_self
    (signerRefs v t p (remintIdentifiers newId { p with wallet := rekeyed })) fun y hy => by
      obtain rfl := mem_singleton.mp hy
      refine List.not_mem_append ?_ ?_
      · exact not_mem_of_get_eq_none (hv.wallets 0)
      · exact not_mem_of_get_eq_none (hv.signers 0)
  have hrelations : ∀ a : Address,
      (Option.Rel (accountRefs v t p (remintIdentifiers newId { p with wallet := rekeyed })).Follows a.accountId
          (a.accountId.map (renamed (accountIdMap newId { p with wallet := rekeyed }))) ∧
        Option.Rel (signerRefs v t p (remintIdentifiers newId { p with wallet := rekeyed })).Follows
          a.signerId a.signerId) ↔
      (∀ x ∈ a.accountId, x ∈ p.accounts.map (·.id) ∨
          Unknown (v.accounts.records.map (·.id)) (t.accounts.records.map (·.id)) x) ∧
        ∀ x ∈ a.signerId, Unknown (signerIdsOf v) (signerIdsOf t) x := by
    intro a
    rw [optionRel_map, optionRel_self]
    refine and_congr (forall₂_congr fun x _ => accountRefs_follows_iff hexported ht) ?_
    exact forall₂_congr fun x _ => hsigner
  rw [show (remintIdentifiers newId { p with wallet := rekeyed }).addresses = p.addresses.mapIdx fun i a =>
    { a with
      id := newId (1 + p.accounts.length + i)
      accountId := a.accountId.map (renamed (accountIdMap newId { p with wallet := rekeyed })) } from rfl,
    forall₂_mapIdx]
  constructor
  · intro h a ha
    obtain ⟨i, hi⟩ := List.mem_iff_getElem?.mp ha
    exact (hrelations a).mp (h i a hi).2
  · exact fun h i a hi => ⟨rfl, (hrelations a).mpr (h a (List.mem_of_getElem? hi))⟩

theorem pendingTxs_follow_iff (hv : Fresh newId v) :
    List.Forall₂ (fun q q' => q' = { q with id := q'.id, rbfReplacesPendingTxId := q'.rbfReplacesPendingTxId } ∧
        Option.Rel (pendingTxRefs v t p (remintIdentifiers newId { p with wallet := rekeyed })).Follows
          q.rbfReplacesPendingTxId q'.rbfReplacesPendingTxId)
      p.pendingTxs (remintIdentifiers newId { p with wallet := rekeyed }).pendingTxs ↔
      ∀ q ∈ p.pendingTxs, ∀ x ∈ q.rbfReplacesPendingTxId,
        Unknown (v.pendingTxs.records.map (·.id)) (t.pendingTxs.records.map (·.id)) x := by
  have hreplaced := @Ids.follows_self
    (pendingTxRefs v t p (remintIdentifiers newId { p with wallet := rekeyed })) fun y hy => by
      obtain ⟨m, rfl⟩ := mem_imported_pendingTxs hy
      exact not_mem_of_get_eq_none (hv.pendingTxs m)
  rw [show (remintIdentifiers newId { p with wallet := rekeyed }).pendingTxs = p.pendingTxs.mapIdx fun i q =>
    { q with id := newId (1 + p.accounts.length + p.addresses.length + i) } from rfl, forall₂_mapIdx]
  constructor
  · intro h q hq x hx
    obtain ⟨i, hi⟩ := List.mem_iff_getElem?.mp hq
    exact hreplaced.mp (optionRel_self.mp (h i q hi).2 x hx)
  · exact fun h i q hi => ⟨rfl, optionRel_self.mpr fun x hx =>
      hreplaced.mpr (h q (List.mem_of_getElem? hi) x hx)⟩

/-- Grants follow always. -/
theorem connectedSites_follow (hexported : Exported p) (ht : Fresh newId t) :
    List.Forall₂ (fun site site' => site' = { site with accounts := site'.accounts } ∧
        Option.Rel (List.Forall₂
            (accountRefs v t p (remintIdentifiers newId { p with wallet := rekeyed })).Follows)
          site.accounts site'.accounts)
      p.connectedSites (remintIdentifiers newId { p with wallet := rekeyed }).connectedSites := by
  rw [show (remintIdentifiers newId { p with wallet := rekeyed }).connectedSites =
    p.connectedSites.map fun site =>
      { site with
        accounts :=
          site.accounts.map (List.map (renamed (accountIdMap newId { p with wallet := rekeyed }))) } from rfl,
    List.forall₂_map_right_iff, forall₂_same]
  refine fun site hsite => ⟨rfl, optionRel_map.mpr fun granted hgranted => ?_⟩
  rw [List.forall₂_map_right_iff, forall₂_same]
  exact fun x hx => (accountRefs_follows_iff hexported ht).mpr
    (.inl (hexported.granted site hsite granted hgranted x hx))

/-- **What follows where a backup is given new ids.** -/
theorem isomorphic_remint_iff (hexported : Exported p) (ht : Fresh newId t) (hv : Fresh newId v)
    (hrekeyed : Rekeyed p.wallet rekeyed) :
    Isomorphic v t p (remintIdentifiers newId { p with wallet := rekeyed }) ↔ NamesNone v t p := by
  constructor
  · intro h
    have haddresses := (addresses_follow_iff hexported ht hv).mp h.addresses
    exact
      { active := (accounts_follow_iff hexported ht hv hrekeyed).mp h.accounts
        signer := fun a ha => (haddresses a ha).2
        replaced := (pendingTxs_follow_iff hv).mp h.pendingTxs
        account := fun a ha => (haddresses a ha).1
        imported := (importedKeys_follow_iff hexported ht hrekeyed).mp h.importedKeys }
  · intro h
    exact
      { wallet := hrekeyed.body_eq
        importedKeys := (importedKeys_follow_iff hexported ht hrekeyed).mpr h.imported
        accounts := (accounts_follow_iff hexported ht hv hrekeyed).mpr h.active
        addresses :=
          (addresses_follow_iff hexported ht hv).mpr fun a ha => ⟨h.account a ha, h.signer a ha⟩
        connectedSites := connectedSites_follow hexported ht
        pendingTxs := (pendingTxs_follow_iff hv).mpr h.replaced
        contacts := rfl
        settings := rfl }

end Follow

/-! ### An exported wallet -/

/-- Migrations return the records of the backup as they are. -/
structure Current (schema : Schema) (p : Payload) : Prop where
  wallet : schema.migrateWallet p.wallet = .ok p.wallet
  accounts : ∀ a ∈ p.accounts, schema.migrateAccount a = .ok a
  addresses : ∀ a ∈ p.addresses, schema.migrateAddress a = .ok a
  contacts : ∀ c ∈ p.contacts, schema.migrateContact c = .ok c
  connectedSites : ∀ s ∈ p.connectedSites, schema.migrateConnectedSite s = .ok s
  pendingTxs : ∀ q ∈ p.pendingTxs, schema.migratePendingTx q = .ok q
  settings : ∀ s ∈ p.settings, schema.migrateSettings s = .ok s

theorem migratePayloadRecords_eq {α : Type} {name : Name} {key : α → String}
    {migrateRecord : α → Except String α} {records out : List α}
    (h : migratePayloadRecords name key migrateRecord records = .ok out)
    (hcurrent : ∀ r ∈ records, migrateRecord r = .ok r) : out = records := by
  have heq := eq_map_of_mapM_eq_ok (g := Prod.fst) h fun record hrecord b hb => by
    by_cases hempty : key record.1 = ""
    · rw [if_pos hempty] at hb
      exact absurd hb (by rintro ⟨⟩)
    · rw [if_neg hempty, hcurrent record.1 (List.fst_mem_of_mem_zipIdx hrecord)] at hb
      exact (Except.ok.inj hb).symm
  rw [heq]
  exact List.zipIdx_map_fst 0 records

theorem scopeSite_cons {ids : List String} {site : ConnectedSite} {first : String} {rest : List String}
    (haccounts : site.accounts = some (first :: rest)) :
    scopeSite ids site = if (first :: rest).filter (· ∈ ids) = [] then []
      else [{ site with accounts := some ((first :: rest).filter (· ∈ ids)) }] := by
  rw [scopeSite, haccounts]

theorem scopeSite_of_mem {ids : List String} {site narrowed : ConnectedSite} (h : narrowed ∈ scopeSite ids site) :
    scopeSite ids narrowed = [narrowed] ∧ ∀ granted ∈ narrowed.accounts, ∀ x ∈ granted, x ∈ ids := by
  rcases haccounts : site.accounts with - | granted
  · rw [scopeSite, haccounts] at h
    obtain rfl := mem_singleton.mp h
    refine ⟨by rw [scopeSite, haccounts], fun granted hgranted => ?_⟩
    rw [haccounts] at hgranted
    exact absurd hgranted (by rintro ⟨⟩)
  · rcases granted with - | ⟨first, rest⟩
    · rw [scopeSite, haccounts] at h
      obtain rfl := mem_singleton.mp h
      refine ⟨by rw [scopeSite, haccounts], fun granted hgranted x hx => ?_⟩
      rw [haccounts] at hgranted
      obtain ⟨⟩ := hgranted
      exact absurd hx not_mem_nil
    · rw [scopeSite_cons haccounts] at h
      by_cases hnone : (first :: rest).filter (· ∈ ids) = []
      · rw [if_pos hnone] at h
        exact absurd h not_mem_nil
      · rw [if_neg hnone] at h
        obtain rfl := mem_singleton.mp h
        have hscoped : ∀ x ∈ (first :: rest).filter (· ∈ ids), x ∈ ids := fun x hx =>
          of_decide_eq_true (List.mem_filter.mp hx).2
        have hfilter : ((first :: rest).filter (· ∈ ids)).filter (· ∈ ids) =
            (first :: rest).filter (· ∈ ids) :=
          List.filter_eq_self.mpr fun x hx => decide_eq_true (hscoped x hx)
        obtain ⟨head, tail, hcons⟩ := List.exists_cons_of_ne_nil hnone
        refine ⟨?_, fun granted hgranted x hx => ?_⟩
        · rw [hcons] at hfilter ⊢
          rw [scopeSite_cons rfl, hfilter, if_neg (List.cons_ne_nil head tail)]
        · obtain ⟨⟩ := hgranted
          exact hscoped x hx

section Export

variable {v : Collections} {wallet : Wallet} {includePendingTxs : Bool}

theorem exported_exportBackupFile : Exported (exportBackupFile v wallet includePendingTxs) where
  accounts := v.accounts.distinct.filter _
  addresses := v.addresses.distinct.filter _
  walletId a ha := of_decide_eq_true (List.mem_filter.mp ha).2
  granted site hsite := by
    obtain ⟨site₀, -, hscoped⟩ := List.mem_flatMap.mp hsite
    exact (scopeSite_of_mem hscoped).2

/-- Checking an exported wallet on import changes nothing. -/
theorem prepareDecodedPayload_export {schema : Schema} {prepared : Payload}
    (hcurrent : Current schema (exportBackupFile v wallet includePendingTxs))
    (h : prepareDecodedPayload schema (exportBackupFile v wallet includePendingTxs) = .ok prepared) :
    prepared = exportBackupFile v wallet includePendingTxs := by
  simp only [prepareDecodedPayload, bind_eq_ok, mapError_eq_ok, pure_eq_ok] at h
  obtain ⟨w, hw, accounts, haccounts, addresses, haddresses, contacts, hcontacts, sites, hsites, pendings,
    hpendings, settings, hsettings, -, -, -, -, -, -, -, -, -, -, -, -, -, -, -, -, rfl⟩ := h
  obtain rfl := Except.ok.inj (hcurrent.wallet.symm.trans hw)
  obtain rfl := migratePayloadRecords_eq haccounts hcurrent.accounts
  obtain rfl := migratePayloadRecords_eq haddresses hcurrent.addresses
  obtain rfl := migratePayloadRecords_eq hcontacts hcurrent.contacts
  obtain rfl := migratePayloadRecords_eq hsites hcurrent.connectedSites
  obtain rfl := migratePayloadRecords_eq hpendings hcurrent.pendingTxs
  have hset : settings = (exportBackupFile v wallet includePendingTxs).settings := by
    have hall := hcurrent.settings
    rcases hvalue : (exportBackupFile v wallet includePendingTxs).settings with - | s
    · rw [hvalue] at hsettings
      exact (Except.ok.inj hsettings).symm
    · rw [hvalue] at hsettings hall
      rw [migrateSettingsOf, hall s rfl] at hsettings
      exact (Except.ok.inj hsettings).symm
  have hpending : (exportBackupFile v wallet includePendingTxs).pendingTxs.filter (fun pending =>
      pendingScopeForPendingTx pending ∈
        (exportBackupFile v wallet includePendingTxs).addresses.map pendingScopeForAddress) =
      (exportBackupFile v wallet includePendingTxs).pendingTxs := by
    refine List.filter_eq_self.mpr fun q hq => ?_
    cases includePendingTxs with
    | false => exact absurd hq not_mem_nil
    | true => exact (List.mem_filter.mp hq).2
  have hscoped : (exportBackupFile v wallet includePendingTxs).connectedSites.flatMap
      (scopeSite ((exportBackupFile v wallet includePendingTxs).accounts.map (·.id))) =
      (exportBackupFile v wallet includePendingTxs).connectedSites := by
    refine (List.flatMap_congr fun site hsite => ?_).trans (List.flatMap_singleton' _)
    obtain ⟨site₀, -, hmem⟩ := List.mem_flatMap.mp hsite
    exact (scopeSite_of_mem hmem).1
  rw [hpending, hscoped, hset]

end Export

/-! ### The import of an exported wallet -/

section Import

variable {κ β φ : Type} {deps : Deps κ β φ} {opts : Opts} {v t : Collections} {p : Payload}
  {newId : ℕ → String}

theorem map_addressId_resealKeys (crypto : Crypto κ β) (key : κ) (n : ℕ) (keys : List ImportedKey)
    (wifs : List (Option β)) :
    (resealKeys crypto key n keys wifs).map (·.addressId) = keys.map (·.addressId) := by
  induction keys generalizing n wifs with
  | nil => rfl
  | cons k keys ih =>
    rcases wifs with - | ⟨wif, wifs⟩
    · rfl
    · rw [resealKeys, List.map_cons, List.map_cons, ih]

theorem rekeyed_rekeyWalletRecord {crypto : Crypto κ β} {onDeviceKey : κ → Schemas.KdfParams → Except String Unit}
    {walletPassword devicePassword : String} {wallet : Wallet} {rekeyed : Wallet × Bool}
    (h : rekeyWalletRecord crypto onDeviceKey walletPassword devicePassword wallet = .ok rekeyed) :
    Rekeyed wallet rekeyed.1 := by
  obtain ⟨hid, hbody⟩ := rekey_frame h
  refine ⟨hid, hbody, ?_⟩
  rw [rekeyWalletRecord] at h
  by_cases hmaterial : hasKeyMaterial wallet = true
  · rw [if_pos hmaterial] at h
    simp only [bind_eq_ok, mapError_eq_ok, pure_eq_ok] at h
    obtain ⟨-, -, -, -, oldKey, -, secrets, -, newKey, -, -, -, rfl⟩ := h
    exact map_addressId_resealKeys crypto newKey 1 wallet.importedKeys secrets.wifs
  · rw [if_neg hmaterial] at h
    obtain rfl := Except.ok.inj h
    rfl

/-- The wallet's own records are stored. -/
structure Stored (p : Payload) (t : Collections) : Prop where
  wallet : p.wallet ∈ t.wallets.records
  accounts : ∀ a ∈ p.accounts, a ∈ t.accounts.records
  addresses : ∀ a ∈ p.addresses, a ∈ t.addresses.records
  pendingTxs : ∀ q ∈ p.pendingTxs, q ∈ t.pendingTxs.records

/-- Records with distinct ids that are staged as they are are stored. -/
theorem Slot.mem_of_current {α : Type} {key : α → String} (slot : Slot key) (stage : α → Staged)
    {staged : List Staged} {onConflict : OnConflict} {migrateRecord : α → Except String α} {records : List α}
    (hpick : ∀ a, slot.pick (stage a) = some a)
    (hstage : ∀ a, Chosen (slot.table t) onConflict migrateRecord records a → stage a ∈ staged)
    (hcomes : ∀ entry ∈ staged, ∀ r, slot.pick entry = some r →
      Chosen (slot.table t) onConflict migrateRecord records r)
    (hcurrent : ∀ q ∈ records, migrateRecord q = .ok q) (hne : ∀ q ∈ records, key q ≠ "")
    (hnone : ∀ q ∈ records, (slot.table t).get (key q) = none)
    (hdistinct : ∀ q ∈ records, ∀ q' ∈ records, key q = key q' → q = q') {a : α} (ha : a ∈ records) :
    a ∈ (slot.table (staged.foldl Staged.put t)).records := by
  have hchosen : Chosen (slot.table t) onConflict migrateRecord records a := by
    refine ⟨a, ha, hne a ha, fun h => ?_, hcurrent a ha⟩
    rw [hnone a ha] at h
    exact absurd h.1 Bool.false_ne_true
  refine slot.mem_of_staged (hstage a hchosen) (hpick a) fun entry hentry r hr hkey => ?_
  obtain ⟨q, hq, -, -, hmigrated⟩ := hcomes entry hentry r hr
  obtain rfl := Except.ok.inj ((hcurrent q hq).symm.trans hmigrated)
  exact hdistinct q hq a ha hkey

/-- Records that are numbered by their place have distinct ids. -/
theorem eq_of_mapIdx {α : Type} (key : α → String) (n : ℕ) {f : ℕ → α → α} {l : List α}
    (hinjective : Function.Injective newId) (hkey : ∀ i a, key (f i a) = newId (n + i)) :
    ∀ q ∈ l.mapIdx f, ∀ q' ∈ l.mapIdx f, key q = key q' → q = q' := by
  intro q hq q' hq' heq
  obtain ⟨i, hi, rfl⟩ := mem_mapIdx.mp hq
  obtain ⟨j, hj, rfl⟩ := mem_mapIdx.mp hq'
  rw [hkey, hkey] at heq
  obtain rfl : i = j := Nat.add_left_cancel (hinjective heq)
  rfl

theorem stored (hsettles : deps.schema.Settles) (hinjective : Function.Injective deps.newId)
    (hfresh : Fresh deps.newId t) {rekeyed : Wallet} (hcurrent : Current deps.schema p)
    (hrekeyed : Rekeyed p.wallet rekeyed) {staged : List Staged}
    (hstaged : stageAll deps.schema t opts.onConflict opts.mode
      (remintIdentifiers deps.newId { p with wallet := rekeyed }) = .ok staged) :
    Stored (remintIdentifiers deps.newId { p with wallet := rekeyed }) (staged.foldl Staged.put t) := by
  obtain ⟨hcomes, hstage⟩ := mem_stageAll hstaged
  refine ⟨?_, fun a ha => ?_, fun a ha => ?_, fun q hq => ?_⟩
  · refine walletSlot.mem_of_current .wallet (fun _ => rfl)
      (fun a ha => hstage _ ha (by rintro r ⟨⟩)) ?_ ?_ ?_ ?_ ?_ (List.mem_singleton_self _)
    · rintro (r | r | r | r | r | r | r) hr r' ⟨⟩
      exact hcomes _ hr
    · intro q hq
      obtain rfl := mem_singleton.mp hq
      exact (hsettles.wallet _ _ hcurrent.wallet).2 _ hrekeyed.body_eq
    · intro q hq
      obtain rfl := mem_singleton.mp hq
      exact hfresh.ne 0
    · intro q hq
      obtain rfl := mem_singleton.mp hq
      exact hfresh.wallets 0
    · intro q hq q' hq' _
      exact (mem_singleton.mp hq).trans (mem_singleton.mp hq').symm
  · refine accountSlot.mem_of_current .account (fun _ => rfl)
      (fun a ha => hstage _ ha (by rintro r ⟨⟩)) ?_ ?_ ?_ ?_
      (eq_of_mapIdx Account.id 1 hinjective fun _ _ => rfl) ha
    · rintro (r | r | r | r | r | r | r) hr r' ⟨⟩
      exact hcomes _ hr
    · intro q hq
      obtain ⟨i, hi, rfl⟩ := mem_mapIdx.mp hq
      exact (hsettles.account _ _ (hcurrent.accounts _ (List.getElem_mem hi))).2 _ rfl
    · intro q hq
      obtain ⟨i, hi, rfl⟩ := mem_mapIdx.mp hq
      exact hfresh.ne _
    · intro q hq
      obtain ⟨i, hi, rfl⟩ := mem_mapIdx.mp hq
      exact hfresh.accounts _
  · refine addressSlot.mem_of_current .address (fun _ => rfl)
      (fun a ha => hstage _ ha (by rintro r ⟨⟩)) ?_ ?_ ?_ ?_
      (eq_of_mapIdx Address.id (1 + p.accounts.length) hinjective fun _ _ => rfl) ha
    · rintro (r | r | r | r | r | r | r) hr r' ⟨⟩
      exact hcomes _ hr
    · intro q hq
      obtain ⟨i, hi, rfl⟩ := mem_mapIdx.mp hq
      exact (hsettles.address _ _ (hcurrent.addresses _ (List.getElem_mem hi))).2 _ rfl
    · intro q hq
      obtain ⟨i, hi, rfl⟩ := mem_mapIdx.mp hq
      exact hfresh.ne _
    · intro q hq
      obtain ⟨i, hi, rfl⟩ := mem_mapIdx.mp hq
      exact hfresh.addresses _
  · refine pendingTxSlot.mem_of_current .pendingTx (fun _ => rfl)
      (fun a ha => hstage _ ha (by rintro r ⟨⟩)) ?_ ?_ ?_ ?_
      (eq_of_mapIdx PendingRecord.id (1 + p.accounts.length + p.addresses.length) hinjective
        fun _ _ => rfl) hq
    · rintro (r | r | r | r | r | r | r) hr r' ⟨⟩
      exact hcomes _ hr
    · intro q hq
      obtain ⟨i, hi, rfl⟩ := mem_mapIdx.mp hq
      exact (hsettles.pendingTx _ _ (hcurrent.pendingTxs _ (List.getElem_mem hi))).2 _
    · intro q hq
      obtain ⟨i, hi, rfl⟩ := mem_mapIdx.mp hq
      exact hfresh.ne _
    · intro q hq
      obtain ⟨i, hi, rfl⟩ := mem_mapIdx.mp hq
      exact hfresh.pendingTxs _

/-- **A wallet that joins others.** A backup of a wallet of `v` that is added to the vault of `w` is stored
with new ids. The imported records are the exported ones, with every reference following, exactly if no
override of an active address, no signer of an address and no replaced transaction names a record, and
no account or imported key of the backup names one that is not in it. -/
theorem importBackupFile_add_copies_iff (deps : Deps κ β φ) (hsettles : deps.schema.Settles)
    (hinjective : Function.Injective deps.newId) (opts : Opts) (hmode : opts.mode = .add) (fileContent : φ)
    (v : Collections) (wallet : Wallet) (includePendingTxs : Bool) (w : Flaky Collections)
    (hdecode : deps.decode opts.password fileContent = .ok (exportBackupFile v wallet includePendingTxs))
    (hcurrent : Current deps.schema (exportBackupFile v wallet includePendingTxs))
    (hsource : Fresh deps.newId v) (hfresh : Fresh deps.newId w.store) {result : ImportResult}
    {w' : Flaky Collections} {n : List Empty}
    (hrun : (importBackupFile deps opts fileContent).run w = (.ok result, w', n)) :
    Stored result.payload w'.store ∧
      (Isomorphic v w.store (exportBackupFile v wallet includePendingTxs) result.payload ↔
        NamesNone v w.store (exportBackupFile v wallet includePendingTxs)) := by
  obtain ⟨staged, hplan, hstore⟩ := triple_importBackupFile.returns hrun rfl
  obtain ⟨decoded, prepared, rekeyed, hdecoded, hprepared, -, hrekeyed, hpayload, -, -, -, hstaged⟩ :=
    planImport_eq_ok hplan
  obtain rfl := Except.ok.inj (hdecode.symm.trans hdecoded)
  obtain rfl := prepareDecodedPayload_export hcurrent hprepared
  have hwallet := rekeyed_rekeyWalletRecord hrekeyed
  have hminted : result.payload =
      remintIdentifiers deps.newId { exportBackupFile v wallet includePendingTxs with wallet := rekeyed.1 } :=
    hpayload.trans (if_pos hmode)
  rw [hminted] at hstaged
  rw [hminted, hstore]
  exact ⟨stored hsettles hinjective hfresh hcurrent hwallet hstaged,
    isomorphic_remint_iff exported_exportBackupFile hfresh hsource hwallet⟩

end Import

private def plainAccount (active : List (String × String)) : Account := ⟨"a", "w", active, .null⟩

private def plainAddress : Address := ⟨"d", some "a", none, "BTC", "mainnet", "bc1q", .null⟩

private def plainWallet : Wallet :=
  { id := "w", encryptedSeed := "aseed", encryptedPassphrase := none
    kdfParams := { salt := "s", iterations := 3, memory := 65536, parallelism := 1 }
    importedKeys := [], body := .null }

private def oneAccount (active : List (String × String)) : Collections :=
  { wallets := .singleton plainWallet
    accounts := .singleton (plainAccount active)
    addresses := .singleton plainAddress, contacts := .empty
    connectedSites := .empty, pendingTxs := .empty, perWallet := fun _ => .empty
    settings := none }

private def added : Opts :=
  { password := "f", walletPassword := "a", devicePassword := "b", onConflict := .error, mode := .add }

private theorem fresh_oneAccount : Fresh Deps.plain.newId (oneAccount []) := by
  have hlist : ∀ n, (Deps.plain.newId n).toList = List.replicate (n + 1) 'i' := fun n => String.toList_ofList
  have hne : ∀ n id, id ∈ ["", "w", "a", "d"] → id ≠ Deps.plain.newId n := by
    rintro n id hid rfl
    have hhead := hlist n
    simp only [List.mem_cons, not_mem_nil, or_false] at hid
    rcases hid with hid | hid | hid | hid <;>
      · rw [hid, List.replicate_succ] at hhead
        exact absurd hhead (by simp)
  refine ⟨fun n => (hne n "" (by simp)).symm, fun n => ?_, fun n => ?_, fun n => ?_, fun _ => rfl, fun _ => rfl⟩ <;>
    refine (Keyed.Table.get_eq_none _).mpr fun r hr => ?_ <;>
    obtain rfl := mem_singleton.mp hr
  · exact hne n "w" (by simp)
  · exact hne n "a" (by simp)
  · exact hne n "d" (by simp)

/-- A wallet without overrides and signers is copied. -/
theorem importBackupFile_add_copies_iff_plain :
    ∃ result w' n, (importBackupFile Deps.plain added
        ("f", exportBackupFile (oneAccount []) plainWallet true)).run
          ⟨oneAccount [], fun _ => true⟩ = (.ok result, w', n) ∧
      Isomorphic (oneAccount []) (oneAccount []) (exportBackupFile (oneAccount []) plainWallet true)
        result.payload := by
  refine ⟨_, _, _, rfl, ?_⟩
  refine ((importBackupFile_add_copies_iff Deps.plain Schema.asItIs_settles Deps.plain_injective added rfl
    ("f", exportBackupFile (oneAccount []) plainWallet true) (oneAccount []) plainWallet true
    ⟨oneAccount [], fun _ => true⟩ rfl
    ⟨rfl, fun _ _ => rfl, fun _ _ => rfl, fun _ _ => rfl, fun _ _ => rfl, fun _ _ => rfl, fun _ _ => rfl⟩
    fresh_oneAccount fresh_oneAccount rfl).2).mpr ?_
  have haccounts : (exportBackupFile (oneAccount []) plainWallet true).accounts = [plainAccount []] := rfl
  have haddresses : (exportBackupFile (oneAccount []) plainWallet true).addresses = [plainAddress] := rfl
  refine ⟨fun a ha r hr => ?_, fun a ha x hx => ?_, fun q hq => absurd hq List.not_mem_nil, fun a ha x hx => ?_,
    fun k hk => absurd hk List.not_mem_nil⟩
  · rw [haccounts] at ha
    obtain rfl := List.mem_singleton.mp ha
    exact absurd hr List.not_mem_nil
  · rw [haddresses] at ha
    obtain rfl := List.mem_singleton.mp ha
    exact absurd hx (by rintro ⟨⟩)
  · rw [haddresses] at ha
    obtain rfl := List.mem_singleton.mp ha
    obtain ⟨⟩ := hx
    exact .inl (List.mem_singleton_self _)

/-- References do not always follow: an account that was given an active address names the old address
after the import. -/
theorem not_importBackupFile_add_copies :
    ¬ ∀ (v t : Collections) (wallet : Wallet) (result : ImportResult) (w' : Flaky Collections)
      (n : List Empty), (importBackupFile Deps.plain added ("f", exportBackupFile v wallet true)).run
        ⟨t, fun _ => true⟩ = (.ok result, w', n) →
      Isomorphic v t (exportBackupFile v wallet true) result.payload := by
  intro hcopies
  have hisomorphic := hcopies (oneAccount [("BTC", "d")]) (oneAccount []) plainWallet _ _ _ rfl
  obtain ⟨⟨-, -, hactive⟩, -⟩ := List.forall₂_cons.mp hisomorphic.accounts
  obtain ⟨⟨-, hfollows, -⟩, -⟩ := List.forall₂_cons.mp hactive
  obtain ⟨i, -, hi⟩ := hfollows (List.mem_singleton_self _)
  rcases i with - | i
  · exact absurd (Option.some.inj hi) (by decide)
  · exact absurd hi (by rintro ⟨⟩)

end XchainWallet.BackupFile
