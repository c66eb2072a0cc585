import XchainWallet.Flows.RemoveWallet

/-!
# What is left of a removed wallet

Over any sequence of calls, resolved or failed: no record of another wallet is deleted or changed,
except that sites lose the grants of the removed wallet's accounts (`Kept`), and what a later call needs
to find the rest is still there (`Findable`), save for the pending transactions. After a call that
resolved, nothing of the wallet is left exactly if each of its pending transactions still had its
address before that call (`removeWallet_clears_iff`).
-/

namespace XchainWallet.RemoveWallet

open Traced Schemas PendingLedger

/-! ### Tables that lose records -/

section Between

variable {α κ : Type} {key : α → κ}

/-- The table lost records that are owned, and nothing else. -/
structure Between (owned : α → Prop) (before after : Keyed.Table key) : Prop where
  mem_of_mem : ∀ a ∈ after.records, a ∈ before.records
  mem_of_not_owned : ∀ a ∈ before.records, ¬ owned a → a ∈ after.records

variable {owned : α → Prop} {before after : Keyed.Table key}

theorem Between.refl (owned : α → Prop) (t : Keyed.Table key) : Between owned t t :=
  ⟨fun _ h => h, fun _ h _ => h⟩

theorem Between.delete [DecidableEq κ] (h : Between owned before after) {a : α} (ha : a ∈ before.records)
    (howned : owned a) : Between owned before (after.delete (key a)) where
  mem_of_mem b hb := h.mem_of_mem b (Keyed.Table.mem_delete.mp hb).1
  mem_of_not_owned b hb hnot := by
    refine Keyed.Table.mem_delete.mpr ⟨h.mem_of_not_owned b hb hnot, fun hk => ?_⟩
    rw [before.eq_of_key_eq hb ha hk] at hnot
    exact hnot howned

/-- What was owned in the middle was owned at first. -/
theorem Between.trans {middle : Keyed.Table key} {owned' : α → Prop} (h : Between owned before middle)
    (h' : Between owned' middle after) (howned : ∀ a ∈ middle.records, owned' a → owned a) :
    Between owned before after where
  mem_of_mem a ha := h.mem_of_mem a (h'.mem_of_mem a ha)
  mem_of_not_owned a ha hnot := by
    have hmiddle := h.mem_of_not_owned a ha hnot
    exact h'.mem_of_not_owned a hmiddle fun hown => hnot (howned a hmiddle hown)

end Between

/-! ### What a call leaves of everything else -/

/-- A site as it was, or without the wallet's accounts. -/
def SiteOf (v : Collections) (walletId : String) (site after : ConnectedSite) : Prop :=
  after = site ∨ after = pruned v walletId site

/-- The grant names accounts, all of them of the wallet. -/
def NamesOnly (v : Collections) (walletId : String) (site : ConnectedSite) : Prop :=
  Names v walletId site ∧ grantedAccounts (pruned v walletId site) = []

/-- **Only the wallet's records are gone.** What `after` holds, `before` held, and what it lost belongs
to the wallet; a site may have lost the wallet's accounts, and is gone only if it named no others. -/
structure Kept (before : Collections) (walletId : String) (after : Collections) : Prop where
  wallets : Between (fun w => w.id = walletId) before.wallets after.wallets
  accounts : Between (fun a => a.walletId = walletId) before.accounts after.accounts
  addresses : Between (OwnsAddress before walletId) before.addresses after.addresses
  pendingTxs : Between (OwnsPendingTx before walletId) before.pendingTxs after.pendingTxs
  perWallet : ∀ collection, Between (fun r => r.walletId = walletId) (before.perWallet collection)
    (after.perWallet collection)
  site_of_mem : ∀ s ∈ after.connectedSites.records,
    ∃ site ∈ before.connectedSites.records, SiteOf before walletId site s
  site_mem : ∀ site ∈ before.connectedSites.records, ¬ NamesOnly before walletId site →
    ∃ s ∈ after.connectedSites.records, SiteOf before walletId site s
  contacts : after.contacts = before.contacts
  settings : after.settings = before.settings

/-- What the next call finds the rest by is there as long as the rest is. -/
structure Findable (before : Collections) (walletId : String) (after : Collections) : Prop where
  address : ∀ a ∈ after.addresses.records, OwnsAddress before walletId a → OwnsAddress after walletId a
  site : ∀ s ∈ after.connectedSites.records, ∀ account ∈ before.accounts.records,
    account.walletId = walletId → account.id ∈ grantedAccounts s → account ∈ after.accounts.records

/-! ### One write -/

section Writes

variable {v s : Collections} {walletId : String}

theorem Kept.refl (v : Collections) (walletId : String) : Kept v walletId v where
  wallets := .refl _ _
  accounts := .refl _ _
  addresses := .refl _ _
  pendingTxs := .refl _ _
  perWallet _ := .refl _ _
  site_of_mem site hsite := ⟨site, hsite, .inl rfl⟩
  site_mem site hsite _ := ⟨site, hsite, .inl rfl⟩
  contacts := rfl
  settings := rfl

theorem Kept.removeAddress (h : Kept v walletId s) {a : Address} (ha : a ∈ v.addresses.records)
    (howns : OwnsAddress v walletId a) : Kept v walletId (removeAddress a s) :=
  { h with addresses := h.addresses.delete ha howns }

theorem Kept.removeAccount (h : Kept v walletId s) {a : Account} (ha : a ∈ v.accounts.records)
    (hwalletId : a.walletId = walletId) : Kept v walletId (removeAccount a s) :=
  { h with accounts := h.accounts.delete ha hwalletId }

theorem Kept.removePendingTx (h : Kept v walletId s) {p : PendingRecord} (hp : p ∈ v.pendingTxs.records)
    (howns : OwnsPendingTx v walletId p) : Kept v walletId (removePendingTx p s) :=
  { h with pendingTxs := h.pendingTxs.delete hp howns }

theorem Kept.removeWalletRecord (h : Kept v walletId s) {w : Wallet} (hw : w ∈ v.wallets.records)
    (hid : w.id = walletId) : Kept v walletId (removeWalletRecord walletId s) :=
  { h with wallets := hid ▸ h.wallets.delete hw hid }

theorem perWallet_removeRecord_self (collection : WalletCollection) (r : WalletScoped) :
    (RemoveWallet.removeRecord collection r s).perWallet collection =
      (s.perWallet collection).delete r.id :=
  Function.update_self ..

theorem perWallet_removeRecord_of_ne {c collection : WalletCollection} (hc : c ≠ collection)
    (r : WalletScoped) :
    (RemoveWallet.removeRecord collection r s).perWallet c = s.perWallet c :=
  Function.update_of_ne hc ..

theorem Kept.removeRecord (h : Kept v walletId s) {collection : WalletCollection} {r : WalletScoped}
    (hr : r ∈ (v.perWallet collection).records) (hwalletId : r.walletId = walletId) :
    Kept v walletId (removeRecord collection r s) := by
  refine { h with perWallet := fun c => ?_ }
  by_cases hc : c = collection
  · obtain rfl := hc
    rw [perWallet_removeRecord_self]
    exact (h.perWallet c).delete hr hwalletId
  · rw [perWallet_removeRecord_of_ne hc]
    exact h.perWallet c

theorem SiteOf.id_eq {site after : ConnectedSite} (h : SiteOf v walletId site after) :
    after.id = site.id := by
  rcases h with rfl | rfl <;> rfl

theorem Kept.putSite (h : Kept v walletId s) {site : ConnectedSite}
    (hsite : site ∈ v.connectedSites.records) : Kept v walletId (putSite (pruned v walletId site) s) :=
  { h with
    site_of_mem := by
      intro after hafter
      rcases Keyed.Table.mem_put.mp hafter with rfl | ⟨hafter, -⟩
      · exact ⟨site, hsite, .inr rfl⟩
      · exact h.site_of_mem after hafter
    site_mem := by
      intro other hother hnot
      obtain ⟨after, hafter, hof⟩ := h.site_mem other hother hnot
      by_cases hid : after.id = site.id
      · -- It is the site itself that was put.
        obtain rfl := v.connectedSites.eq_of_key_eq hother hsite (hof.id_eq.symm.trans hid)
        exact ⟨_, Keyed.Table.mem_put.mpr (.inl rfl), .inr rfl⟩
      · exact ⟨after, Keyed.Table.mem_put.mpr (.inr ⟨hafter, hid⟩), hof⟩ }

theorem Kept.removeSite (h : Kept v walletId s) {site : ConnectedSite}
    (hsite : site ∈ v.connectedSites.records) (honly : NamesOnly v walletId site) :
    Kept v walletId (removeSite site s) :=
  { h with
    site_of_mem := fun after hafter => h.site_of_mem after (Keyed.Table.mem_delete.mp hafter).1
    site_mem := by
      intro other hother hnot
      obtain ⟨after, hafter, hof⟩ := h.site_mem other hother hnot
      refine ⟨after, Keyed.Table.mem_delete.mpr ⟨hafter, fun hid => ?_⟩, hof⟩
      obtain rfl := v.connectedSites.eq_of_key_eq hother hsite (hof.id_eq.symm.trans hid)
      exact hnot honly }

theorem not_names_pruned (site : ConnectedSite) : ¬ Names v walletId (pruned v walletId site) := by
  rintro ⟨account, haccount, hwalletId, hgranted⟩
  have hnot := of_decide_eq_true (List.mem_filter.mp hgranted).2
  exact hnot (mem_accountIds.mpr ⟨account, haccount, hwalletId, rfl⟩)

end Writes

/-! ### One loop of writes -/

/-- A loop of writes that keep `B`, each of which takes its own record out of those that are `There` and
brings none in, leaves none of them. -/
theorem triple_writeEach {γ : Type} (f : γ → Collections → Collections) (records : List γ)
    (B : Collections → Prop) (There : γ → Collections → Prop) (E : Collections → Prop)
    (hB : ∀ x ∈ records, ∀ s, B s → B (f x s))
    (hthere : ∀ x ∈ records, ∀ s, B s → ∀ y, There y (f x s) → There y s ∧ y ≠ x) (hE : ∀ s, B s → E s) :
    Triple (fun s => B s ∧ ∀ y, There y s → y ∈ records) (writeEach f records)
      (fun _ s => B s ∧ ∀ y, ¬ There y s) E := by
  -- The invariant: the records still there are among the writes to come.
  have hloop := triple_forM
    (I := fun rest s => B s ∧ (∀ x ∈ rest, x ∈ records) ∧ ∀ y, There y s → y ∈ rest) (E := E)
    (f := fun r => (write RemoveError.refused (f r) : Removal Unit)) ?_ records
  · refine hloop.mono (fun s hs => ⟨hs.1, fun x hx => hx, hs.2⟩) (fun _ s hs => ?_) fun _ hE => hE
    exact ⟨hs.1, fun y hy => List.not_mem_nil (hs.2.2 y hy)⟩
  · intro c rest
    refine triple_write ?_ fun s hs => hE s hs.1
    rintro s ⟨hBs, hsub, hrest⟩
    have hc := hsub c (.head _)
    refine ⟨hB c hc s hBs, fun x hx => hsub x (.tail _ hx), fun y hy => ?_⟩
    obtain ⟨hys, hne⟩ := hthere c hc s hBs y hy
    exact (List.mem_cons.mp (hrest y hys)).resolve_left hne

/-! ### One call -/

section Call

variable {v : Collections} {wallet : Wallet} {walletId : String}

/-- Nothing that belonged to the wallet in `before` is left in `after`. -/
structure Cleared (before : Collections) (walletId : String) (after : Collections) : Prop where
  wallets : ∀ w ∈ after.wallets.records, w.id ≠ walletId
  accounts : ∀ a ∈ after.accounts.records, a.walletId ≠ walletId
  addresses : ∀ a ∈ after.addresses.records, ¬ OwnsAddress before walletId a
  pendingTxs : ∀ p ∈ after.pendingTxs.records, ¬ OwnsPendingTx before walletId p
  perWallet : ∀ collection, ∀ r ∈ (after.perWallet collection).records, r.walletId ≠ walletId
  sites : ∀ site ∈ after.connectedSites.records, ¬ Names before walletId site

/-- While the addresses and the grants go, the accounts and the wallet's record stay. -/
structure Finding (v : Collections) (walletId : String) (s : Collections) : Prop extends
    Kept v walletId s where
  accounts_eq : s.accounts = v.accounts
  wallets_eq : s.wallets = v.wallets

/-- The addresses and the grants are gone. -/
structure Unreferenced (v : Collections) (walletId : String) (s : Collections) : Prop extends
    Kept v walletId s where
  addresses_gone : ∀ a, ¬ (a ∈ s.addresses.records ∧ OwnsAddress v walletId a)
  grants_gone : ∀ site, ¬ (site ∈ s.connectedSites.records ∧ Names v walletId site)

theorem Finding.findable {s : Collections} (h : Finding v walletId s) : Findable v walletId s where
  address a _ howns := by
    rw [OwnsAddress, h.accounts_eq, h.wallets_eq]
    exact howns
  site _ _ account haccount _ _ := h.accounts_eq ▸ haccount

theorem Unreferenced.findable {s : Collections} (h : Unreferenced v walletId s) :
    Findable v walletId s where
  address a ha howns := absurd ⟨ha, howns⟩ (h.addresses_gone a)
  site site hsite account haccount hwalletId hgranted :=
    absurd ⟨hsite, account, haccount, hwalletId, hgranted⟩ (h.grants_gone site)

/-- What a call that failed leaves behind. -/
def Left (v : Collections) (walletId : String) (s : Collections) : Prop :=
  Kept v walletId s ∧ Findable v walletId s

theorem mem_connectedSiteUpdates {u : ConnectedSite} :
    u ∈ connectedSiteUpdates v walletId ↔ ∃ site ∈ v.connectedSites.records, Names v walletId site ∧
      ¬ NamesOnly v walletId site ∧ pruned v walletId site = u := by
  simp only [connectedSiteUpdates, List.mem_map, List.mem_filter, decide_eq_true_eq, namesAccount_iff,
    NamesOnly, and_assoc]
  refine exists_congr fun site => and_congr_right fun _ => and_congr_right fun hnames => ?_
  exact and_congr_left fun _ => ⟨fun h honly => h honly.2, fun h hnil => h ⟨hnames, hnil⟩⟩

theorem mem_connectedSiteDeletes {site : ConnectedSite} : site ∈ connectedSiteDeletes v walletId ↔
      site ∈ v.connectedSites.records ∧ NamesOnly v walletId site := by
  simp only [connectedSiteDeletes, List.mem_filter, decide_eq_true_eq, namesAccount_iff, NamesOnly,
    and_assoc]

/-- The addresses go first, found by the accounts and the imported keys that are still there. -/
theorem triple_removeAddresses (hwallet : wallet ∈ v.wallets.records) :
    Triple (fun s => s = v) (writeEach removeAddress (addressesToDelete v wallet))
      (fun _ s => Finding v wallet.id s ∧
        ∀ a, ¬ (a ∈ s.addresses.records ∧ OwnsAddress v wallet.id a)) (Left v wallet.id) := by
  have hto : ∀ a, a ∈ addressesToDelete v wallet ↔
      a ∈ v.addresses.records ∧ OwnsAddress v wallet.id a := by
    intro a
    rw [addressesToDelete, List.mem_filter, isLinked_iff hwallet]
  have hloop := triple_writeEach removeAddress (addressesToDelete v wallet) (Finding v wallet.id)
    (fun a s => a ∈ s.addresses.records ∧ OwnsAddress v wallet.id a) (Left v wallet.id) ?_ ?_ ?_
  · refine hloop.pre fun s hs => ?_
    obtain rfl := hs
    exact ⟨⟨Kept.refl s wallet.id, rfl, rfl⟩, fun a ha => (hto a).mpr ha⟩
  · intro a ha s hs
    obtain ⟨hmem, howns⟩ := (hto a).mp ha
    exact ⟨hs.toKept.removeAddress hmem howns, hs.accounts_eq, hs.wallets_eq⟩
  · rintro a - s - b ⟨hb, howns⟩
    obtain ⟨hb, hne⟩ := Keyed.Table.mem_delete.mp hb
    exact ⟨⟨hb, howns⟩, fun h => hne (congrArg Address.id h)⟩
  · exact fun s hs => ⟨hs.toKept, hs.findable⟩

/-- The addresses are gone, and the accounts and the wallet's record are still there. -/
def AddressesGone (v : Collections) (walletId : String) (s : Collections) : Prop :=
  Finding v walletId s ∧ ∀ a, ¬ (a ∈ s.addresses.records ∧ OwnsAddress v walletId a)

/-- A site that is still named as in `v` has an update to come. -/
theorem triple_putSites :
    Triple (AddressesGone v walletId) (writeEach putSite (connectedSiteUpdates v walletId))
      (fun _ s => AddressesGone v walletId s ∧ ∀ site, site ∈ s.connectedSites.records →
        Names v walletId site → site ∈ connectedSiteDeletes v walletId) (Left v walletId) := by
  have hloop := triple_writeEach putSite (connectedSiteUpdates v walletId) (AddressesGone v walletId)
    (fun u s => u ∈ connectedSiteUpdates v walletId ∧
      ∃ site ∈ s.connectedSites.records, Names v walletId site ∧ site.id = u.id) (Left v walletId) ?_ ?_ ?_
  · refine hloop.mono (fun s hs => ⟨hs, fun u hu => hu.1⟩) (fun _ s hs => ⟨hs.1, ?_⟩) fun _ h => h
    intro site hsite hnames
    obtain ⟨site₀, hsite₀, hof⟩ := hs.1.1.site_of_mem site hsite
    rcases hof with rfl | rfl
    · -- The site as it was: one that names other accounts too would have an update.
      by_cases honly : NamesOnly v walletId site
      · exact mem_connectedSiteDeletes.mpr ⟨hsite₀, honly⟩
      · have hupdate : pruned v walletId site ∈ connectedSiteUpdates v walletId :=
          mem_connectedSiteUpdates.mpr ⟨site, hsite₀, hnames, honly, rfl⟩
        exact absurd ⟨hupdate, site, hsite, hnames, rfl⟩ (hs.2 _)
    · exact absurd hnames (not_names_pruned site₀)
  · intro u hu s hs
    obtain ⟨site, hsite, -, -, rfl⟩ := mem_connectedSiteUpdates.mp hu
    exact ⟨⟨hs.1.toKept.putSite hsite, hs.1.accounts_eq, hs.1.wallets_eq⟩, hs.2⟩
  · rintro c hc s - u ⟨hu, site, hsite, hnames, hid⟩
    rcases Keyed.Table.mem_put.mp hsite with rfl | ⟨hsite, hne⟩
    · obtain ⟨site₀, -, -, -, rfl⟩ := mem_connectedSiteUpdates.mp hc
      exact absurd hnames (not_names_pruned site₀)
    · refine ⟨⟨hu, site, hsite, hnames, hid⟩, fun h => hne ?_⟩
      rw [hid, h]
  · exact fun s hs => ⟨hs.1.toKept, hs.1.findable⟩

theorem triple_removeSites :
    Triple (fun s => AddressesGone v walletId s ∧ ∀ site, site ∈ s.connectedSites.records →
        Names v walletId site → site ∈ connectedSiteDeletes v walletId)
      (writeEach removeSite (connectedSiteDeletes v walletId))
      (fun _ s => AddressesGone v walletId s ∧
        ∀ site, ¬ (site ∈ s.connectedSites.records ∧ Names v walletId site)) (Left v walletId) := by
  have hloop := triple_writeEach removeSite (connectedSiteDeletes v walletId) (AddressesGone v walletId)
    (fun site s => site ∈ s.connectedSites.records ∧ Names v walletId site) (Left v walletId) ?_ ?_ ?_
  · exact hloop.pre fun s hs => ⟨hs.1, fun site h => hs.2 site h.1 h.2⟩
  · intro site hsite s hs
    obtain ⟨hmem, honly⟩ := mem_connectedSiteDeletes.mp hsite
    exact ⟨⟨hs.1.toKept.removeSite hmem honly, hs.1.accounts_eq, hs.1.wallets_eq⟩, hs.2⟩
  · rintro c - s - site ⟨hsite, hnames⟩
    obtain ⟨hsite, hne⟩ := Keyed.Table.mem_delete.mp hsite
    exact ⟨⟨hsite, hnames⟩, fun h => hne (congrArg ConnectedSite.id h)⟩
  · exact fun s hs => ⟨hs.1.toKept, hs.1.findable⟩

/-- Now that nothing is found by the accounts any more, they go too. -/
theorem triple_removeAccounts : Triple (fun s => Finding v walletId s ∧ Unreferenced v walletId s)
      (writeEach removeAccount (accountsOf v walletId))
      (fun _ s => Unreferenced v walletId s ∧
        ∀ a, ¬ (a ∈ s.accounts.records ∧ a.walletId = walletId)) (Left v walletId) := by
  have hto : ∀ a, a ∈ accountsOf v walletId ↔ a ∈ v.accounts.records ∧ a.walletId = walletId := by
    intro a
    rw [accountsOf, List.mem_filter, decide_eq_true_eq]
  have hloop := triple_writeEach removeAccount (accountsOf v walletId) (Unreferenced v walletId)
    (fun a s => a ∈ s.accounts.records ∧ a.walletId = walletId) (Left v walletId) ?_ ?_ ?_
  · refine hloop.pre fun s hs => ⟨hs.2, fun a ha => (hto a).mpr ?_⟩
    rwa [← hs.1.accounts_eq]
  · intro a ha s hs
    obtain ⟨hmem, hwalletId⟩ := (hto a).mp ha
    exact ⟨hs.toKept.removeAccount hmem hwalletId, hs.addresses_gone, hs.grants_gone⟩
  · rintro c - s - a ⟨ha, hwalletId⟩
    obtain ⟨ha, hne⟩ := Keyed.Table.mem_delete.mp ha
    exact ⟨⟨ha, hwalletId⟩, fun h => hne (congrArg Account.id h)⟩
  · exact fun s hs => ⟨hs.toKept, hs.findable⟩

/-- The addresses, the grants and the accounts are gone. -/
def AccountsGone (v : Collections) (walletId : String) (s : Collections) : Prop :=
  Unreferenced v walletId s ∧ ∀ a, ¬ (a ∈ s.accounts.records ∧ a.walletId = walletId)

/-- No record of the wallet is left in the collections that are `gone`. -/
def Emptied (walletId : String) (gone : WalletCollection → Prop) (s : Collections) : Prop :=
  ∀ collection, gone collection → ∀ r ∈ (s.perWallet collection).records, r.walletId ≠ walletId

theorem Emptied.removeRecord {gone : WalletCollection → Prop} {s : Collections}
    (h : Emptied walletId gone s) (collection : WalletCollection) (r : WalletScoped) :
    Emptied walletId gone (removeRecord collection r s) := by
  intro c hc r' hr'
  by_cases heq : c = collection
  · obtain rfl := heq
    rw [perWallet_removeRecord_self] at hr'
    exact h c hc r' (Keyed.Table.mem_delete.mp hr').1
  · rw [perWallet_removeRecord_of_ne heq] at hr'
    exact h c hc r' hr'

theorem AccountsGone.removeRecord {s : Collections} (h : AccountsGone v walletId s)
    {collection : WalletCollection} {r : WalletScoped} (hr : r ∈ (v.perWallet collection).records)
    (hwalletId : r.walletId = walletId) : AccountsGone v walletId (removeRecord collection r s) :=
  ⟨⟨h.1.toKept.removeRecord hr hwalletId, h.1.addresses_gone, h.1.grants_gone⟩, h.2⟩

/-- The records of one more collection go; `R` speaks of the other tables. -/
theorem triple_removeRecordsOf {R : Collections → Prop} {G : WalletCollection → Prop}
    {collection : WalletCollection} (hR : ∀ s r, R s → R (removeRecord collection r s)) :
    Triple (fun s => (AccountsGone v walletId s ∧ R s) ∧ Emptied walletId G s)
      (removeRecordsOf v walletId collection)
      (fun _ s => (AccountsGone v walletId s ∧ R s) ∧
        Emptied walletId (fun c => c = collection ∨ G c) s)
      (Left v walletId) := by
  have hto : ∀ r, r ∈ recordsOf v walletId collection ↔
      r ∈ (v.perWallet collection).records ∧ r.walletId = walletId := by
    intro r
    rw [recordsOf, List.mem_filter, decide_eq_true_eq]
  have hloop := triple_writeEach (removeRecord collection) (recordsOf v walletId collection)
    (fun s => (AccountsGone v walletId s ∧ R s) ∧ Emptied walletId G s)
    (fun r s => r ∈ (s.perWallet collection).records ∧ r.walletId = walletId) (Left v walletId) ?_ ?_ ?_
  · refine hloop.mono (fun s hs => ⟨hs, fun r hr => (hto r).mpr ?_⟩) (fun _ s hs => ⟨hs.1.1, ?_⟩)
      fun _ h => h
    · exact ⟨(hs.1.1.1.toKept.perWallet collection).mem_of_mem r hr.1, hr.2⟩
    · rintro c (rfl | hc)
      · exact fun r hr hwalletId => hs.2 r ⟨hr, hwalletId⟩
      · exact hs.1.2 c hc
  · rintro r hr s ⟨⟨hgone, hRs⟩, hemptied⟩
    obtain ⟨hmem, hwalletId⟩ := (hto r).mp hr
    exact ⟨⟨hgone.removeRecord hmem hwalletId, hR s r hRs⟩, hemptied.removeRecord collection r⟩
  · rintro c - s - r ⟨hr, hwalletId⟩
    rw [perWallet_removeRecord_self] at hr
    obtain ⟨hr, hne⟩ := Keyed.Table.mem_delete.mp hr
    exact ⟨⟨hr, hwalletId⟩, fun h => hne (congrArg WalletScoped.id h)⟩
  · exact fun s hs => ⟨hs.1.1.1.toKept, hs.1.1.1.findable⟩

/-- No pending transaction that belonged to the wallet in `v` is left. -/
def NoPending (v : Collections) (walletId : String) (s : Collections) : Prop :=
  ∀ p, ¬ (p ∈ s.pendingTxs.records ∧ OwnsPendingTx v walletId p)

theorem triple_removePendingTxs (hwallet : wallet ∈ v.wallets.records)
    {gone : WalletCollection → Prop} :
    Triple (fun s => AccountsGone v wallet.id s ∧ Emptied wallet.id gone s)
      (writeEach removePendingTx (pendingTxsToDelete v wallet))
      (fun _ s => (AccountsGone v wallet.id s ∧ NoPending v wallet.id s) ∧ Emptied wallet.id gone s)
      (Left v wallet.id) := by
  have hloop := triple_writeEach removePendingTx (pendingTxsToDelete v wallet)
    (fun s => AccountsGone v wallet.id s ∧ Emptied wallet.id gone s)
    (fun p s => p ∈ s.pendingTxs.records ∧ OwnsPendingTx v wallet.id p) (Left v wallet.id) ?_ ?_ ?_
  · refine hloop.mono (fun s hs => ⟨hs, fun p hp => ?_⟩) (fun _ s hs => ⟨⟨hs.1.1, hs.2⟩, hs.1.2⟩)
      fun _ h => h
    exact (mem_pendingTxsToDelete hwallet).mpr ⟨hs.1.1.toKept.pendingTxs.mem_of_mem p hp.1, hp.2⟩
  · rintro p hp s ⟨hgone, hemptied⟩
    obtain ⟨hmem, howns⟩ := (mem_pendingTxsToDelete hwallet).mp hp
    have hkept := hgone.1.toKept.removePendingTx hmem howns
    exact ⟨⟨⟨hkept, hgone.1.addresses_gone, hgone.1.grants_gone⟩, hgone.2⟩, hemptied⟩
  · rintro c - s - p ⟨hp, howns⟩
    obtain ⟨hp, hne⟩ := Keyed.Table.mem_delete.mp hp
    exact ⟨⟨hp, howns⟩, fun h => hne (congrArg PendingRecord.id h)⟩
  · exact fun s hs => ⟨hs.1.1.toKept, hs.1.1.findable⟩

theorem mem_laterCollections (collection : WalletCollection) :
    collection = .signers ∨ collection ∈ laterCollections := by
  cases collection <;> decide

theorem triple_laterCollections :
    Triple (fun s => (AccountsGone v walletId s ∧ NoPending v walletId s) ∧
        Emptied walletId (· = .signers) s)
      (laterCollections.forM (removeRecordsOf v walletId))
      (fun _ s => (AccountsGone v walletId s ∧ NoPending v walletId s) ∧
        Emptied walletId (fun _ => True) s) (Left v walletId) := by
  -- The invariant: only the collections to come hold records of the wallet.
  have hloop := triple_forM (f := removeRecordsOf v walletId) (E := Left v walletId)
    (I := fun rest s => (AccountsGone v walletId s ∧ NoPending v walletId s) ∧
      Emptied walletId (· ∉ rest) s) (fun collection rest => ?_) laterCollections
  · refine hloop.mono (fun s hs => ⟨hs.1, fun c hc => ?_⟩) (fun _ s hs => ⟨hs.1, fun c _ => ?_⟩)
      fun _ h => h
    · exact hs.2 c ((mem_laterCollections c).resolve_right hc)
    · exact hs.2 c List.not_mem_nil
  · refine (triple_removeRecordsOf (R := NoPending v walletId) fun s r h => h).post fun _ s hs => ?_
    refine ⟨hs.1, fun c hc => hs.2 c ?_⟩
    by_cases heq : c = collection
    · exact .inl heq
    · exact .inr fun hmem => (List.mem_cons.mp hmem).elim heq hc

/-- **One call.** One that returned left nothing of what belonged to the wallet when it started, and one
that threw lost nothing that the next call finds the rest by. -/
theorem triple_removeFound (hwallet : wallet ∈ v.wallets.records) :
    Triple (fun s => s = v) (removeFound v wallet)
      (fun _ s => Left v wallet.id s ∧ Cleared v wallet.id s) (Left v wallet.id) := by
  refine (triple_removeAddresses hwallet).bind fun _ => triple_putSites.bind fun _ =>
    triple_removeSites.bind fun _ => ?_
  refine (triple_removeAccounts.pre fun s hs => ?_).bind fun _ => ?_
  · exact ⟨hs.1.1, hs.1.1.toKept, hs.1.2, hs.2⟩
  refine ((triple_removeRecordsOf (R := fun _ => True) (G := fun _ => False)
    fun _ _ _ => trivial).pre fun s hs => ⟨⟨hs, trivial⟩, fun _ h => h.elim⟩).bind fun _ => ?_
  refine ((triple_removePendingTxs hwallet).pre fun s hs => ⟨hs.1.1, hs.2⟩).bind fun _ => ?_
  refine (triple_laterCollections.pre fun s hs => ⟨hs.1, fun c hc => hs.2 c (.inl hc)⟩).bind fun _ => ?_
  refine (triple_write (Q := fun _ s => Left v wallet.id s ∧ Cleared v wallet.id s) (fun s hs => ?_)
    fun s hs => ⟨hs.1.1.1.toKept, hs.1.1.1.findable⟩).bind fun _ => ?_
  · obtain ⟨⟨hgone, hpending⟩, hemptied⟩ := hs
    have hkept := hgone.1.toKept.removeWalletRecord hwallet rfl
    have hunreferenced : Unreferenced v wallet.id (removeWalletRecord wallet.id s) :=
      ⟨hkept, hgone.1.addresses_gone, hgone.1.grants_gone⟩
    exact ⟨⟨hkept, hunreferenced.findable⟩,
      { wallets := fun w hw => (Keyed.Table.mem_delete.mp hw).2
        accounts := fun a ha hwalletId => hgone.2 a ⟨ha, hwalletId⟩
        addresses := fun a ha howns => hgone.1.addresses_gone a ⟨ha, howns⟩
        pendingTxs := fun p hp howns => hpending p ⟨hp, howns⟩
        perWallet := fun c => hemptied c trivial
        sites := fun site hsite hnames => hgone.1.grants_gone site ⟨hsite, hnames⟩ }⟩
  · -- There is nothing left for the second look at the agent accounts.
    refine triple_read_bind fun late hlate => ?_
    have hnone : recordsOf late wallet.id .coSignerAccounts = [] :=
      List.filter_eq_nil_iff.mpr fun r hr h =>
        hlate.2.perWallet .coSignerAccounts r hr (of_decide_eq_true h)
    rw [removeRecordsOf, hnone]
    refine (triple_pure (Q := fun _ s => s = late) fun s hs => hs).bind fun _ => ?_
    exact triple_pure fun s hs => hs ▸ hlate

theorem triple_requireWallet : Triple (fun s => s = v) (requireWallet v walletId)
      (fun wallet s => s = v ∧ wallet ∈ v.wallets.records ∧ wallet.id = walletId)
      fun s => s = v := by
  rw [requireWallet]
  rcases hget : v.wallets.get walletId with - | wallet
  · exact triple_throw fun s hs => hs
  · exact triple_pure fun s hs => ⟨hs, (Keyed.Table.get_eq_some _).mp hget⟩

theorem Left.refl (v : Collections) (walletId : String) : Left v walletId v :=
  ⟨.refl v walletId, fun _ _ howns => howns, fun _ _ _ haccount _ _ => haccount⟩

theorem triple_removeWallet : Triple (fun s => s = v) (removeWallet walletId)
      (fun _ s => Left v walletId s ∧ Cleared v walletId s) (Left v walletId) := by
  have hleft : ∀ s, s = v → Left v walletId s := by
    rintro s rfl
    exact Left.refl s walletId
  rw [removeWallet]
  by_cases hempty : walletId = ""
  · rw [if_pos hempty]
    exact triple_throw hleft
  · rw [if_neg hempty]
    refine triple_read_bind fun u hu => ?_
    obtain rfl := hu
    refine (triple_requireWallet.mono (fun s hs => hs) (fun _ s hs => hs) hleft).bind fun wallet => ?_
    refine triple_of_store fun s hs => ?_
    obtain ⟨rfl, hwallet, rfl⟩ := hs
    exact triple_removeFound hwallet

end Call

/-! ### Calls one after the other -/

section Calls

variable {v₀ v s : Collections} {walletId : String}

theorem OwnsAddress.of_kept (hkept : Kept v₀ walletId v) {a : Address} (howns : OwnsAddress v walletId a) :
    OwnsAddress v₀ walletId a := by
  rcases howns with ⟨account, haccount, hwalletId, hunder⟩ | ⟨wallet, hwallet, hid, himported⟩
  · exact .inl ⟨account, hkept.accounts.mem_of_mem account haccount, hwalletId, hunder⟩
  · exact .inr ⟨wallet, hkept.wallets.mem_of_mem wallet hwallet, hid, himported⟩

theorem OwnsPendingTx.of_kept (hkept : Kept v₀ walletId v) {p : PendingRecord}
    (howns : OwnsPendingTx v walletId p) : OwnsPendingTx v₀ walletId p := by
  obtain ⟨⟨a, ha, haddress, hscope⟩, hall⟩ := howns
  refine ⟨⟨a, hkept.addresses.mem_of_mem a ha, haddress.of_kept hkept, hscope⟩, fun b hb hbscope => ?_⟩
  by_contra hnot
  -- An address that is not the wallet's is still there.
  exact hnot ((hall b (hkept.addresses.mem_of_not_owned b hb hnot) hbscope).of_kept hkept)

theorem Names.of_kept (hkept : Kept v₀ walletId v) {site : ConnectedSite} (h : Names v walletId site) :
    Names v₀ walletId site := by
  obtain ⟨account, haccount, h⟩ := h
  exact ⟨account, hkept.accounts.mem_of_mem account haccount, h⟩

theorem pruned_pruned (site : ConnectedSite) :
    pruned v walletId (pruned v walletId site) = pruned v walletId site := by
  simp only [pruned, grantedAccounts, Option.getD_some, List.filter_filter, Bool.and_self]

/-- Of a site that is left, a later call removes what the first one would have. -/
theorem pruned_eq (hleft : Left v₀ walletId v) {site : ConnectedSite}
    (hsite : site ∈ v.connectedSites.records) : pruned v walletId site = pruned v₀ walletId site := by
  have hiff : ∀ id ∈ grantedAccounts site, (id ∉ accountIds v walletId ↔ id ∉ accountIds v₀ walletId) := by
    intro id hid
    rw [mem_accountIds, mem_accountIds]
    refine not_congr ⟨?_, ?_⟩
    · rintro ⟨account, haccount, h⟩
      exact ⟨account, hleft.1.accounts.mem_of_mem account haccount, h⟩
    · rintro ⟨account, haccount, hwalletId, rfl⟩
      exact ⟨account, hleft.2.site site hsite account haccount hwalletId hid, hwalletId, rfl⟩
  have hfilter : (grantedAccounts site).filter (· ∉ accountIds v walletId) =
      (grantedAccounts site).filter (· ∉ accountIds v₀ walletId) :=
    List.filter_congr fun id hid => decide_eq_decide.mpr (hiff id hid)
  rw [pruned, pruned, hfilter]

theorem SiteOf.trans (hleft : Left v₀ walletId v) {site middle after : ConnectedSite}
    (hmiddle : middle ∈ v.connectedSites.records) (h : SiteOf v₀ walletId site middle)
    (h' : SiteOf v walletId middle after) : SiteOf v₀ walletId site after := by
  rcases h' with rfl | rfl
  · exact h
  · rw [pruned_eq hleft hmiddle]
    rcases h with rfl | rfl
    · exact .inr rfl
    · exact .inr (pruned_pruned site)

theorem grantedAccounts_of_siteOf {site after : ConnectedSite} (h : SiteOf v walletId site after) {id : String}
    (hid : id ∈ grantedAccounts after) : id ∈ grantedAccounts site := by
  rcases h with rfl | rfl
  · exact hid
  · exact List.mem_of_mem_filter hid

theorem Kept.trans (hleft : Left v₀ walletId v) (h : Kept v walletId s) : Kept v₀ walletId s where
  wallets := hleft.1.wallets.trans h.wallets fun _ _ hid => hid
  accounts := hleft.1.accounts.trans h.accounts fun _ _ hid => hid
  addresses := hleft.1.addresses.trans h.addresses fun _ _ howns => howns.of_kept hleft.1
  pendingTxs := hleft.1.pendingTxs.trans h.pendingTxs fun _ _ howns => howns.of_kept hleft.1
  perWallet c := (hleft.1.perWallet c).trans (h.perWallet c) fun _ _ hid => hid
  site_of_mem after hafter := by
    obtain ⟨middle, hmiddle, hof'⟩ := h.site_of_mem after hafter
    obtain ⟨site, hsite, hof⟩ := hleft.1.site_of_mem middle hmiddle
    exact ⟨site, hsite, hof.trans hleft hmiddle hof'⟩
  site_mem site hsite hnot := by
    obtain ⟨middle, hmiddle, hof⟩ := hleft.1.site_mem site hsite hnot
    have hnot' : ¬ NamesOnly v walletId middle := by
      rintro ⟨hnames, hnone⟩
      rw [pruned_eq hleft hmiddle] at hnone
      rcases hof with rfl | rfl
      · exact hnot ⟨hnames.of_kept hleft.1, hnone⟩
      · exact not_names_pruned site (hnames.of_kept hleft.1)
    obtain ⟨after, hafter, hof'⟩ := h.site_mem middle hmiddle hnot'
    exact ⟨after, hafter, hof.trans hleft hmiddle hof'⟩
  contacts := h.contacts.trans hleft.1.contacts
  settings := h.settings.trans hleft.1.settings

theorem Left.trans (hleft : Left v₀ walletId v) (h : Left v walletId s) : Left v₀ walletId s where
  left := Kept.trans hleft h.1
  right :=
    { address := fun a ha howns => by
        have hmiddle := hleft.2.address a (h.1.addresses.mem_of_mem a ha) howns
        exact h.2.address a ha hmiddle
      site := fun site hsite account haccount hwalletId hgranted => by
        obtain ⟨middle, hmiddle, hof⟩ := h.1.site_of_mem site hsite
        have hthere := hleft.2.site middle hmiddle account haccount hwalletId
          (grantedAccounts_of_siteOf hof hgranted)
        exact h.2.site site hsite account hthere hwalletId hgranted }

/-- A call, resolved or failed, led from one store to another. -/
def Called (walletId : String) (v s : Collections) : Prop :=
  ∃ w r w' n, (removeWallet walletId).run w = (r, w', n) ∧ w.store = v ∧ w'.store = s

/-- A call that resolved led from one store to another. -/
def Resolved (walletId : String) (v s : Collections) : Prop :=
  ∃ w removed w' n, (removeWallet walletId).run w = (.ok removed, w', n) ∧ w.store = v ∧ w'.store = s

theorem Called.left (h : Called walletId v s) : Left v walletId s := by
  obtain ⟨w, r, w', n, hrun, hv, rfl⟩ := h
  rcases r with e | removed
  · exact triple_removeWallet.throws hrun hv
  · exact (triple_removeWallet.returns hrun hv).1

theorem Resolved.cleared (h : Resolved walletId v s) : Left v walletId s ∧ Cleared v walletId s := by
  obtain ⟨w, removed, w', n, hrun, hv, rfl⟩ := h
  exact triple_removeWallet.returns hrun hv

theorem left_of_calls (h : Relation.ReflTransGen (Called walletId) v₀ v) : Left v₀ walletId v := by
  induction h with
  | refl => exact Left.refl v₀ walletId
  | tail _ hcall ih => exact ih.trans hcall.left

/-- Nothing of what the first call found belongs to the wallet, pending transactions apart. -/
theorem Cleared.of_left (hleft : Left v₀ walletId v) (hkept : Kept v walletId s)
    (h : Cleared v walletId s)
    (hpending : ∀ p ∈ s.pendingTxs.records, ¬ OwnsPendingTx v₀ walletId p) : Cleared v₀ walletId s where
  wallets := h.wallets
  accounts := h.accounts
  addresses a ha howns :=
    h.addresses a ha (hleft.2.address a (hkept.addresses.mem_of_mem a ha) howns)
  pendingTxs := hpending
  perWallet := h.perWallet
  sites site hsite := by
    rintro ⟨account, haccount, hwalletId, hgranted⟩
    obtain ⟨middle, hmiddle, hof⟩ := hkept.site_of_mem site hsite
    have hthere := hleft.2.site middle hmiddle account haccount hwalletId
      (grantedAccounts_of_siteOf hof hgranted)
    exact h.sites site hsite ⟨account, hthere, hwalletId, hgranted⟩

/-- A pending transaction that belonged to the wallet is found by an address that is left. -/
theorem OwnsPendingTx.of_address (hleft : Left v₀ walletId v) {p : PendingRecord}
    (howns : OwnsPendingTx v₀ walletId p) {a : Address} (ha : a ∈ v.addresses.records)
    (haddress : OwnsAddress v₀ walletId a)
    (hscope : pendingScopeForAddress a = pendingScopeForPendingTx p) : OwnsPendingTx v walletId p := by
  refine ⟨⟨a, ha, hleft.2.address a ha haddress, hscope⟩, fun b hb hbscope => ?_⟩
  exact hleft.2.address b hb (howns.2 b (hleft.1.addresses.mem_of_mem b hb) hbscope)

/-- **Removing a wallet, over any sequence of calls.** Whatever fails, only records of the wallet are
deleted and only the grants of its accounts are changed. A call that resolved cleared the vault of the
wallet exactly if each pending transaction of the wallet that was left before it still had an address of
the wallet to be found by. -/
theorem removeWallet_clears_iff (v₀ v : Collections) (walletId : String)
    (hcalls : Relation.ReflTransGen (Called walletId) v₀ v) :
    Kept v₀ walletId v ∧ ∀ s, Resolved walletId v s → Kept v₀ walletId s ∧
      (Cleared v₀ walletId s ↔
        ∀ p ∈ v.pendingTxs.records, OwnsPendingTx v₀ walletId p →
          ∃ a ∈ v.addresses.records, OwnsAddress v₀ walletId a ∧
            pendingScopeForAddress a = pendingScopeForPendingTx p) := by
  have hleft := left_of_calls hcalls
  refine ⟨hleft.1, fun s hresolved => ?_⟩
  obtain ⟨hcall, hcleared⟩ := hresolved.cleared
  refine ⟨Kept.trans hleft hcall.1, fun h p hp howns => ?_, fun hfound => ?_⟩
  · -- A pending transaction that the call deleted was found by an address.
    have hgone : p ∉ s.pendingTxs.records := fun hs => h.pendingTxs p hs howns
    have hnow : OwnsPendingTx v walletId p := by
      by_contra hnot
      exact hgone (hcall.1.pendingTxs.mem_of_not_owned p hp hnot)
    obtain ⟨⟨a, ha, haddress, hscope⟩, -⟩ := hnow
    exact ⟨a, ha, haddress.of_kept hleft.1, hscope⟩
  · refine hcleared.of_left hleft hcall.1 fun p hp howns => ?_
    have hbefore := hcall.1.pendingTxs.mem_of_mem p hp
    obtain ⟨a, ha, haddress, hscope⟩ := hfound p hbefore howns
    exact hcleared.pendingTxs p hp (howns.of_address hleft ha haddress hscope)

end Calls

private def wallet : Wallet :=
  { id := "w", encryptedSeed := "s", encryptedPassphrase := none
    kdfParams := { salt := "t", iterations := 3, memory := 65536, parallelism := 1 }
    importedKeys := [], body := .null }

private def account : Account :=
  { id := "a", walletId := "w", activeAddressByChainId := [], body := .null }

private def address : Address :=
  { id := "d", accountId := some "a", signerId := none, chain := "BTC", network := "mainnet"
    address := "bc1q", body := .null }

private def sent : PendingRecord :=
  { id := "p", chain := "BTC", network := "mainnet", fromAddress := "bc1q", txid := some "aa"
    status := .broadcast }

/-- A wallet with one address, and a transaction from it. -/
private def oneAddress : Collections :=
  { wallets := .singleton wallet, accounts := .singleton account
    addresses := .singleton address, contacts := .empty, connectedSites := .empty
    pendingTxs := .singleton sent, perWallet := fun _ => .empty, settings := none }

private theorem owns_address : OwnsAddress oneAddress "w" address :=
  .inl ⟨account, List.mem_singleton_self account, rfl, by decide⟩

private theorem owns_sent : OwnsPendingTx oneAddress "w" sent := by
  refine ⟨⟨address, List.mem_singleton_self address, owns_address, rfl⟩, fun a ha _ => ?_⟩
  rw [List.mem_singleton.mp ha]
  exact owns_address

/-- A call none of whose writes is refused leaves nothing. -/
theorem removeWallet_clears_iff_first :
    ∃ s, Resolved "w" oneAddress s ∧ Kept oneAddress "w" s ∧ Cleared oneAddress "w" s := by
  have hfirst := (removeWallet_clears_iff oneAddress oneAddress "w" .refl).2
  refine ⟨_, ⟨⟨oneAddress, fun _ => true⟩, _, _, _, rfl, rfl, rfl⟩, ?_⟩
  obtain ⟨hkept, hiff⟩ := hfirst _ ⟨⟨oneAddress, fun _ => true⟩, _, _, _, rfl, rfl, rfl⟩
  refine ⟨hkept, hiff.mpr fun p hp _ => ?_⟩
  rw [List.mem_singleton.mp hp]
  exact ⟨address, List.mem_singleton_self address, owns_address, rfl⟩

/-- A call that resolves does not always clear the vault of the wallet: where an earlier call deleted
the address and failed on the account, the transaction from the address stays. -/
theorem not_removeWallet_clears :
    ¬ ∀ (v₀ v s : Collections) (walletId : String), Relation.ReflTransGen (Called walletId) v₀ v →
      Resolved walletId v s → Cleared v₀ walletId s := by
  intro hclears
  have hcleared := hclears oneAddress _ _ "w"
    (.single ⟨⟨oneAddress, fun n => n = 0⟩, .error .refused, _, _, rfl, rfl, rfl⟩)
    ⟨⟨_, fun _ => true⟩, _, _, _, rfl, rfl, rfl⟩
  exact hcleared.pendingTxs sent (List.mem_singleton_self sent) owns_sent

end XchainWallet.RemoveWallet
