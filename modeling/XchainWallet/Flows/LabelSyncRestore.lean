import XchainWallet.Flows.LabelSync

/-!
# What a restore brings back

The addresses after an application are the addresses before it, each with the label that the last entry
naming it wrote. Where every labelled address names one record of the restored vault, that is its own
label, no other record changes, and a second application finds nothing to write. Account names are not
part of the payload.
-/

namespace XchainWallet.LabelSync

open Function Keyed
open Option (bind_some some.inj)
open List (foldl_cons map_map mem_map)

variable {v v' : Vault} {wallet wallet' : Wallet} {onConflict : OnConflict}

/-! ### The labels after an application -/

/-- The record `a`, of which `r` was made so far, after one more entry. -/
def relabelBy (allAddresses : List Address) (onConflict : OnConflict) (a r : Address)
    (entry : LabelEntry) : Address :=
  if labelMatch allAddresses entry = some a ∧ Writes onConflict entry a = true then
    { a with label := entry.label }
  else r

/-- The record after the entries that name it in `allAddresses`. -/
def relabel (allAddresses : List Address) (onConflict : OnConflict) (entries : List LabelEntry)
    (a : Address) : Address :=
  entries.foldl (relabelBy allAddresses onConflict a) a

variable {l : List Address}

theorem mem_of_labelMatch {entry : LabelEntry} {a : Address} (h : labelMatch l entry = some a) :
    a ∈ l := by
  rcases Option.or_eq_some_iff.mp h with h | ⟨-, h⟩
  · exact mem_of_find h
  · exact mem_of_find h

/-- One entry, on records that `g` has made of the list. -/
theorem addresses_applyLabel (hl : Keyed.Distinct Address.id l) {g : Address → Address}
    (hg : ∀ a, (g a).id = a.id) {acc : Applied} (hacc : acc.addresses = l.map g)
    (entry : LabelEntry) :
    (applyLabel l onConflict acc entry).addresses =
      l.map fun a => relabelBy l onConflict a (g a) entry := by
  simp only [applyLabel, relabelBy]
  cases hmatch : labelMatch l entry with
  | none =>
    simp only [reduceCtorEq, false_and, if_false]
    exact hacc
  | some m =>
    have hm : m ∈ l := mem_of_labelMatch hmatch
    simp only [Option.some.injEq]
    split
    · rename_i hwrites
      have hfind : find Address.id m.id (l.map g) = some (g m) := by
        have hlm : Keyed.Distinct Address.id (l.map g) := by
          simpa [Keyed.Distinct, comp_def, hg] using hl
        exact (find_eq_some hlm).mpr ⟨List.mem_map_of_mem hm, hg m⟩
      have hput : upsert Address.id { m with label := entry.label } (l.map g) =
          adjust Address.id m.id
            (fun a => if a.id = m.id then { m with label := entry.label } else a) (l.map g) :=
        (upsert_eq_adjust (fun a => by split <;> simp_all)
          (by simpa [Keyed.Distinct, comp_def, hg] using hl)).mpr
          ⟨g m, hfind, by simp [hg]⟩
      simp only [hacc]
      rw [hput, adjust, map_map]
      refine List.map_congr_left fun a ha => ?_
      simp only [comp_apply, hg]
      have hsame : a.id = m.id ↔ m = a := by
        constructor
        · intro hid
          have ha' := (find_eq_some hl).mpr ⟨ha, hid⟩
          have hm' := (find_eq_some hl).mpr ⟨hm, rfl⟩
          exact some.inj (hm'.symm.trans ha')
        · rintro rfl
          rfl
      by_cases hma : m = a
      · subst hma
        simp [hwrites]
      · have hid : ¬a.id = m.id := fun hid => hma (hsame.mp hid)
        simp [hma, hid]
    · rename_i hwrites
      simp only [hacc]
      refine List.map_congr_left fun a _ => (if_neg fun h => hwrites ?_).symm
      rw [h.1]
      exact h.2

/-- **The addresses after the loop.** Each record has the label of the last entry that wrote to it. -/
theorem addresses_foldl (hl : Keyed.Distinct Address.id l) (entries : List LabelEntry)
    {acc : Applied} (hacc : acc.addresses = l) :
    (entries.foldl (applyLabel l onConflict) acc).addresses =
      l.map (relabel l onConflict entries) := by
  have hgen : ∀ (entries : List LabelEntry) (g : Address → Address) (acc : Applied),
      (∀ a, (g a).id = a.id) → acc.addresses = l.map g →
      (entries.foldl (applyLabel l onConflict) acc).addresses =
        l.map fun a => entries.foldl (relabelBy l onConflict a) (g a) := by
    intro entries
    induction entries with
    | nil =>
      intro g acc _ hacc
      exact hacc
    | cons entry entries ih =>
      intro g acc hg hacc
      rw [foldl_cons, ih _ _ ?_ (addresses_applyLabel hl hg hacc entry)]
      · rfl
      · intro a
        rw [relabelBy]
        split
        · rfl
        · exact hg a
  exact hgen entries id acc (fun _ => rfl) (by simpa using hacc)

/-- The labels do not touch the contacts. -/
theorem contacts_foldl_labels (l : List Address) (entries : List LabelEntry) (acc : Applied) :
    (entries.foldl (applyLabel l onConflict) acc).contacts = acc.contacts := by
  induction entries generalizing acc with
  | nil => rfl
  | cons entry entries ih =>
    rw [foldl_cons, ih, applyLabel]
    split
    · rfl
    · split <;> rfl

/-- The contacts do not touch the addresses. -/
theorem addresses_foldl_contacts (l : List Contact) (now : String) (contacts : List PayloadContact)
    (acc : Applied) :
    (contacts.foldl (applyContact l onConflict now) acc).addresses = acc.addresses := by
  induction contacts generalizing acc with
  | nil => rfl
  | cons incoming contacts ih =>
    rw [foldl_cons, ih, applyContact]
    split
    · rfl
    · split
      · rfl
      · split <;> rfl

theorem addresses_applied (hv : Keyed.Distinct Address.id v.addresses) (payload : LabelSyncBody)
    (now : String) :
    (applied v payload onConflict now).addresses =
      v.addresses.map (relabel v.addresses onConflict (payload.labels.getD [])) := by
  rw [applied, addresses_foldl_contacts]
  exact addresses_foldl hv _ rfl

/-- Where every entry that names a record has one label for it, a record takes that label or keeps
its own. -/
theorem relabel_of_agree {entries : List LabelEntry} {a : Address} {label : String}
    (hagree : ∀ entry ∈ entries, labelMatch l entry = some a → entry.label = label) :
    relabel l onConflict entries a =
      if ∃ entry ∈ entries, labelMatch l entry = some a ∧ Writes onConflict entry a = true then
        { a with label := label }
      else a := by
  have hgen : ∀ (entries : List LabelEntry) (r : Address),
      (∀ entry ∈ entries, labelMatch l entry = some a → entry.label = label) →
      entries.foldl (relabelBy l onConflict a) r =
      if ∃ entry ∈ entries, labelMatch l entry = some a ∧ Writes onConflict entry a = true then
        { a with label := label }
      else r := by
    intro entries
    induction entries with
    | nil =>
      intro r _
      simp
    | cons entry entries ih =>
      intro r hagree
      rw [foldl_cons, ih _ fun e he => hagree e (.tail _ he)]
      by_cases hrest : ∃ e ∈ entries, labelMatch l e = some a ∧ Writes onConflict e a = true
      · have hall : ∃ e ∈ entry :: entries, labelMatch l e = some a ∧
            Writes onConflict e a = true := by
          obtain ⟨e, he, hw⟩ := hrest
          exact ⟨e, List.mem_cons_of_mem _ he, hw⟩
        rw [if_pos hrest, if_pos hall]
      · rw [if_neg hrest]
        by_cases hfirst : labelMatch l entry = some a ∧ Writes onConflict entry a = true
        · have hall : ∃ e ∈ entry :: entries, labelMatch l e = some a ∧
              Writes onConflict e a = true := ⟨entry, (.head _), hfirst⟩
          rw [relabelBy, if_pos hfirst, if_pos hall, hagree entry (.head _) hfirst.1]
        · have hnone : ¬∃ e ∈ entry :: entries, labelMatch l e = some a ∧
              Writes onConflict e a = true := by
            rintro ⟨e, he, hw⟩
            rcases List.mem_cons.mp he with rfl | he
            · exact hfirst hw
            · exact hrest ⟨e, he, hw⟩
          rw [relabelBy, if_neg hfirst, if_neg hnone]
  exact hgen entries a hagree

/-- A record that no entry writes to stays. -/
theorem relabel_of_not_writes {entries : List LabelEntry} {a : Address}
    (h : ∀ entry ∈ entries, labelMatch l entry = some a → Writes onConflict entry a = false) :
    relabel l onConflict entries a = a := by
  rw [relabel]
  induction entries with
  | nil => rfl
  | cons entry entries ih =>
    have hnot : ¬(labelMatch l entry = some a ∧ Writes onConflict entry a = true) := by
      rintro ⟨hmatch, hwrites⟩
      rw [h entry (.head _) hmatch] at hwrites
      cases hwrites
    rw [foldl_cons, relabelBy, if_neg hnot]
    exact ih fun e he => h e (.tail _ he)

variable (onConflict) in
/-- Of a record the label alone changes. -/
theorem relabel_eq_with (l : List Address) (entries : List LabelEntry) (a : Address) :
    ∃ label, relabel l onConflict entries a = { a with label := label } := by
  have hgen : ∀ (entries : List LabelEntry) (r : Address), (∃ label, r = { a with label := label }) →
      ∃ label, entries.foldl (relabelBy l onConflict a) r = { a with label := label } := by
    intro entries
    induction entries with
    | nil => exact fun r hr => hr
    | cons entry entries ih =>
      intro r hr
      refine ih _ ?_
      rw [relabelBy]
      split
      · exact ⟨entry.label, rfl⟩
      · exact hr
  exact hgen entries a ⟨a.label, rfl⟩

variable (onConflict) in
theorem id_relabel (l : List Address) (entries : List LabelEntry) (a : Address) :
    (relabel l onConflict entries a).id = a.id := by
  obtain ⟨label, hlabel⟩ := relabel_eq_with onConflict l entries a
  rw [hlabel]

variable (onConflict) in
theorem address_relabel (l : List Address) (entries : List LabelEntry) (a : Address) :
    (relabel l onConflict entries a).address = a.address := by
  obtain ⟨label, hlabel⟩ := relabel_eq_with onConflict l entries a
  rw [hlabel]

/-- A change of labels leaves alone what the entries name. -/
theorem labelMatch_map {f : Address → Address} (hid : ∀ a, (f a).id = a.id)
    (haddress : ∀ a, (f a).address = a.address) (l : List Address) (entry : LabelEntry) :
    labelMatch (l.map f) entry = (labelMatch l entry).map f := by
  rw [labelMatch, labelMatch, find_map hid, find_map haddress]
  cases find Address.id entry.id l <;> rfl

/-! ### The contacts after an application -/

/-- What a contact of the payload, under the id `id`, is written as. -/
def written (allContacts : List Contact) (onConflict : OnConflict) (now id : String)
    (incoming : PayloadContact) : Option Contact :=
  match find Contact.id id allContacts with
  | none => some (incoming.toContact id now)
  | some existing =>
    if onConflict = .preserve then none else some (incoming.mergeInto existing now)

theorem id_written {l : List Contact} {now id : String} {incoming : PayloadContact} {c : Contact}
    (h : written l onConflict now id incoming = some c) : c.id = id := by
  rw [written] at h
  split at h
  · cases h
    rfl
  · rename_i existing hfind
    split at h
    · cases h
    · cases h
      exact (key_of_find hfind : existing.id = id)

theorem contacts_applyContact (l : List Contact) (now : String) (acc : Applied)
    (incoming : PayloadContact) :
    (applyContact l onConflict now acc incoming).contacts =
      match incoming.id.bind fun id => written l onConflict now id incoming with
      | some c => upsert Contact.id c acc.contacts
      | none => acc.contacts := by
  rw [applyContact]
  cases incoming.id with
  | none => rfl
  | some id =>
    simp only [bind_some, written]
    cases find Contact.id id l with
    | none => rfl
    | some existing => cases onConflict <;> rfl

/-- One contact writes under its own id only. -/
theorem find_applyContact (l : List Contact) (now id : String) (acc : Applied)
    (incoming : PayloadContact) :
    find Contact.id id (applyContact l onConflict now acc incoming).contacts =
      if incoming.id = some id then
        (written l onConflict now id incoming).or (find Contact.id id acc.contacts)
      else find Contact.id id acc.contacts := by
  rw [contacts_applyContact]
  cases hid : incoming.id with
  | none => rfl
  | some id' =>
    simp only [bind_some, Option.some.injEq]
    cases hwritten : written l onConflict now id' incoming with
    | none =>
      by_cases h : id' = id
      · rw [if_pos h, ← h, hwritten]
        rfl
      · rw [if_neg h]
    | some c =>
      have hc := id_written hwritten
      simp only [find_upsert, hc]
      by_cases h : id' = id
      · rw [if_pos h, if_pos h.symm, ← h, hwritten]
        rfl
      · rw [if_neg h, if_neg (Ne.symm h)]

variable (onConflict) in
/-- **The contacts after the loop.** Under an id stands what the payload's contact of that id was
written as, or what stood there. -/
theorem find_foldl_contacts (l : List Contact) (now id : String) {contacts : List PayloadContact}
    (hcontacts : Keyed.Distinct PayloadContact.id contacts) (acc : Applied) :
    find Contact.id id (contacts.foldl (applyContact l onConflict now) acc).contacts =
      ((find PayloadContact.id (some id) contacts).bind
        (written l onConflict now id)).or (find Contact.id id acc.contacts) := by
  induction contacts generalizing acc with
  | nil => rfl
  | cons incoming contacts ih =>
    obtain ⟨hfirst, hrest⟩ := hcontacts.cons
    rw [foldl_cons, ih hrest, find_applyContact, find_cons]
    by_cases h : incoming.id = some id
    · have hnone : find PayloadContact.id (some id) contacts = none :=
        find_eq_none.mpr fun c hc => h ▸ hfirst c hc
      rw [if_pos h, if_pos h, hnone]
      rfl
    · rw [if_neg h, if_neg h]

/-- A contact but for the time of its last change. -/
def Contact.untimed (c : Contact) : Contact := { c with updatedAt := "" }

/-- **Contacts twice.** Where every contact of the payload stands in the list as it would be merged,
a further loop changes times only. -/
theorem untimed_foldl {l : List Contact} {now : String} {contacts : List PayloadContact}
    (h : ∀ incoming ∈ contacts, ∀ id, incoming.id = some id → ∃ c, find Contact.id id l = some c ∧
        (onConflict = .overwrite → (incoming.mergeInto c now).untimed = c.untimed))
    {acc : Applied} (hacc : acc.contacts.map Contact.untimed = l.map Contact.untimed) :
    (contacts.foldl (applyContact l onConflict now) acc).contacts.map Contact.untimed =
      l.map Contact.untimed := by
  induction contacts generalizing acc with
  | nil => exact hacc
  | cons incoming contacts ih =>
    refine ih (fun c hc => h c (.tail _ hc)) ?_
    rw [contacts_applyContact]
    cases hid : incoming.id with
    | none => exact hacc
    | some id =>
      obtain ⟨c, hc, hmerge⟩ := h incoming (.head _) id hid
      simp only [bind_some, written, hc]
      cases onConflict with
      | preserve => exact hacc
      | overwrite =>
        simp only [reduceCtorEq, if_false]
        have hfind := congrArg (find Contact.id id) hacc
        have huntimed : ∀ c : Contact, c.untimed.id = c.id := fun _ => rfl
        rw [find_map huntimed, find_map huntimed, hc, Option.map_some,
          Option.map_eq_some_iff] at hfind
        obtain ⟨b, hb, hbc⟩ := hfind
        have hkey : (incoming.mergeInto c now).id = id := (key_of_find hc : c.id = id)
        rw [map_upsert (hkey ▸ hb) ((hmerge rfl).trans hbc.symm)]
        exact hacc

/-- What was written once is merged into itself, but for the time. -/
theorem untimed_mergeInto {l : List Contact} {now later id : String} {incoming : PayloadContact}
    {c : Contact} (h : written l .overwrite now id incoming = some c) :
    (incoming.mergeInto c later).untimed = c.untimed := by
  rw [written] at h
  split at h
  · cases h
    cases hnotes : incoming.notes <;>
      simp [Contact.untimed, PayloadContact.mergeInto, PayloadContact.toContact, hnotes]
  · simp only [reduceCtorEq, if_false] at h
    cases h
    cases hnotes : incoming.notes <;>
      simp [Contact.untimed, PayloadContact.mergeInto, hnotes]

/-! ### A restored vault -/

/-- The vault `v'` holds, under `wallet'`, the labelled addresses of `wallet`. -/
def Vault.Holds (v v' : Vault) (wallet wallet' : Wallet) : Prop :=
  ∀ a ∈ v.labelled wallet, ∃ b ∈ v'.addresses, v'.Owns wallet' b = true ∧ b.chain = a.chain ∧
    b.network = a.network ∧ b.address = a.address

/-- Every labelled address of the wallet names one record of `v'`: no two records have one address
string, and an id that survived is still the id of that address. -/
structure Vault.Unambiguous (v v' : Vault) (wallet : Wallet) : Prop where
  source : Keyed.Distinct Address.address (v.labelled wallet)
  strings : Keyed.Distinct Address.address v'.addresses
  ids : ∀ a ∈ v.labelled wallet, ∀ b ∈ v'.addresses, b.id = a.id → b.address = a.address

/-- **A restore.** What an application made of `v'`, of the labels and contacts of `v`. -/
structure Vault.Restored (v v' v'' : Vault) (wallet wallet' : Wallet) (onConflict : OnConflict) :
    Prop where
  labels : onConflict = .overwrite → ∀ a ∈ v.labelled wallet, ∃ b ∈ v''.addresses,
    v''.Owns wallet' b = true ∧ b.chain = a.chain ∧ b.network = a.network ∧
      b.address = a.address ∧ b.label = a.label
  contacts : onConflict = .overwrite → ∀ c ∈ v.contacts, ∃ c' ∈ v''.contacts,
    c'.id = c.id ∧ c'.name = c.name ∧ c'.notes = c.notes ∧ c'.entries = c.entries
  own : ∃ f : Address → Address, v''.addresses = v'.addresses.map f ∧
    ∀ b ∈ v'.addresses, f b = b ∨ v'.Owns wallet' b = true ∧ ∃ a ∈ v.labelled wallet,
      b.chain = a.chain ∧ b.network = a.network ∧ b.address = a.address ∧
        f b = { b with label := a.label }
  ownContacts : ∀ c' ∈ v'.contacts, (∀ c ∈ v.contacts, c.id ≠ c'.id) → c' ∈ v''.contacts
  rest : v''.wallets = v'.wallets ∧ v''.accounts = v'.accounts

/-- Two vaults that differ in the times of contacts only. -/
def Vault.SameButTimes (v v' : Vault) : Prop :=
  v'.wallets = v.wallets ∧ v'.accounts = v.accounts ∧ v'.addresses = v.addresses ∧
    v'.contacts.map Contact.untimed = v.contacts.map Contact.untimed

variable {body : LabelSyncBody} {walletId walletId' built now : String}

/-- The entries of the payload for the labelled addresses. -/
def entriesOf (v : Vault) (wallet : Wallet) : List LabelEntry :=
  (v.labelled wallet).map fun a => ⟨a.id, a.address, a.label⟩

/-- The payload of a wallet. -/
def payloadOf (v : Vault) (wallet : Wallet) (built : String) : LabelSyncBody :=
  ⟨LABEL_SYNC_PAYLOAD_VERSION, built, some (entriesOf v wallet),
    some (v.contacts.map toPayloadContact)⟩

/-- What is built from a wallet of the vault. -/
theorem buildLabelSyncPayload_eq_ok (hbuild : buildLabelSyncPayload v walletId built = .ok body) :
    ∃ wallet, find Wallet.id walletId v.wallets = some wallet ∧
      body = payloadOf v wallet built := by
  rw [buildLabelSyncPayload] at hbuild
  split at hbuild
  · cases hbuild
  · split at hbuild
    · cases hbuild
    · rename_i wallet hwallet
      cases hbuild
      exact ⟨wallet, hwallet, rfl⟩

/-- **What an entry names.** Of the records of `v'`, the one with its address string. -/
theorem labelMatch_eq_some (hunambiguous : v.Unambiguous v' wallet) {a b : Address}
    (ha : a ∈ v.labelled wallet) :
    labelMatch v'.addresses ⟨a.id, a.address, a.label⟩ = some b ↔
      b ∈ v'.addresses ∧ b.address = a.address := by
  have hbyString : ∀ c, find Address.address a.address v'.addresses = some c ↔
      c ∈ v'.addresses ∧ c.address = a.address := fun c =>
    find_eq_some hunambiguous.strings
  rw [labelMatch, ← hbyString]
  cases hbyId : find Address.id a.id v'.addresses with
  | none => rfl
  | some c =>
    have hc : c ∈ v'.addresses := mem_of_find hbyId
    have hcString := (hbyString c).mpr
      ⟨hc, hunambiguous.ids a ha c hc (key_of_find hbyId)⟩
    rw [hcString]
    rfl

section Built

variable (hunambiguous : v.Unambiguous v' wallet)

include hunambiguous in
/-- The entries that name one record have one label for it. -/
theorem entries_agree {a b : Address} (ha : a ∈ v.labelled wallet) (hb : b.address = a.address) :
    ∀ entry ∈ entriesOf v wallet, labelMatch v'.addresses entry = some b → entry.label = a.label := by
  intro entry hentry hmatch
  obtain ⟨a', ha', rfl⟩ := mem_map.mp hentry
  have hstring : a'.address = a.address :=
    (((labelMatch_eq_some hunambiguous ha').mp hmatch).2.symm).trans hb
  have hfound := (find_eq_some hunambiguous.source).mpr ⟨ha', hstring⟩
  have hown := (find_eq_some hunambiguous.source).mpr ⟨ha, rfl⟩
  rw [some.inj (hfound.symm.trans hown)]

variable (onConflict) in
include hunambiguous in
/-- **One record.** It stays, or it is that of a labelled address and takes its label. -/
theorem relabel_cases (b : Address) : relabel v'.addresses onConflict (entriesOf v wallet) b = b ∨
      ∃ a ∈ v.labelled wallet, b.address = a.address ∧
        relabel v'.addresses onConflict (entriesOf v wallet) b = { b with label := a.label } := by
  by_cases hnamed : ∃ a ∈ v.labelled wallet, b.address = a.address
  · obtain ⟨a, ha, hab⟩ := hnamed
    rw [relabel_of_agree (entries_agree hunambiguous ha hab)]
    split
    · exact .inr ⟨a, ha, hab, rfl⟩
    · exact .inl rfl
  · refine .inl (relabel_of_not_writes fun entry hentry hmatch => ?_)
    obtain ⟨a, ha, rfl⟩ := mem_map.mp hentry
    exact absurd ⟨a, ha, ((labelMatch_eq_some hunambiguous ha).mp hmatch).2⟩ hnamed

include hunambiguous in
/-- To overwrite is to give the record of a labelled address its label. -/
theorem label_relabel {a b : Address} (ha : a ∈ v.labelled wallet) (hb : b ∈ v'.addresses)
    (hab : b.address = a.address) :
    (relabel v'.addresses .overwrite (entriesOf v wallet) b).label = a.label := by
  rw [relabel_of_agree (entries_agree hunambiguous ha hab)]
  split
  · rfl
  · rename_i hnone
    by_contra hlabel
    refine hnone ⟨⟨a.id, a.address, a.label⟩, List.mem_map_of_mem ha,
      (labelMatch_eq_some hunambiguous ha).mpr ⟨hb, hab⟩, ?_⟩
    simp [Writes, hlabel]

end Built

/-- The payload's contact of an id is what the vault has under it. -/
theorem find_payloadContacts (contacts : List Contact) (id : String) :
    find PayloadContact.id (some id) (contacts.map toPayloadContact) =
      (find Contact.id id contacts).map toPayloadContact := by
  induction contacts with
  | nil => rfl
  | cons c contacts ih =>
    have hid : (toPayloadContact c).id = some c.id := rfl
    rw [List.map_cons, find_cons, find_cons, hid, ih]
    by_cases h : c.id = id
    · rw [if_pos h, if_pos (congrArg some h)]
      rfl
    · rw [if_neg h, if_neg fun hs => h (some.inj hs)]

theorem distinct_payloadContacts {contacts : List Contact} (h : Keyed.Distinct Contact.id contacts) :
    Keyed.Distinct PayloadContact.id (contacts.map toPayloadContact) := by
  rw [Keyed.Distinct, map_map]
  have hids : PayloadContact.id ∘ toPayloadContact = some ∘ Contact.id := rfl
  rw [hids, ← map_map]
  exact h.map fun _ _ => some.inj

/-- A contact comes out of the payload as it went in. -/
theorem toEntries_toPayloadContact (c : Contact) : (toPayloadContact c).toEntries = c.entries := by
  simp [toPayloadContact, PayloadContact.toEntries, comp_def]

/-- What the application of a built payload makes of the addresses of `v'`. -/
theorem restored_addresses (hholds : v.Holds v' wallet wallet')
    (hunambiguous : v.Unambiguous v' wallet) {b : Address} (hb : b ∈ v'.addresses) :
    relabel v'.addresses onConflict (entriesOf v wallet) b = b ∨
      v'.Owns wallet' b = true ∧ ∃ a ∈ v.labelled wallet,
        b.chain = a.chain ∧ b.network = a.network ∧ b.address = a.address ∧
          relabel v'.addresses onConflict (entriesOf v wallet) b = { b with label := a.label } := by
  rcases relabel_cases onConflict hunambiguous b with hsame | ⟨a, ha, hab, hlabel⟩
  · exact .inl hsame
  · obtain ⟨b', hb', howns, hchain, hnetwork, haddress⟩ := hholds a ha
    have hfound := (find_eq_some hunambiguous.strings).mpr ⟨hb', haddress⟩
    have hown := (find_eq_some hunambiguous.strings).mpr ⟨hb, hab⟩
    obtain rfl := some.inj (hfound.symm.trans hown)
    exact .inr ⟨howns, a, ha, hchain, hnetwork, hab, hlabel⟩

/-- Relabelled records are written to by no entry again. -/
theorem relabel_relabel (hunambiguous : v.Unambiguous v' wallet) {b : Address}
    (hb : b ∈ v'.addresses) :
    let f := relabel v'.addresses onConflict (entriesOf v wallet)
    relabel (v'.addresses.map f) onConflict (entriesOf v wallet) (f b) = f b := by
  intro f
  refine relabel_of_not_writes fun entry hentry hmatch => ?_
  rw [labelMatch_map (id_relabel _ _ _) (address_relabel _ _ _), Option.map_eq_some_iff] at hmatch
  obtain ⟨c, hc, hcb⟩ := hmatch
  obtain ⟨a, ha, rfl⟩ := mem_map.mp hentry
  obtain ⟨hcmem, hca⟩ := (labelMatch_eq_some hunambiguous ha).mp hc
  have hbstring : b.address = a.address := by
    rw [← address_relabel onConflict v'.addresses (entriesOf v wallet) b, ← hca,
      ← address_relabel onConflict v'.addresses (entriesOf v wallet) c]
    exact (congrArg Address.address hcb).symm
  have hcfound := (find_eq_some hunambiguous.strings).mpr ⟨hcmem, hca⟩
  have hbfound := (find_eq_some hunambiguous.strings).mpr ⟨hb, hbstring⟩
  obtain rfl := some.inj (hcfound.symm.trans hbfound)
  have hagree := entries_agree hunambiguous ha hca
  have hvalue : f c = if ∃ entry ∈ entriesOf v wallet, labelMatch v'.addresses entry = some c ∧
      Writes onConflict entry c = true then { c with label := a.label } else c :=
    relabel_of_agree hagree
  split at hvalue
  · rw [hvalue]
    simp [Writes]
  · rename_i hnone
    rw [hvalue]
    refine Bool.eq_false_iff.mpr fun hwrites => hnone ?_
    exact ⟨_, hentry, hc, hwrites⟩

/-- The vault after an application. -/
def Vault.after (v : Vault) (done : Applied) : Vault :=
  { v with addresses := done.addresses, contacts := done.contacts }

theorem applyLabelSyncPayload_payloadOf (hid : walletId' ≠ "") (v v' : Vault) (wallet : Wallet) :
    applyLabelSyncPayload v' walletId' (payloadOf v wallet built) onConflict now =
      .ok (v'.after (applied v' (payloadOf v wallet built) onConflict now),
        (applied v' (payloadOf v wallet built) onConflict now).result) := by
  rw [applyLabelSyncPayload, if_neg hid, if_neg fun h => h rfl]
  rfl

variable (wallet built onConflict now) in
/-- What stands under an id after an application of a built payload. -/
theorem find_contacts_applied (hv : v.Stored) (v' : Vault) (id : String) :
    find Contact.id id (applied v' (payloadOf v wallet built) onConflict now).contacts =
      ((find Contact.id id v.contacts).bind fun c =>
        written v'.contacts onConflict now id (toPayloadContact c)).or
          (find Contact.id id v'.contacts) := by
  have hfound := find_foldl_contacts onConflict v'.contacts now id
    (distinct_payloadContacts hv.contacts)
    ((entriesOf v wallet).foldl (applyLabel v'.addresses onConflict)
      ⟨v'.addresses, v'.contacts, ⟨0, 0, 0, 0, 0, 0⟩⟩)
  rw [find_payloadContacts, contacts_foldl_labels, Option.bind_map] at hfound
  exact hfound

/-- To overwrite is to write every contact of the payload. -/
theorem written_overwrite (l : List Contact) (now : String) (c : Contact) :
    ∃ c', written l .overwrite now c.id (toPayloadContact c) = some c' ∧
      c'.id = c.id ∧ c'.name = c.name ∧ c'.notes = c.notes ∧ c'.entries = c.entries := by
  rw [written]
  split
  · exact ⟨_, rfl, rfl, rfl, rfl, toEntries_toPayloadContact c⟩
  · rename_i existing hfind
    exact ⟨_, rfl, (key_of_find hfind : existing.id = c.id), rfl, rfl, toEntries_toPayloadContact c⟩

theorem restored_applied (hv : v.Stored) (hv' : v'.Stored) (hholds : v.Holds v' wallet wallet')
    (hunambiguous : v.Unambiguous v' wallet) :
    v.Restored v' (v'.after (applied v' (payloadOf v wallet built) onConflict now)) wallet wallet'
      onConflict := by
  have haddresses : (applied v' (payloadOf v wallet built) onConflict now).addresses =
      v'.addresses.map (relabel v'.addresses onConflict (entriesOf v wallet)) :=
    addresses_applied hv'.addresses _ _
  refine ⟨?_, ?_, ⟨_, haddresses, fun b hb => restored_addresses hholds hunambiguous hb⟩, ?_, rfl, rfl⟩
  · rintro rfl a ha
    obtain ⟨b, hb, howns, hchain, hnetwork, haddress⟩ := hholds a ha
    refine ⟨relabel v'.addresses .overwrite (entriesOf v wallet) b, ?_, ?_⟩
    · rw [Vault.after, haddresses]
      exact List.mem_map_of_mem hb
    · have hlabel := label_relabel hunambiguous ha hb haddress
      obtain ⟨label, hwith⟩ := relabel_eq_with .overwrite v'.addresses (entriesOf v wallet) b
      rw [hwith] at hlabel ⊢
      exact ⟨howns, hchain, hnetwork, haddress, hlabel⟩
  · rintro rfl c hc
    obtain ⟨c', hwritten, hfields⟩ := written_overwrite v'.contacts now c
    have hfound := find_contacts_applied wallet .overwrite built now hv v' c.id
    rw [(find_eq_some hv.contacts).mpr ⟨hc, rfl⟩, bind_some, hwritten,
      Option.some_or] at hfound
    exact ⟨c', mem_of_find hfound, hfields⟩
  · intro c' hc' hnot
    have hfound := find_contacts_applied wallet onConflict built now hv v' c'.id
    rw [find_eq_none.mpr hnot, Option.bind_none, Option.none_or,
      (find_eq_some hv'.contacts).mpr ⟨hc', rfl⟩] at hfound
    exact mem_of_find hfound

/-- An application of a payload that was applied before changes the times of contacts only. -/
theorem sameButTimes_applied (hv : v.Stored) (hv' : v'.Stored)
    (hunambiguous : v.Unambiguous v' wallet) (later : String) :
    let v'' := v'.after (applied v' (payloadOf v wallet built) onConflict now)
    v''.SameButTimes (v''.after (applied v'' (payloadOf v wallet built) onConflict later)) := by
  intro v''
  have haddresses : v''.addresses =
      v'.addresses.map (relabel v'.addresses onConflict (entriesOf v wallet)) :=
    addresses_applied hv'.addresses _ _
  refine ⟨rfl, rfl, ?_, ?_⟩
  · have hdistinct : Keyed.Distinct Address.id v''.addresses := by
      rw [haddresses]
      simpa [Keyed.Distinct, comp_def, id_relabel] using hv'.addresses
    have hagain : (applied v'' (payloadOf v wallet built) onConflict later).addresses =
        v''.addresses.map (relabel v''.addresses onConflict (entriesOf v wallet)) :=
      addresses_applied hdistinct _ _
    rw [Vault.after, hagain, haddresses, map_map]
    exact List.map_congr_left fun b hb => relabel_relabel hunambiguous hb
  · refine untimed_foldl (fun incoming hincoming id hid => ?_) ?_
    · obtain ⟨c, hc, rfl⟩ := mem_map.mp hincoming
      obtain rfl : c.id = id := some.inj hid
      have hfound := find_contacts_applied wallet onConflict built now hv v' c.id
      rw [(find_eq_some hv.contacts).mpr ⟨hc, rfl⟩, bind_some] at hfound
      cases hwritten : written v'.contacts onConflict now c.id (toPayloadContact c) with
      | some c' =>
        rw [hwritten] at hfound
        refine ⟨c', hfound, ?_⟩
        rintro rfl
        exact untimed_mergeInto hwritten
      | none =>
        rw [hwritten, Option.none_or] at hfound
        rw [written] at hwritten
        split at hwritten
        · cases hwritten
        · rename_i existing hexisting
          refine ⟨existing, hfound.trans hexisting, ?_⟩
          rintro rfl
          simp at hwritten
    · rw [contacts_foldl_labels]

/-- **A restore brings back the labels and contacts.** The payload of a wallet, applied to a vault
that holds it, gives its addresses their labels and the contacts what they had, changes no other
record, and applied once more changes nothing but the times of contacts. -/
theorem restored_of_unambiguous (hv : v.Stored) (hv' : v'.Stored)
    (hbuild : buildLabelSyncPayload v walletId built = .ok body)
    (hwallet : Keyed.find Wallet.id walletId v.wallets = some wallet)
    (hwallet' : Keyed.find Wallet.id walletId' v'.wallets = some wallet')
    (hholds : v.Holds v' wallet wallet') (hunambiguous : v.Unambiguous v' wallet) :
    ∃ v'' result, applyLabelSyncPayload v' walletId' body onConflict now = .ok (v'', result) ∧
      v.Restored v' v'' wallet wallet' onConflict ∧
      ∀ later, ∃ again repeated,
        applyLabelSyncPayload v'' walletId' body onConflict later = .ok (again, repeated) ∧
          v''.SameButTimes again := by
  obtain ⟨wallet₀, hwallet₀, rfl⟩ := buildLabelSyncPayload_eq_ok hbuild
  obtain rfl := Option.some.inj (hwallet₀.symm.trans hwallet)
  have hid : walletId' ≠ "" := by
    have hkey : wallet'.id = walletId' := Keyed.key_of_find hwallet'
    rw [← hkey]
    exact hv'.wallets _ (Keyed.mem_of_find hwallet')
  refine ⟨_, _, applyLabelSyncPayload_payloadOf hid v v' wallet₀,
    restored_applied hv hv' hholds hunambiguous, fun later => ?_⟩
  exact ⟨_, _, applyLabelSyncPayload_payloadOf hid v _ wallet₀,
    sameButTimes_applied hv hv' hunambiguous later⟩

/-! ### A wallet restored from its seed -/

/-- A wallet with one account, one labelled address and a contact. -/
private def saved : Vault where
  wallets := [⟨"w", []⟩]
  accounts := [⟨"acc", "w", "Savings", 0⟩]
  addresses := [⟨"a", some "acc", "BTC", "mainnet", "bc1a", "Rent"⟩]
  contacts := [⟨1, "c", "Alice", "", [⟨"BTC", "bc1x", "home"⟩], "bc1x", "t0", "t0"⟩]

/-- The same wallet restored: new ids and default names. -/
private def restored : Vault where
  wallets := [⟨"r", []⟩]
  accounts := [⟨"acc2", "r", "Account 1", 0⟩]
  addresses := [⟨"b", some "acc2", "BTC", "mainnet", "bc1a", "BTC Address #1"⟩]
  contacts := []

private theorem stored_saved : saved.Stored := ⟨by decide, by decide, by decide⟩

private theorem stored_restored : restored.Stored := ⟨by decide, by decide, by decide⟩

private theorem holds_restored : saved.Holds restored ⟨"w", []⟩ ⟨"r", []⟩ := by
  unfold Vault.Holds
  decide

private theorem unambiguous_restored : saved.Unambiguous restored ⟨"w", []⟩ :=
  ⟨by decide, by decide, by decide⟩

/-- One label and one contact brought back. -/
theorem restored_labels :
    ∃ v'' result, applyLabelSyncPayload restored "r" (payloadOf saved ⟨"w", []⟩ "t1") .overwrite "t2" =
        .ok (v'', result) ∧
      saved.Restored restored v'' ⟨"w", []⟩ ⟨"r", []⟩ .overwrite ∧
      ∀ later, ∃ again repeated,
        applyLabelSyncPayload v'' "r" (payloadOf saved ⟨"w", []⟩ "t1") .overwrite later =
            .ok (again, repeated) ∧
          v''.SameButTimes again :=
  restored_of_unambiguous stored_saved stored_restored
    (show buildLabelSyncPayload saved "w" "t1" = .ok _ from rfl) (by rfl) (by rfl) holds_restored unambiguous_restored

/-- The name of an account does not come back. -/
theorem not_restored_account_name :
    ¬∀ (v v' v'' : Vault) (wallet wallet' : Wallet) (built now : String)
      (result : ApplyLabelSyncResult),
      v.Stored → v'.Stored → v.Holds v' wallet wallet' → v.Unambiguous v' wallet →
      (∀ account ∈ v.accounts, account.walletId = wallet.id →
        ∃ account' ∈ v'.accounts, account'.walletId = wallet'.id ∧ account'.index = account.index) →
      applyLabelSyncPayload v' wallet'.id (payloadOf v wallet built) .overwrite now =
        .ok (v'', result) →
      ∀ account ∈ v.accounts, account.walletId = wallet.id →
        ∃ account' ∈ v''.accounts, account'.walletId = wallet'.id ∧
          account'.index = account.index ∧ account'.name = account.name := by
  intro h
  have happly : applyLabelSyncPayload restored "r" (payloadOf saved ⟨"w", []⟩ "t1") .overwrite "t2" =
      .ok _ := applyLabelSyncPayload_payloadOf (by decide) saved restored ⟨"w", []⟩
  obtain ⟨account', haccount', -, -, hname⟩ := h saved restored _ ⟨"w", []⟩ ⟨"r", []⟩ "t1" "t2" _
    stored_saved stored_restored holds_restored unambiguous_restored (by decide) happly
    ⟨"acc", "w", "Savings", 0⟩ List.mem_cons_self rfl
  obtain rfl := List.mem_singleton.mp haccount'
  exact absurd hname (by decide)

end XchainWallet.LabelSync
