import XchainWallet.Vault.NoLostUpdate
import XchainWallet.Vault.Rollback

/-!
# Changing the key

`rekey` changes the key of the document and the wallets sealed under it in one write. The
relation `sealedUnder key record` says that the seal of a wallet record goes with a key: it
was made under the key's password, or is none of that password's business (a wallet with a
password of its own). `Handle.UnderKey` is the invariant: on every handle the wallets of every
document go with the handle's key, and every blob goes with the key that it is sealed under.
It needs what the callers of the vault promise (`SealsInForce`): a wallet is written under
the key in force when the write runs, and a change of the key replaces every wallet whose
seal would not go with the new one. `Handle.Expects` needs no promise: a key change is stored
over the document that it started from, also when its handle is closed on the way.
-/

namespace XchainWallet

variable {κ ν β : Type}

section Wallets

variable (sealedUnder : κ → VaultRecord ν → Prop)

/-- Every wallet of the document goes with the key. -/
def WalletsUnder (key : κ) (d : VaultDocument ν) : Prop :=
  ∀ r ∈ d.collection .wallets, sealedUnder key r

/-- Every wallet in the blob goes with the key of the blob. -/
def SealedBlob.Consistent (blob : SealedBlob κ ν) : Prop :=
  WalletsUnder sealedUnder blob.key blob.document

/-- The change stores the record in the collection. -/
def Change.Stores (χ : Change ν) (c : Collection) (r : VaultRecord ν) : Prop :=
  match χ with
  | .putMany steps => .record c r ∈ steps
  | .collectionPutMany c' records => c' = c ∧ r ∈ records
  | .delete _ _ => False
  | .clearSettings => False

variable {sealedUnder}

theorem walletsUnder_empty (key : κ) : WalletsUnder sealedUnder key emptyDocument := by
  rintro r ⟨⟩

variable {r : VaultRecord ν}

theorem Change.stores_of_effect {χ : Change ν} {c : Collection} {id : String}
    (h : χ.effect c id = some (some r)) : χ.Stores c r := by
  cases χ with
  | putMany steps =>
    obtain ⟨r', hr', heq⟩ := Option.map_eq_some_iff.mp h
    obtain ⟨⟩ := heq
    obtain ⟨step, hstep, heff⟩ := List.exists_of_findSome?_eq_some hr'
    rw [List.mem_reverse] at hstep
    cases step with
    | settings stored => cases heff
    | record c' r'' =>
      rw [DocumentStep.effect] at heff
      split at heff
      · next hc =>
        obtain ⟨⟩ := heff
        exact hc.1 ▸ hstep
      · cases heff
  | collectionPutMany c' records =>
    rw [effect] at h
    split at h
    · next hc =>
      obtain ⟨r', hr', heq⟩ := Option.map_eq_some_iff.mp h
      obtain ⟨⟩ := heq
      exact ⟨hc, List.mem_reverse.mp (Keyed.mem_of_find hr')⟩
    · cases h
  | delete c' id' =>
    rw [effect] at h
    split at h <;> simp at h
  | clearSettings => cases h

theorem VaultDocument.mem_iff_find {d : VaultDocument ν} (hd : d.Distinct) {c : Collection} :
    r ∈ d.collection c ↔ d.find c r.id = some r := by
  rw [VaultDocument.find, Keyed.find_eq_some (hd c)]
  simp

/-- A record of the document after a change was there, or the change stored it. -/
theorem Change.mem_apply {d : VaultDocument ν} (hd : d.Distinct) {χ : Change ν} {c : Collection}
    (h : r ∈ (χ.apply d).collection c) :
    r ∈ d.collection c ∨ χ.Stores c r := by
  rw [VaultDocument.mem_iff_find (χ.distinct_apply hd), χ.find_apply hd] at h
  rw [VaultDocument.mem_iff_find hd]
  cases heff : χ.effect c r.id with
  | none => exact .inl (by rwa [heff] at h)
  | some e =>
    rw [heff, Option.getD_some] at h
    exact .inr (Change.stores_of_effect (heff.trans (congrArg some h)))

section Replay

variable [DecidableEq ν]

/-- A record of the merged document was in the reload, or in the document after the change. -/
theorem mem_conflictReplay {previous next reloaded merged : VaultDocument ν}
    (hprevious : previous.Distinct) (hnext : next.Distinct) (hreloaded : reloaded.Distinct)
    {replay : ConflictReplay ν} (hreplay : makeConflictReplay previous next = some replay)
    (h : replay.apply reloaded = some merged) {c : Collection} {r : VaultRecord ν}
    (hr : r ∈ merged.collection c) : r ∈ reloaded.collection c ∨ r ∈ next.collection c := by
  have hmerged := distinct_conflictReplay hprevious hnext hreloaded hreplay h
  rw [VaultDocument.mem_iff_find hmerged, find_conflictReplay hprevious hnext hreplay h] at hr
  rw [VaultDocument.mem_iff_find hreloaded, VaultDocument.mem_iff_find hnext]
  split at hr
  · exact .inl hr
  · exact .inr hr

end Replay

/-! ### The wallets that a key change leaves -/

/-- A wallet after the replacements is one of them, or one that none of them replaces. -/
private theorem mem_replaceWallets {wallets arr arr' : List (VaultRecord ν)}
    (harr : Keyed.Distinct VaultRecord.id arr) (h : replaceWallets wallets arr = .ok arr')
    (hr : r ∈ arr') :
    r ∈ wallets ∨ r ∈ arr ∧ ∀ r' ∈ wallets, r'.id ≠ r.id := by
  induction wallets generalizing arr with
  | nil => exact .inr ⟨Except.ok.inj h ▸ hr, by simp⟩
  | cons record wallets ih =>
    rw [replaceWallets] at h
    split at h
    · cases h
    · next idx hidx =>
      have hput : arr.set idx record = Keyed.upsert VaultRecord.id record arr := by
        rw [← putRecord_eq_upsert, putRecord, hidx]
      rw [hput] at h
      rcases ih harr.upsert h with hin | ⟨hin, hno⟩
      · exact .inl (.tail _ hin)
      · by_cases hid : record.id = r.id
        · -- under the id of the replacement there is only the replacement
          have hfind := (Keyed.find_eq_some harr.upsert).mpr ⟨hin, hid.symm⟩
          rw [Keyed.find_upsert_self] at hfind
          exact .inl (Option.some.inj hfind ▸ (.head _))
        · rcases Keyed.mem_upsert hin with rfl | hin
          · exact absurd rfl hid
          · refine .inr ⟨hin, fun r' hr' => ?_⟩
            rcases List.mem_cons.mp hr' with rfl | hr'
            · exact hid
            · exact hno r' hr'

variable [DecidableEq ν]

/-- What the caller of `rekey` promises of the replacements, on a document under `key`: they go
with the key that will be in force, and so does every wallet that they do not replace. -/
def RekeyArgs.SealsUnder (sealedUnder : κ → VaultRecord ν → Prop) (args : RekeyArgs κ ν) (key : κ)
    (d : VaultDocument ν) : Prop :=
  (∀ r ∈ args.wallets, sealedUnder (args.masterKey.getD key) r) ∧
    (args.masterKey.isSome → ∀ r ∈ d.collection .wallets,
      (∀ r' ∈ args.wallets, r'.id ≠ r.id) → sealedUnder (args.masterKey.getD key) r)

theorem RekeyArgs.walletsUnder_build {args : RekeyArgs κ ν} {key : κ} {d d' : VaultDocument ν}
    (hd : d.Distinct) (hwallets : WalletsUnder sealedUnder key d)
    (hargs : args.SealsUnder sealedUnder key d) (h : args.build d = .ok d') :
    WalletsUnder sealedUnder (args.masterKey.getD key) d' := by
  rw [build] at h
  split at h
  · cases h
  · split at h
    · cases h
    · next arr harr =>
      obtain rfl := Except.ok.inj h
      intro r hr
      rw [VaultDocument.collection_withCollection, if_pos rfl] at hr
      rcases mem_replaceWallets (hd .wallets) harr hr with hin | ⟨hin, hno⟩
      · exact hargs.1 r hin
      · cases hkey : args.masterKey with
        | none => exact hwallets r hin
        | some key' =>
          have hseal := hargs.2 (by simp [hkey]) r hin hno
          rwa [hkey] at hseal

end Wallets

/-! ### The key in force -/

section UnderKey

variable [DecidableEq ν] (sealedUnder : κ → VaultRecord ν → Prop)

/-- The wallets of a continuation's documents go with the handle's key, those of a key change
with the key that will be in force. -/
def Cont.UnderKey (masterKey : Option κ) (k : Cont κ ν) : Prop :=
  ∀ key, masterKey = some key →
    match k with
    | .first task _ =>
      WalletsUnder sealedUnder key task.before ∧ WalletsUnder sealedUnder key task.document.val
    | .retry task retried =>
      WalletsUnder sealedUnder key task.before ∧ WalletsUnder sealedUnder key retried.val
    | .rekey previous next nextKey =>
      WalletsUnder sealedUnder key previous.val ∧
        WalletsUnder sealedUnder (nextKey.getD key) next.val

/-- The wallets at an `await`: those of a document go with the handle's key, those of a blob
with its own. -/
def Pc.UnderKey (masterKey : Option κ) : Pc κ ν → Prop
  | .encoding encoded k =>
    k.UnderKey sealedUnder masterKey ∧ ∀ blob, encoded = .ok blob → blob.Consistent sealedUnder
  | .saving request k => k.UnderKey sealedUnder masterKey ∧ request.blob.Consistent sealedUnder
  | .answered _ request k =>
    k.UnderKey sealedUnder masterKey ∧ request.blob.Consistent sealedUnder
  | .stored k => k.UnderKey sealedUnder masterKey
  | .reloading k => k.UnderKey sealedUnder masterKey
  | .loaded answer k =>
    k.UnderKey sealedUnder masterKey ∧
      ∀ blob, answer = .ok (some blob) → blob.Consistent sealedUnder
  | .decoding _ decoded k =>
    k.UnderKey sealedUnder masterKey ∧ ∀ key, masterKey = some key → ∀ d, decoded = .ok d →
      WalletsUnder sealedUnder key d
  | .reloaded document k =>
    k.UnderKey sealedUnder masterKey ∧ ∀ key, masterKey = some key → ∀ d, document = some d →
      WalletsUnder sealedUnder key d
  | .clearing => True
  | .cleared _ => True

/-- The wallets of an `open` under way. -/
def OpenPc.UnderKey (masterKey : Option κ) : OpenPc κ ν → Prop
  | .loading => True
  | .loaded answer => ∀ blob, answer = .ok (some blob) → blob.Consistent sealedUnder
  | .decoding _ decoded =>
    ∀ key, masterKey = some key → ∀ d, decoded = .ok d → WalletsUnder sealedUnder key d

/-- The wallets of a handle go with its key. -/
structure Handle.UnderKey (s : Handle κ ν) : Prop where
  doc : ∀ key, s.masterKey = some key → ∀ o, s.doc = some o → WalletsUnder sealedUnder key o.val
  opening : ∀ pc, s.opening = some pc → pc.UnderKey sealedUnder s.masterKey
  running : ∀ r, s.running = some r → r.pc.UnderKey sealedUnder s.masterKey

/-- The promise of the caller, for an operation that starts under `key` on a document. -/
def Op.SealsUnder (key : κ) (d : VaultDocument ν) : Op κ ν → Prop
  | .mutate χ => ∀ r, χ.Stores .wallets r → sealedUnder key r
  | .rekey args => args.SealsUnder sealedUnder key d
  | .save => True
  | .clear => True

/-- An operation that starts writes wallets under the key in force. -/
def Handle.SealsInForce (s : Handle κ ν) : Act κ ν → Prop
  | .start _ _ => ∀ call op queue key o, s.queue = (call, op) :: queue → s.masterKey = some key →
    s.doc = some o → op.SealsUnder sealedUnder key o.val
  | _ => True

variable {sealedUnder} {β : Type} {aead : Aead κ (ParsedDocument ν) β} {schema : Schema ν}

omit [DecidableEq ν] in
private theorem Pc.UnderKey.none {masterKey : Option κ} {pc : Pc κ ν}
    (h : pc.UnderKey sealedUnder masterKey) : pc.UnderKey sealedUnder Option.none := by
  have hk : ∀ {k : Cont κ ν}, k.UnderKey sealedUnder Option.none := by rintro k key ⟨⟩
  cases pc with
  | encoding encoded k | saving request k | answered answer request k => exact ⟨hk, h.2⟩
  | stored k | reloading k => exact hk
  | loaded answer k => exact ⟨hk, h.2⟩
  | decoding blob decoded k | reloaded document k => exact ⟨hk, by rintro key ⟨⟩⟩
  | clearing | cleared answer => trivial

omit [DecidableEq ν] in
private theorem walletsUnder_decoded {blob : SealedBlob κ ν} (hblob : blob.Consistent sealedUnder)
    {masterKey : Option κ} {key : κ} (hkey : masterKey = some key) {d : VaultDocument ν}
    (h : decodeDocument aead masterKey (blob.bytes aead) = .ok d) :
    WalletsUnder sealedUnder key d := by
  obtain ⟨hkey', rfl⟩ := decodeDocument_eq_ok h
  obtain rfl := Option.some.inj (hkey.symm.trans hkey')
  exact hblob

omit [DecidableEq ν] in
private theorem consistent_of_encode {masterKey : Option κ} {nonce : ℕ} {fault : Option String}
    {d : VaultDocument ν} {blob : SealedBlob κ ν}
    (hd : ∀ key, masterKey = some key → WalletsUnder sealedUnder key d)
    (h : encode masterKey nonce fault d = .ok blob) : blob.Consistent sealedUnder := by
  obtain ⟨hkey, hval⟩ := encode_eq_ok h
  rw [SealedBlob.Consistent, hval]
  exact hd _ hkey

omit [DecidableEq ν] in
private theorem Pc.UnderKey.next {s : Handle κ ν} {stored : Option (SealedBlob κ ν)}
    {pc pc' : Pc κ ν} (h : pc.UnderKey sealedUnder s.masterKey)
    (hstored : ∀ b, stored = some b → b.Consistent sealedUnder)
    (hnext : Pc.Next aead s stored pc pc') : pc'.UnderKey sealedUnder s.masterKey := by
  cases hnext with
  | send => exact ⟨h.1, h.2 _ rfl⟩
  | resend | refuse => exact h
  | reload => exact h.1
  | skipReload | skipLoaded | skipDecoded => exact ⟨h.1, by rintro _ - _ ⟨⟩⟩
  | loadFault => exact ⟨h, by rintro _ ⟨⟩⟩
  | load => exact ⟨h, fun b hb => hstored b (Except.ok.inj hb)⟩
  | decode => exact ⟨h.1, fun key hkey d hd => walletsUnder_decoded (h.2 _ rfl) hkey hd⟩
  | clearFault => trivial

namespace Handle.UnderKey

variable {s s' : Handle κ ν} {stored : Option (SealedBlob κ ν)} {log : List (Event κ ν)}
  {base : VaultDocument ν → Prop} {applied : Op κ ν → Prop}

omit [DecidableEq ν] in
/-- The running write moves on under the same key. -/
private theorem proceed (hs : s.UnderKey sealedUnder) {r : Running κ ν} {pc : Pc κ ν}
    (hrun' : s'.running = some { r with pc := pc }) (hkey : s'.masterKey = s.masterKey)
    (hpc : pc.UnderKey sealedUnder s.masterKey)
    (hdoc : ∀ key, s.masterKey = some key → ∀ o, s'.doc = some o →
      WalletsUnder sealedUnder key o.val) (hopening : s'.opening = s.opening) :
    s'.UnderKey sealedUnder := by
  refine ⟨hkey ▸ hdoc, hkey ▸ hopening ▸ hs.opening, fun r' hr' => ?_⟩
  obtain rfl := Option.some.inj (hrun'.symm.trans hr')
  exact hkey ▸ hpc

omit [DecidableEq ν] in
private theorem settle (hs : s.UnderKey sealedUnder) (hrun' : s'.running = none)
    (hkey : s'.masterKey = s.masterKey)
    (hdoc : ∀ key, s.masterKey = some key → ∀ o, s'.doc = some o →
      WalletsUnder sealedUnder key o.val) (hopening : s'.opening = s.opening) :
    s'.UnderKey sealedUnder :=
  ⟨hkey ▸ hdoc, hkey ▸ hopening ▸ hs.opening, fun r hr => by simp [hrun'] at hr⟩

omit [DecidableEq ν] in
private theorem locked (hs : s.UnderKey sealedUnder) (hkey : s'.masterKey = none)
    (hrunning : ∀ r, s'.running = some r → r.pc.UnderKey sealedUnder none)
    (hopening : s'.opening = s.opening) : s'.UnderKey sealedUnder := by
  refine ⟨fun key h => by simp [hkey] at h, fun pc hpc => ?_, fun r hr => ?_⟩
  · have h := hs.opening pc (hopening ▸ hpc)
    rw [hkey]
    cases pc with
    | loading => trivial
    | loaded answer => exact h
    | decoding blob decoded => rintro key ⟨⟩
  · rw [hkey]
    exact hrunning r hr

omit [DecidableEq ν] in
/-- The wallets of a continuation's documents, at an await on which the write rejects. -/
private theorem failing {r : Running κ ν} {k : Cont κ ν} (hs : s.UnderKey sealedUnder)
    (hrun : s.running = some r) (hpc : Pc.Failing k r.pc) :
    k.UnderKey sealedUnder s.masterKey := by
  have h := hs.running r hrun
  generalize r.pc = pc at hpc h
  cases hpc with
  | encoding | answered | loaded | reloaded => exact h.1


/-- **The wallets stay under the key.** A step of a handle whose operation writes wallets under
the key in force leaves its documents, and the stored blob, under their keys. -/
theorem move {act : Act κ ν} {o : Outcome κ ν} (hs : s.UnderKey sealedUnder) (hsound : s.Sound log)
    (hprov : s.Provenance base applied) (hbase : ∀ d, base d → d.Distinct)
    (hstored : ∀ b, stored = some b → b.Consistent sealedUnder)
    (hact : s.SealsInForce sealedUnder act) (hmove : Move aead schema s stored act o) :
    o.handle.UnderKey sealedUnder ∧ ∀ b, o.stored = some b → b.Consistent sealedUnder := by
  have hdistinct : ∀ {applied : Op κ ν → Prop} {d}, Derived base applied d → d.Distinct :=
    fun hd => hd.distinct hbase
  cases hmove with
  | idle => exact ⟨hs, hstored⟩
  | beginOpen => exact ⟨⟨hs.doc, by rintro _ ⟨⟩; trivial, hs.running⟩, hstored⟩
  | openLoaded hpc hanswer =>
    refine ⟨⟨hs.doc, ?_, hs.running⟩, hstored⟩
    rintro _ ⟨⟩ blob hblob
    exact hstored blob (hanswer _ hblob).symm
  | openFailed => exact ⟨⟨hs.doc, by rintro _ ⟨⟩, hs.running⟩, hstored⟩
  | @openDecode blob hpc =>
    refine ⟨⟨hs.doc, ?_, hs.running⟩, hstored⟩
    rintro _ ⟨⟩ key hkey d hd
    exact walletsUnder_decoded (hs.opening _ hpc blob rfl) hkey hd
  | openEmpty =>
    refine ⟨⟨fun key _ o ho => ?_, by rintro _ ⟨⟩, hs.running⟩, hstored⟩
    exact Option.some.inj ho ▸ walletsUnder_empty key
  | openDecoded hpc =>
    refine ⟨⟨fun key hkey o ho => ?_, by rintro _ ⟨⟩, hs.running⟩, hstored⟩
    exact Option.some.inj ho ▸ hs.opening _ hpc key hkey _ rfl
  | called | setAutoSave | startRejected => exact ⟨⟨hs.doc, hs.opening, hs.running⟩, hstored⟩
  | close => exact ⟨hs.locked rfl (fun r hr => (hs.running r hr).none) rfl, hstored⟩
  | startClear => exact ⟨⟨hs.doc, hs.opening, by rintro _ ⟨⟩; trivial⟩, hstored⟩
  | startSave _ _ _ _ hdoc =>
    refine ⟨⟨hs.doc, hs.opening, ?_⟩, hstored⟩
    rintro _ ⟨⟩
    exact ⟨fun key hkey => ⟨hs.doc key hkey _ hdoc, hs.doc key hkey _ hdoc⟩,
      fun blob => consistent_of_encode fun key hkey => hs.doc key hkey _ hdoc⟩
  | @startMutate _ _ _ χ _ previous hrun hqueue _ _ hdoc =>
    have hnew : ∀ key, s.masterKey = some key →
        WalletsUnder sealedUnder key (χ.object s.nextRef previous).val := by
      intro key hkey r hr
      rw [χ.val_object] at hr
      rcases χ.mem_apply (hdistinct (hprov.doc_idle hrun hdoc)) hr with hold | hput
      · exact hs.doc key hkey _ hdoc r hold
      · exact hact _ _ _ key _ hqueue hkey hdoc r hput
    refine ⟨⟨fun key hkey o ho => Option.some.inj ho ▸ hnew key hkey, hs.opening, ?_⟩, hstored⟩
    rintro _ ⟨⟩
    exact ⟨fun key hkey => ⟨hs.doc key hkey _ hdoc, hnew key hkey⟩,
      fun blob => consistent_of_encode hnew⟩
  | @startUnsaved _ _ _ χ _ previous hrun hqueue _ _ hdoc =>
    refine ⟨⟨fun key hkey o ho r hr => ?_, hs.opening, hs.running⟩, hstored⟩
    obtain ⟨⟩ := ho
    rw [χ.val_object] at hr
    rcases χ.mem_apply (hdistinct (hprov.doc_idle hrun hdoc)) hr with hold | hput
    · exact hs.doc key hkey _ hdoc r hold
    · exact hact _ _ _ key _ hqueue hkey hdoc r hput
  | @startRekey _ _ _ args _ previous document hrun hqueue _ hkey hdoc hbuild =>
    have hnext : ∀ key, s.masterKey = some key →
        WalletsUnder sealedUnder (args.masterKey.getD key) document := fun key hkey =>
      RekeyArgs.walletsUnder_build (hdistinct (hprov.doc_idle hrun hdoc)) (hs.doc key hkey _ hdoc)
        (hact _ _ _ key _ hqueue hkey hdoc) hbuild
    refine ⟨⟨hs.doc, hs.opening, ?_⟩, hstored⟩
    rintro _ ⟨⟩
    refine ⟨fun key hkey => ⟨hs.doc key hkey _ hdoc, hnext key hkey⟩, fun blob hblob => ?_⟩
    obtain ⟨key, hkey⟩ := Option.ne_none_iff_exists'.mp hkey
    obtain ⟨hkey', hval⟩ := encode_eq_ok hblob
    have hblobkey : args.masterKey.getD key = blob.key := by
      rw [hkey] at hkey'
      cases hargs : args.masterKey <;> simpa [hargs] using hkey'
    rw [SealedBlob.Consistent, hval, ← hblobkey]
    exact hnext key hkey
  | next hrun hnext =>
    exact ⟨hs.proceed rfl rfl ((hs.running _ hrun).next hstored hnext) hs.doc rfl, hstored⟩
  | @commit _ r request k hrun hpc =>
    have h := hs.running r hrun
    rw [hpc] at h
    refine ⟨hs.proceed rfl rfl h hs.doc rfl, fun b hb => ?_⟩
    exact Option.some.inj hb ▸ h.2
  | wipe => exact ⟨hs.proceed rfl rfl trivial hs.doc rfl, by rintro _ ⟨⟩⟩
  | @savedClosed _ _ r request k hrun hpc | @saved _ _ r request k hrun hpc =>
    have h := hs.running r hrun
    rw [hpc] at h
    exact ⟨hs.proceed rfl rfl h.1 hs.doc rfl, hstored⟩
  | @fail _ r k err hrun hpc =>
    have hk := hs.failing hrun hpc
    refine ⟨hs.settle rfl (by simp [Handle.fail]) (fun key hkey o ho => ?_)
      (by simp [Handle.fail]), hstored⟩
    obtain h | ⟨previous, document, result, hcont, -, h⟩ := k.rollback_cases s
    · exact hs.doc key hkey o (by simpa [Handle.fail, h] using ho)
    · have ho' : previous = o := by simpa [Handle.fail, h] using ho
      rcases hcont with ⟨replay, rfl⟩ | ⟨retried, rfl⟩
      · exact ho' ▸ (hk key hkey).1
      · exact ho' ▸ (hk key hkey).1
  | closing =>
    refine ⟨hs.locked rfl (fun r hr => ?_) rfl, hstored⟩
    obtain ⟨⟩ := hr
    exact ⟨by rintro key ⟨⟩, by rintro key ⟨⟩⟩
  | @reloaded _ _ r blob document k hrun hpc =>
    have h := hs.running r hrun
    rw [hpc] at h
    have hdocument : ∀ key, s.masterKey = some key → WalletsUnder sealedUnder key document :=
      fun key hkey => h.2 key hkey _ rfl
    refine ⟨hs.proceed rfl rfl ⟨h.1, fun key hkey d hd => ?_⟩ (fun key hkey o ho => ?_) rfl, hstored⟩
    · exact Option.some.inj hd ▸ hdocument key hkey
    · exact Option.some.inj ho ▸ hdocument key hkey
  | @retry _ _ r task replay document merged hrun hpc happly =>
    have h := hs.running r hrun
    have hp := hprov.running r hrun
    rw [hpc] at h hp
    obtain ⟨hk, hreloaded⟩ := h
    obtain ⟨⟨-, htask, hreplay⟩, hrel⟩ := hp
    obtain ⟨persisted, hpersisted, hmake⟩ := hreplay replay rfl
    have hmerged : ∀ key, s.masterKey = some key → WalletsUnder sealedUnder key merged := by
      intro key hkey w hw
      rcases mem_conflictReplay (hdistinct hpersisted) (hdistinct htask)
        (hdistinct (hrel document rfl)) hmake happly hw with hin | hin
      · exact hreloaded key hkey _ rfl w hin
      · exact (hk key hkey).2 w hin
    exact ⟨hs.proceed rfl rfl ⟨fun key hkey => ⟨(hk key hkey).1, hmerged key hkey⟩,
      fun blob => consistent_of_encode hmerged⟩ hs.doc rfl, hstored⟩
  | resolveFirst | resolveRetryClosed | rekeyMissed | clearFailed =>
    exact ⟨hs.settle rfl rfl hs.doc rfl, hstored⟩
  | @resolveRetry _ _ r task retried hrun hpc =>
    have h := hs.running r hrun
    rw [hpc] at h
    refine ⟨hs.settle rfl rfl (fun key hkey o ho => ?_) rfl, hstored⟩
    exact Option.some.inj ho ▸ (h key hkey).2
  | @rekeySwitch _ _ r previous next nextKey hrun hpc _ hkey =>
    have h := hs.running r hrun
    rw [hpc] at h
    -- no `open` is under way beside a write that goes on, so the document is all there is
    have hopening : s.opening = none := by
      by_contra hne
      have := hsound.wellFormed.cont_of_opening hkey hne hrun
      simp [hpc, Pc.cont] at this
    obtain ⟨key, hkey⟩ := Option.ne_none_iff_exists'.mp hkey
    refine ⟨⟨fun key' hkey' o ho => ?_, by simp [hopening], by rintro _ ⟨⟩⟩, hstored⟩
    obtain ⟨⟩ := ho
    have hkeys : nextKey.getD key = key' := by
      rw [hkey] at hkey'
      cases nextKey <;> simpa using hkey'
    exact hkeys ▸ (h key hkey).2
  | clearDone => exact ⟨⟨by rintro _ _ _ ⟨⟩, hs.opening, by rintro _ ⟨⟩⟩, hstored⟩

end Handle.UnderKey

end UnderKey

/-! ### What a key change replaces -/

section Replaces

variable [DecidableEq ν]

/-- A key change that is on its way to the backend expects the document that it started from. -/
def Pc.Expects : Pc κ ν → Prop
  | .saving request (.rekey previous _ _) | .answered _ request (.rekey previous _ _) =>
    ∀ blob, request.expected = some blob → blob.document = previous.val
  | _ => True

/-- What a key change of a handle replaces, whether or not the handle is closed meanwhile. -/
structure Handle.Expects (s : Handle κ ν) : Prop where
  closed : s.masterKey = none → ∀ r, s.running = some r → r.pc.cont ≠ none →
    s.persistedBlob = none ∧ ∀ blob d, s.opening ≠ some (.decoding blob (.ok d))
  running : ∀ r, s.running = some r → r.pc.Expects

namespace Handle.Expects

variable {aead : Aead κ (ParsedDocument ν) β} {schema : Schema ν} {s s' : Handle κ ν}
  {stored : Option (SealedBlob κ ν)} {log : List (Event κ ν)}

/-- A running write has no `open` beside it that could still succeed. -/
private theorem opening (hs : s.Expects) (hwf : s.WellFormed) {r : Running κ ν}
    (hrun : s.running = some r) (hcont : r.pc.cont ≠ none) (blob : SealedBlob κ ν)
    (d : VaultDocument ν) : s.opening ≠ some (.decoding blob (.ok d)) := by
  by_cases hkey : s.masterKey = none
  · exact (hs.closed hkey r hrun hcont).2 blob d
  · intro hopening
    exact hcont (hwf.cont_of_opening hkey (by simp [hopening]) hrun)

omit [DecidableEq ν] in
private theorem settle (hrun' : s'.running = none) : s'.Expects :=
  ⟨fun _ r hr => by simp [hrun'] at hr, fun r hr => by simp [hrun'] at hr⟩

omit [DecidableEq ν] in
/-- The write goes on under a key. -/
private theorem unlocked (hkey : s'.masterKey ≠ none)
    (hrunning : ∀ r, s'.running = some r → r.pc.Expects) : s'.Expects :=
  ⟨fun h => absurd h hkey, hrunning⟩

omit [DecidableEq ν] in
private theorem proceed (hs : s.Expects) {r : Running κ ν} {pc : Pc κ ν}
    (hrun : s.running = some r) (hcont : pc.cont = r.pc.cont) (hpc : pc.Expects) :
    (s.suspend r pc).Expects := by
  refine ⟨fun hkey r' hr' hne => ?_, fun r' hr' => Option.some.inj hr' ▸ hpc⟩
  obtain ⟨⟩ := hr'
  exact hs.closed hkey r hrun (hcont ▸ hne)

private theorem next (hs : s.Expects) (hsync : s.Synced) {r : Running κ ν} {pc : Pc κ ν}
    (hrun : s.running = some r) (hnext : Pc.Next aead s stored r.pc pc) : pc.Expects := by
  have h := hs.running r hrun
  have hclosed := fun hkey => (hs.closed hkey r hrun)
  have hsynced := fun hkey => hsync.running hkey r hrun
  generalize r.pc = pc₀ at hnext h hclosed hsynced
  cases hnext with
  | @send blob k =>
    cases k with
    | rekey previous next nextKey =>
      intro blob hblob
      have hblob : s.persistedBlob = some blob := hblob
      by_cases hkey : s.masterKey = none
      · simp [(hclosed hkey (by simp [Pc.cont])).1] at hblob
      · have hbase := hsync.baseline hkey _ (hsynced hkey)
        rwa [hblob] at hbase
    | first task replay => trivial
    | retry task retried => trivial
  | @resend request k | @refuse err request k =>
    cases k with
    | rekey previous next nextKey => exact h
    | first task replay => trivial
    | retry task retried => trivial
  | _ => trivial

/-- **A key change keeps expecting what it started from.** -/
theorem move {act : Act κ ν} {o : Outcome κ ν} (hs : s.Expects) (hsound : s.Sound log)
    (hsync : s.Synced) (hmove : Move aead schema s stored act o) : o.handle.Expects := by
  have hwf := hsound.wellFormed
  cases hmove with
  | idle => exact hs
  | beginOpen | openLoaded | openFailed =>
    exact ⟨fun hkey r hr hne => ⟨(hs.closed hkey r hr hne).1, by rintro _ _ ⟨⟩⟩, hs.running⟩
  | openDecode =>
    refine ⟨fun hkey r hr hne => ⟨(hs.closed hkey r hr hne).1, fun blob d h => ?_⟩, hs.running⟩
    have hkey : s.masterKey = none := hkey
    simp [hkey, decodeDocument] at h
  | openEmpty => exact ⟨fun _ _ _ _ => ⟨rfl, by rintro _ _ ⟨⟩⟩, hs.running⟩
  | openDecoded hpc =>
    refine ⟨fun hkey r hr hne => ?_, hs.running⟩
    exact absurd hpc (hs.opening hwf hr hne _ _)
  | called | setAutoSave | startRejected => exact ⟨hs.closed, hs.running⟩
  | close => exact ⟨fun _ r hr hne => ⟨rfl, hs.opening hwf hr hne⟩, hs.running⟩
  | startClear => exact ⟨by rintro _ _ ⟨⟩ h; exact absurd rfl h, by rintro _ ⟨⟩; trivial⟩
  | startSave _ _ _ hkey | startMutate _ _ _ hkey | startRekey _ _ _ hkey | saved _ _ hkey
  | reloaded _ _ hkey => exact unlocked hkey (by rintro _ ⟨⟩; trivial)
  | startUnsaved hrun => exact settle hrun
  | next hrun hnext => exact hs.proceed hrun hnext.cont_eq (hs.next hsync hrun hnext)
  | @commit _ r request k hrun hpc =>
    have h := hs.running r hrun
    rw [hpc] at h
    refine hs.proceed hrun (by rw [hpc]; rfl) ?_
    cases k with
    | rekey previous next nextKey => exact h
    | first task replay => trivial
    | retry task retried => trivial
  | wipe hrun hpc | savedClosed hrun hpc => exact hs.proceed hrun (by rw [hpc]; rfl) trivial
  | fail => exact settle rfl
  | closing hrun hpc =>
    refine ⟨fun _ r' hr' _ => ⟨rfl, ?_⟩, by rintro _ ⟨⟩; trivial⟩
    exact hs.opening hwf hrun (by simp [hpc.cont_eq])
  | retry hrun hpc =>
    refine ⟨fun hkey r' hr' _ => ?_, by rintro _ ⟨⟩; trivial⟩
    exact hs.closed hkey _ hrun (by simp [hpc, Pc.cont])
  | resolveFirst | resolveRetryClosed | resolveRetry | rekeyMissed | rekeySwitch | clearDone
  | clearFailed => exact settle rfl

end Handle.Expects

end Replaces

end XchainWallet
