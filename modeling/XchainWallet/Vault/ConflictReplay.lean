import Mathlib.Algebra.GroupWithZero.Nat
import Mathlib.Algebra.Order.BigOperators.Group.List
import XchainWallet.Vault.Document

/-!
# The conflict replay

When a save finds other bytes than the handle last saw, `makeConflictReplay` decides whether
the change may be merged onto the reloaded document: only the addition of one wallet (with
whatever new records come with it) and a name-only rename of one wallet are.

`find_conflictReplay` is the meaning of the merge: on every record it is the three-way merge
of the document before the change, the document after it, and the reloaded one. What the
change altered is taken from the change, everything else from the reload.
-/

namespace XchainWallet

variable {ν : Type} [DecidableEq ν]

/-- The wallet rename that the scan of a collection has met so far. -/
structure ChangedWallet (ν : Type) where
  before : VaultRecord ν
  after : VaultRecord ν
deriving DecidableEq

/-- The single-use merge that `makeConflictReplay` returns. -/
inductive ConflictReplay (ν : Type)
  | addWallet (additions : Collection → List (VaultRecord ν))
  | renameWallet (changedWallet : ChangedWallet ν)

/-- `afterById.get(id)`: a map built from a list holds the last record under an id. -/
def afterById (after : List (VaultRecord ν)) (id : String) : Option (VaultRecord ν) :=
  Keyed.find VaultRecord.id id after.reverse

/-- The loop over the records of one collection before the change. `none` is the early
`return null`; otherwise the loop carries the changed wallet. -/
def scanRecords (key : Collection) (after : List (VaultRecord ν)) :
    List (VaultRecord ν) → Option (ChangedWallet ν) → Option (Option (ChangedWallet ν))
  | [], changedWallet => some changedWallet
  | record :: before, changedWallet =>
    match afterById after record.id with
    | none => none
    | some replacement =>
      if record = replacement then scanRecords key after before changedWallet
      else if key ≠ .wallets ∨ changedWallet.isSome then none
      else if record.name = replacement.name ∨ record.withoutName ≠ replacement.withoutName then
        none
      else scanRecords key after before (some ⟨record, replacement⟩)

/-- The loop over the collections. -/
def scanCollections (previous next : VaultDocument ν) :
    List Collection → Option (ChangedWallet ν) → Option (Option (ChangedWallet ν))
  | [], changedWallet => some changedWallet
  | key :: keys, changedWallet =>
    if (next.collection key).length < (previous.collection key).length then none
    else match scanRecords key (next.collection key) (previous.collection key) changedWallet with
      | none => none
      | some changedWallet => scanCollections previous next keys changedWallet

/-- `after.filter((record) => !beforeById.has(record.id))`. -/
def additionsOf (previous next : VaultDocument ν) (key : Collection) : List (VaultRecord ν) :=
  (next.collection key).filter fun record =>
    !(previous.collection key).any fun r => r.id = record.id

/-- `makeConflictReplay(previous, next)`. -/
def makeConflictReplay (previous next : VaultDocument ν) : Option (ConflictReplay ν) :=
  match scanCollections previous next documentArrayKeys none with
  | none => none
  | some changedWallet =>
    if previous.settings ≠ next.settings then none
    else
      let additions := additionsOf previous next
      let addedWallets := (additions .wallets).length
      let totalAdditions := (documentArrayKeys.map fun key => (additions key).length).sum
      if addedWallets = 1 ∧ changedWallet.isNone then some (.addWallet additions)
      else match changedWallet with
        | some changed => if totalAdditions = 0 then some (.renameWallet changed) else none
        | none => none

/-- Apply the merge to the reloaded document; `none` is its `null`. -/
def ConflictReplay.apply (reloaded : VaultDocument ν) : ConflictReplay ν → Option (VaultDocument ν)
  | .addWallet additions =>
    if documentArrayKeys.any fun key => (additions key).any fun record =>
        (reloaded.collection key).any fun r => r.id = record.id then none
    else some { reloaded with collection := fun key => reloaded.collection key ++ additions key }
  | .renameWallet changed =>
    match (reloaded.collection .wallets).findIdx? fun r => r.id = changed.before.id with
    | none => none
    | some index =>
      if (reloaded.collection .wallets)[index]? = some changed.before then
        some (reloaded.withCollection .wallets ((reloaded.collection .wallets).set index changed.after))
      else none

/-! ### What the scan establishes -/

variable {changed changed' : Option (ChangedWallet ν)}

private theorem scanRecords_of_ne {key : Collection} (hkey : key ≠ .wallets)
    {after before : List (VaultRecord ν)} (h : scanRecords key after before changed = some changed') :
    changed' = changed ∧ ∀ r ∈ before, afterById after r.id = some r := by
  induction before with
  | nil => exact ⟨(Option.some.inj h).symm, fun r hr => absurd hr List.not_mem_nil⟩
  | cons record before ih =>
    rw [scanRecords] at h
    cases hrep : afterById after record.id with
    | none => simp [hrep] at h
    | some replacement =>
      simp only [hrep, hkey, ne_eq, not_false_eq_true, true_or, if_true] at h
      split at h
      · next heq =>
        obtain ⟨hc, hmem⟩ := ih h
        refine ⟨hc, fun r hr => ?_⟩
        rcases List.mem_cons.mp hr with rfl | hr
        · rw [hrep, heq]
        · exact hmem r hr
      · cases h

/-- What the wallet scan says of the wallet it reports as changed. -/
private def IsRename (after : List (VaultRecord ν)) (cw : ChangedWallet ν) : Prop :=
  afterById after cw.before.id = some cw.after ∧ cw.before ≠ cw.after

private theorem scanRecords_wallets {after before : List (VaultRecord ν)}
    (h : scanRecords .wallets after before changed = some changed') :
    (∀ cw, changed = some cw → changed' = some cw) ∧
      (∀ cw, changed' = some cw → changed = some cw ∨ cw.before ∈ before ∧ IsRename after cw) ∧
      ∀ r ∈ before, afterById after r.id = some r ∨ ∃ cw, changed' = some cw ∧ cw.before = r := by
  induction before generalizing changed with
  | nil =>
    obtain ⟨⟩ := h
    exact ⟨fun _ => id, fun _ => .inl, fun r hr => absurd hr List.not_mem_nil⟩
  | cons record before ih =>
    rw [scanRecords] at h
    cases hrep : afterById after record.id with
    | none => simp [hrep] at h
    | some replacement =>
      simp only [hrep, ne_eq, not_true_eq_false, false_or] at h
      split at h
      · next heq =>
        obtain ⟨hkeep, hnew, hmem⟩ := ih h
        refine ⟨hkeep, fun cw hcw => (hnew cw hcw).imp_right (.imp_left (.tail _)), fun r hr => ?_⟩
        rcases List.mem_cons.mp hr with rfl | hr
        · exact .inl (heq ▸ hrep)
        · exact hmem r hr
      · next hne =>
        split at h
        · cases h
        · next hnone =>
          split at h
          · cases h
          · obtain ⟨hkeep, hnew, hmem⟩ := ih h
            refine ⟨fun cw hcw => absurd (hcw ▸ rfl) hnone, fun cw hcw => ?_, fun r hr => ?_⟩
            · rcases hnew cw hcw with hcw | ⟨hin, hren⟩
              · obtain ⟨⟩ := hcw
                exact .inr ⟨(.head _), hrep, hne⟩
              · exact .inr ⟨List.mem_cons_of_mem _ hin, hren⟩
            · rcases List.mem_cons.mp hr with rfl | hr
              · exact .inr ⟨_, hkeep _ rfl, rfl⟩
              · exact hmem r hr

private theorem scanCollections_of_ne {previous next : VaultDocument ν} {keys : List Collection}
    (hkeys : ∀ key ∈ keys, key ≠ .wallets)
    (h : scanCollections previous next keys changed = some changed') :
    changed' = changed ∧ ∀ key ∈ keys, ∀ r ∈ previous.collection key,
      afterById (next.collection key) r.id = some r := by
  induction keys generalizing changed with
  | nil => exact ⟨(Option.some.inj h).symm, fun key hkey => absurd hkey List.not_mem_nil⟩
  | cons key keys ih =>
    rw [scanCollections] at h
    split at h
    · cases h
    · cases hscan : scanRecords key (next.collection key) (previous.collection key) changed with
      | none => simp [hscan] at h
      | some changed₁ =>
        rw [hscan] at h
        obtain ⟨rfl, hhead⟩ := scanRecords_of_ne (hkeys key (.head _)) hscan
        obtain ⟨rfl, htail⟩ := ih (fun k hk => hkeys k (.tail _ hk)) h
        refine ⟨rfl, fun k hk => ?_⟩
        rcases List.mem_cons.mp hk with rfl | hk
        · exact hhead
        · exact htail k hk

/-- The whole scan: only a wallet can change, and every other record is kept. -/
private theorem scanCollections_spec {previous next : VaultDocument ν}
    {changed : Option (ChangedWallet ν)}
    (h : scanCollections previous next documentArrayKeys none = some changed) :
    (∀ cw, changed = some cw → cw.before ∈ previous.collection .wallets ∧
      IsRename (next.collection .wallets) cw) ∧
      ∀ key, ∀ r ∈ previous.collection key, afterById (next.collection key) r.id = some r ∨
        key = .wallets ∧ ∃ cw, changed = some cw ∧ cw.before = r := by
  rw [documentArrayKeys, scanCollections] at h
  split at h
  · cases h
  · cases hscan : scanRecords .wallets (next.collection .wallets)
        (previous.collection .wallets) none with
    | none => simp [hscan] at h
    | some changed₁ =>
      rw [hscan] at h
      obtain ⟨rfl, hrest⟩ := scanCollections_of_ne (by decide) h
      obtain ⟨-, hnew, hmem⟩ := scanRecords_wallets hscan
      refine ⟨fun cw hcw => (hnew cw hcw).resolve_left (by simp), fun key r hr => ?_⟩
      by_cases hkey : key = .wallets
      · subst hkey
        exact (hmem r hr).imp_right fun hcw => ⟨rfl, hcw⟩
      · have hin : key ∈ documentArrayKeys := mem_documentArrayKeys key
        exact .inl (hrest key ((List.mem_cons.mp hin).resolve_left hkey) r hr)

/-! ### The merge is a three-way merge -/

section Merge

variable {previous next reloaded merged : VaultDocument ν}

omit [DecidableEq ν] in
private theorem afterById_eq_find (hnext : next.Distinct) (c : Collection) (id : String) :
    afterById (next.collection c) id = next.find c id :=
  Keyed.find_reverse (hnext c)

omit [DecidableEq ν] in
private theorem any_id_eq_true {arr : List (VaultRecord ν)} {id : String} :
    (arr.any fun r => r.id = id) = true ↔ Keyed.find VaultRecord.id id arr ≠ none := by
  rw [ne_eq, Keyed.find_eq_none]
  simp

omit [DecidableEq ν] in
private theorem find_additionsOf (previous : VaultDocument ν) {next : VaultDocument ν}
    (hnext : next.Distinct) (c : Collection) (id : String) :
    Keyed.find VaultRecord.id id (additionsOf previous next c) =
      if previous.find c id = none then next.find c id else none := by
  have hadd : Keyed.Distinct VaultRecord.id (additionsOf previous next c) := (hnext c).filter _
  ext r
  rw [Keyed.find_eq_some hadd, additionsOf, List.mem_filter]
  have hkey : (!(previous.collection c).any fun s => s.id = r.id) = true ↔
      previous.find c r.id = none := by
    rw [Bool.not_eq_true', ← Bool.not_eq_true, any_id_eq_true, not_not]
    rfl
  rw [hkey]
  constructor
  · rintro ⟨⟨hmem, hnone⟩, rfl⟩
    rw [if_pos hnone]
    exact (Keyed.find_eq_some (hnext c)).mpr ⟨hmem, rfl⟩
  · intro h
    split at h
    · next hnone =>
      obtain ⟨hmem, rfl⟩ := (Keyed.find_eq_some (hnext c)).mp h
      exact ⟨⟨hmem, hnone⟩, rfl⟩
    · cases h

variable {replay : ConflictReplay ν}

/-- What the existence of a replay says of the change: the settings are kept, no record is
deleted, and the records altered are new ones beside one new wallet, or one wallet. -/
theorem makeConflictReplay_cases (hprevious : previous.Distinct) (hnext : next.Distinct)
    (h : makeConflictReplay previous next = some replay) :
    next.settings = previous.settings ∧ ((replay = .addWallet (additionsOf previous next) ∧
          (additionsOf previous next .wallets).length = 1 ∧
          ∀ c id r, previous.find c id = some r → next.find c id = some r) ∨
        ∃ cw, replay = .renameWallet cw ∧ cw.before ≠ cw.after ∧
          previous.find .wallets cw.before.id = some cw.before ∧
          next.find .wallets cw.before.id = some cw.after ∧
          (∀ c id, previous.find c id = none → next.find c id = none) ∧
          ∀ c id r, previous.find c id = some r → (c = .wallets → r ≠ cw.before) →
            next.find c id = some r) := by
  rw [makeConflictReplay] at h
  split at h
  · cases h
  · next changed hscan =>
    obtain ⟨hchanged, hkept⟩ := scanCollections_spec hscan
    have hfound : ∀ c id r, previous.find c id = some r →
        r ∈ previous.collection c ∧ r.id = id := fun c id r hr =>
      (Keyed.find_eq_some (hprevious c)).mp hr
    split at h
    · cases h
    · next hsettings =>
      refine ⟨(not_not.mp hsettings).symm, ?_⟩
      simp only at h
      split at h
      · next hadd =>
        obtain ⟨hone, hnone⟩ := hadd
        refine .inl ⟨(Option.some.inj h).symm, hone, fun c id r hr => ?_⟩
        obtain ⟨hmem, rfl⟩ := hfound c id r hr
        rw [← afterById_eq_find hnext]
        exact (hkept c r hmem).resolve_right fun ⟨_, cw, hcw, _⟩ => by simp [hcw] at hnone
      · split at h
        · next cw _ =>
          split at h
          · next htotal =>
            obtain ⟨hbefore, hafter, hne⟩ := hchanged cw rfl
            refine .inr ⟨cw, (Option.some.inj h).symm, hne, ?_, ?_, fun c id hnone => ?_,
              fun c id r hr hother => ?_⟩
            · exact (Keyed.find_eq_some (hprevious .wallets)).mpr ⟨hbefore, rfl⟩
            · rw [← afterById_eq_find hnext, hafter]
            · have hlen : (additionsOf previous next c).length = 0 :=
                List.sum_eq_zero_iff_forall_eq_nat.mp htotal _
                  (List.mem_map_of_mem (mem_documentArrayKeys c))
              have hfind := find_additionsOf previous hnext c id
              rw [List.eq_nil_of_length_eq_zero hlen, if_pos hnone] at hfind
              exact hfind.symm
            · obtain ⟨hmem, rfl⟩ := hfound c id r hr
              rw [← afterById_eq_find hnext]
              refine (hkept c r hmem).resolve_right fun ⟨hc, cw', hcw', hr'⟩ => ?_
              exact hother hc (Option.some.inj hcw' ▸ hr').symm
          · cases h
        · cases h

/-- **The conflict replay is a three-way merge.** A record that the change altered is taken
from the document after the change, any other from the reloaded document. -/
theorem find_conflictReplay (hprevious : previous.Distinct) (hnext : next.Distinct)
    (hreplay : makeConflictReplay previous next = some replay)
    (h : replay.apply reloaded = some merged) (c : Collection) (id : String) :
    merged.find c id =
      if next.find c id = previous.find c id then reloaded.find c id else next.find c id := by
  obtain ⟨-, ⟨rfl, -, hkept⟩ | ⟨cw, rfl, hne, hbefore, hafter, hnone, hkept⟩⟩ :=
    makeConflictReplay_cases hprevious hnext hreplay
  · rw [ConflictReplay.apply] at h
    split at h
    · cases h
    · next hfree =>
      obtain ⟨⟩ := h
      have hsplit : ({ reloaded with
            collection := fun key => reloaded.collection key ++ additionsOf previous next key } :
            VaultDocument ν).find c id =
          (reloaded.find c id).or (if previous.find c id = none then next.find c id else none) := by
        rw [← find_additionsOf previous hnext]
        exact Keyed.find_append id _ _
      rw [hsplit]
      cases hp : previous.find c id with
      | some r => simp [hkept c id r hp]
      | none =>
        cases hn : next.find c id with
        | none => simp
        | some r =>
          -- the new record is free in the reload, or the replay would have answered `null`
          have hr : reloaded.find c id = none := by
            by_contra hmem
            have hadd : Keyed.find VaultRecord.id id (additionsOf previous next c) = some r := by
              rw [find_additionsOf previous hnext, if_pos hp, hn]
            refine hfree (List.any_eq_true.mpr ⟨c, mem_documentArrayKeys c, ?_⟩)
            refine List.any_eq_true.mpr ⟨r, Keyed.mem_of_find hadd, ?_⟩
            rw [any_id_eq_true, Keyed.key_of_find hadd]
            exact hmem
          simp [hr]
  · rw [ConflictReplay.apply] at h
    split at h
    · cases h
    · next index hidx =>
      split at h
      · next hstored =>
        obtain ⟨⟩ := h
        have hid : cw.after.id = cw.before.id := Keyed.key_of_find hafter
        have hput : (reloaded.collection .wallets).set index cw.after =
            Keyed.upsert VaultRecord.id cw.after (reloaded.collection .wallets) := by
          rw [← putRecord_eq_upsert, putRecord, hid, hidx]
        rw [VaultDocument.find_withCollection, hput, Keyed.find_upsert]
        by_cases hc : c = .wallets
        · subst hc
          rw [if_pos rfl]
          by_cases hcid : id = cw.after.id
          · rw [if_pos hcid, hcid, hid, hafter, hbefore, if_neg]
            exact fun heq => hne (Option.some.inj heq).symm
          · rw [if_neg hcid, if_pos]
            · rfl
            · cases hp : previous.find .wallets id with
              | none => exact hnone _ _ hp
              | some r =>
                refine hkept _ _ r hp fun _ hr => hcid ?_
                rw [hid, ← hr]
                exact (Keyed.key_of_find hp).symm
        · rw [if_neg hc, if_pos]
          cases hp : previous.find c id with
          | none => exact hnone c id hp
          | some r => exact hkept c id r hp fun h => absurd h hc
      · cases h

/-- The merge keeps the ids of the reloaded document distinct. -/
theorem distinct_conflictReplay (hprevious : previous.Distinct) (hnext : next.Distinct)
    (hreloaded : reloaded.Distinct) (hreplay : makeConflictReplay previous next = some replay)
    (h : replay.apply reloaded = some merged) : merged.Distinct := by
  obtain ⟨-, ⟨rfl, -, -⟩ | ⟨cw, rfl, -, -, hafter, -, -⟩⟩ :=
    makeConflictReplay_cases hprevious hnext hreplay
  · rw [ConflictReplay.apply] at h
    split at h
    · cases h
    · next hfree =>
      obtain ⟨⟩ := h
      refine fun c => (hreloaded c).append ((hnext c).filter _) fun a ha b hb hab => hfree ?_
      refine List.any_eq_true.mpr ⟨c, mem_documentArrayKeys c, List.any_eq_true.mpr ⟨a, ha, ?_⟩⟩
      exact List.any_eq_true.mpr ⟨b, hb, by simpa using hab⟩
  · rw [ConflictReplay.apply] at h
    split at h
    · cases h
    · next index hidx =>
      split at h
      · obtain ⟨⟩ := h
        have hid : cw.after.id = cw.before.id := Keyed.key_of_find hafter
        refine hreloaded.withCollection ?_
        have hput : (reloaded.collection .wallets).set index cw.after =
            Keyed.upsert VaultRecord.id cw.after (reloaded.collection .wallets) := by
          rw [← putRecord_eq_upsert, putRecord, hid, hidx]
        rw [hput]
        exact (hreloaded .wallets).upsert
      · cases h

/-- A change that alters no record has no replay. -/
theorem exists_altered_of_makeConflictReplay (hprevious : previous.Distinct) (hnext : next.Distinct)
    (hreplay : makeConflictReplay previous next = some replay) :
    ∃ c id, next.find c id ≠ previous.find c id := by
  obtain ⟨-, ⟨-, hone, -⟩ | ⟨cw, -, hne, hbefore, hafter, -, -⟩⟩ :=
    makeConflictReplay_cases hprevious hnext hreplay
  · obtain ⟨r, hr⟩ := List.length_eq_one_iff.mp hone
    have hfind := find_additionsOf previous hnext .wallets r.id
    rw [hr, Keyed.find_cons, if_pos rfl] at hfind
    split at hfind
    · next hnone => exact ⟨.wallets, r.id, by rw [hnone, ← hfind]; simp⟩
    · cases hfind
  · refine ⟨.wallets, cw.before.id, fun heq => hne ?_⟩
    rw [hbefore, hafter] at heq
    exact (Option.some.inj heq).symm

end Merge

end XchainWallet
