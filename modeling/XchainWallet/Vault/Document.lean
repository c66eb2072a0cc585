import XchainWallet.Keyed.List

/-!
# The vault document and the changes made to it

`VaultDocument` is the decrypted JSON document: one array per collection and the `settings`
slot. A mutation of the vault (`put`, the two `putMany`, `delete`, the singleton `clear`) is
a `Change`; `Change.buildNext` is the function that `_mutate` runs on the document.

What a change does to one record is its `effect`, and `find_buildNext` says that a change
overwrites exactly the records it has an effect on, on a document whose ids are distinct
(`VaultDocument.Distinct`, kept by every change).
-/

namespace XchainWallet

open Function

/-- The array collections of the document, `DOCUMENT_ARRAY_KEYS`. -/
inductive Collection
  | wallets | accounts | addresses | contacts | connectedSites | pendingTxs | signers
  | pendingAirdrops | pendingDeploys | watchlistEntries | priceAlerts
  | multisigSigningSessions | coSignerAccounts | gatedKeys | autopayOrders | autopayLeases
deriving DecidableEq, Repr

/-- Every collection, in the order of `emptyDocument()`. -/
def documentArrayKeys : List Collection :=
  [.wallets, .accounts, .addresses, .contacts, .connectedSites, .pendingTxs, .signers,
    .pendingAirdrops, .pendingDeploys, .watchlistEntries, .priceAlerts,
    .multisigSigningSessions, .coSignerAccounts, .gatedKeys, .autopayOrders, .autopayLeases]

theorem mem_documentArrayKeys (c : Collection) : c ∈ documentArrayKeys := by
  cases c <;> decide

/-- A stored record: its `id`, and every field with its value in the order the JSON text
has them. `ν` is the type of JSON values. -/
structure VaultRecord (ν : Type) where
  id : String
  fields : List (String × ν)
deriving DecidableEq, Repr

namespace VaultRecord

variable {ν : Type}

/-- `record.name`, absent when the record has no such field. -/
def name (r : VaultRecord ν) : Option ν := r.fields.lookup "name"

/-- The rest pattern `{ name, ...rest }`. -/
def withoutName (r : VaultRecord ν) : VaultRecord ν :=
  { r with fields := r.fields.filter fun f => f.1 ≠ "name" }

end VaultRecord

/-- The decrypted document. Its `documentVersion` is the constant of the codec. -/
structure VaultDocument (ν : Type) where
  collection : Collection → List (VaultRecord ν)
  settings : Option ν

/-- `emptyDocument()`. -/
def emptyDocument {ν : Type} : VaultDocument ν :=
  { collection := fun _ => [], settings := none }

namespace VaultDocument

variable {ν : Type}

/-- `{ ...document, [collection]: arr }`. -/
def withCollection (d : VaultDocument ν) (c : Collection) (arr : List (VaultRecord ν)) :
    VaultDocument ν :=
  { d with collection := update d.collection c arr }

/-- The record of one collection under an id. -/
def find (d : VaultDocument ν) (c : Collection) (id : String) : Option (VaultRecord ν) :=
  Keyed.find VaultRecord.id id (d.collection c)

/-- No collection holds two records under one id. -/
def Distinct (d : VaultDocument ν) : Prop := ∀ c, Keyed.Distinct VaultRecord.id (d.collection c)

theorem distinct_empty : (emptyDocument : VaultDocument ν).Distinct := fun _ => List.nodup_nil

@[simp]
theorem collection_withCollection (d : VaultDocument ν) (c c' : Collection)
    (arr : List (VaultRecord ν)) :
    (d.withCollection c arr).collection c' = if c' = c then arr else d.collection c' := by
  simp [withCollection, update_apply]

theorem find_withCollection (d : VaultDocument ν) (c c' : Collection) (id : String)
    (arr : List (VaultRecord ν)) :
    (d.withCollection c arr).find c' id =
      if c' = c then Keyed.find VaultRecord.id id arr else d.find c' id := by
  simp only [find, collection_withCollection]
  split <;> rfl

theorem Distinct.withCollection {d : VaultDocument ν} (hd : d.Distinct) {c : Collection}
    {arr : List (VaultRecord ν)} (h : Keyed.Distinct VaultRecord.id arr) :
    (d.withCollection c arr).Distinct := by
  intro c'
  rw [collection_withCollection]
  split
  · exact h
  · exact hd c'

end VaultDocument

/-! ### Writing records -/

section Records

variable {ν : Type}

/-- The step of `_prepare`: replace the record under the same id, or push it. -/
def putRecord (r : VaultRecord ν) (arr : List (VaultRecord ν)) : List (VaultRecord ν) :=
  match arr.findIdx? fun s => s.id = r.id with
  | some idx => arr.set idx r
  | none => arr ++ [r]

theorem putRecord_eq_upsert (r : VaultRecord ν) (arr : List (VaultRecord ν)) :
    putRecord r arr = Keyed.upsert VaultRecord.id r arr := by
  induction arr with
  | nil => rfl
  | cons s arr ih =>
    rw [Keyed.upsert, putRecord, List.findIdx?_cons]
    by_cases hs : s.id = r.id
    · simp [hs]
    · rw [putRecord] at ih
      simp only [hs, decide_false, Bool.false_eq_true, if_false]
      cases hidx : arr.findIdx? fun s => s.id = r.id with
      | none => simpa [hidx] using ih
      | some idx => simpa [hidx] using ih

/-- The array and the `indexById` map that the loop of a collection's `putMany` carries. -/
structure PutManyLoop (ν : Type) where
  arr : List (VaultRecord ν)
  indexById : String → Option ℕ

/-- `new Map(arr.map((r, idx) => [r.id, idx]))`. -/
def indexById (arr : List (VaultRecord ν)) : String → Option ℕ :=
  arr.zipIdx.foldl (fun m p => update m p.1.id (some p.2)) fun _ => none

/-- One turn of the loop of a collection's `putMany`. -/
def PutManyLoop.turn (s : PutManyLoop ν) (r : VaultRecord ν) : PutManyLoop ν :=
  match s.indexById r.id with
  | none =>
    { arr := s.arr ++ [r], indexById := update s.indexById r.id (some s.arr.length) }
  | some idx => { s with arr := s.arr.set idx r }

/-- The array that a collection's `putMany` builds. -/
def putRecords (rs : List (VaultRecord ν)) (arr : List (VaultRecord ν)) : List (VaultRecord ν) :=
  (rs.foldl PutManyLoop.turn { arr := arr, indexById := indexById arr }).arr

variable {arr : List (VaultRecord ν)}

private theorem foldl_zipIdx_update (harr : Keyed.Distinct VaultRecord.id arr) (k : ℕ)
    (m : String → Option ℕ) (id : String) :
    (arr.zipIdx k).foldl
        (fun (m : String → Option ℕ) p => update m p.1.id (some p.2)) m id =
      match arr.findIdx? fun s => s.id = id with
      | some i => some (k + i)
      | none => m id := by
  induction arr generalizing k m with
  | nil => rfl
  | cons r arr ih =>
    obtain ⟨hr, harr'⟩ := harr.cons
    rw [List.zipIdx_cons, List.foldl_cons, ih harr', List.findIdx?_cons]
    by_cases h : r.id = id
    · have hnone : arr.findIdx? (fun s => s.id = id) = none := by
        rw [List.findIdx?_eq_none_iff]
        intro s hs
        simpa using h ▸ hr s hs
      simp [h, hnone]
    · simp only [h, decide_false, Bool.false_eq_true, if_false]
      cases arr.findIdx? fun s => s.id = id with
      | none => simp [update_of_ne (Ne.symm h)]
      | some i => simp; omega

/-- The map of the loop holds the index that `findIndex` would answer. -/
private def PutManyLoop.Indexed (s : PutManyLoop ν) : Prop :=
  ∀ id, s.indexById id = s.arr.findIdx? fun t => t.id = id

private theorem findIdx?_set_of_id_eq {r : VaultRecord ν} {idx : ℕ}
    (h : arr.findIdx? (fun t => t.id = r.id) = some idx) (id : String) :
    (arr.set idx r).findIdx? (fun t => t.id = id) = arr.findIdx? fun t => t.id = id := by
  obtain ⟨hlt, hid, -⟩ := List.findIdx?_eq_some_iff_getElem.mp h
  have hmap : (arr.set idx r).map VaultRecord.id = arr.map VaultRecord.id := by
    have hlt' : idx < (arr.map VaultRecord.id).length := by simpa using hlt
    have hself := List.set_getElem_self hlt'
    rwa [List.getElem_map, of_decide_eq_true hid, ← List.map_set] at hself
  have key : ∀ l : List (VaultRecord ν),
      l.findIdx? (fun t => t.id = id) = (l.map VaultRecord.id).findIdx? (· = id) := by
    intro l
    rw [List.findIdx?_map]
    rfl
  rw [key, key, hmap]

private theorem PutManyLoop.Indexed.turn {s : PutManyLoop ν} (h : s.Indexed)
    (r : VaultRecord ν) :
    (s.turn r).Indexed ∧ (s.turn r).arr = putRecord r s.arr := by
  rw [PutManyLoop.turn, putRecord, ← h r.id]
  cases hidx : s.indexById r.id with
  | none =>
    refine ⟨fun id => ?_, rfl⟩
    rw [h] at hidx
    simp only [List.findIdx?_append, List.findIdx?_cons, update_apply]
    by_cases hid : id = r.id
    · subst hid
      simp [hidx]
    · simp [hid, Ne.symm hid, h id]
  | some idx =>
    refine ⟨fun id => ?_, rfl⟩
    rw [h] at hidx
    rw [findIdx?_set_of_id_eq hidx id]
    exact h id

/-- A collection's `putMany` is one `put` after another. -/
theorem putRecords_eq_foldl (harr : Keyed.Distinct VaultRecord.id arr) (rs : List (VaultRecord ν)) :
    putRecords rs arr = rs.foldl (fun arr r => putRecord r arr) arr := by
  have loop : ∀ (rs : List (VaultRecord ν)) (s : PutManyLoop ν), s.Indexed →
      (rs.foldl PutManyLoop.turn s).arr = rs.foldl (fun arr r => putRecord r arr) s.arr := by
    intro rs
    induction rs with
    | nil => exact fun s _ => rfl
    | cons r rs ih =>
      intro s hs
      rw [List.foldl_cons, List.foldl_cons, ih _ (hs.turn r).1, (hs.turn r).2]
  refine loop rs _ fun id => ?_
  change indexById arr id = _
  rw [indexById, foldl_zipIdx_update harr]
  cases arr.findIdx? fun s => s.id = id <;> simp

end Records

/-! ### Changes -/

/-- The step that `_prepare` returns: store a record of a collection, or the storage form
of the settings. -/
inductive DocumentStep (ν : Type)
  | record (c : Collection) (r : VaultRecord ν)
  | settings (stored : ν)
deriving DecidableEq

/-- What `_mutate` is asked to do. A single `put` is a `putMany` of one step. -/
inductive Change (ν : Type)
  | putMany (steps : List (DocumentStep ν))
  | collectionPutMany (c : Collection) (records : List (VaultRecord ν))
  | delete (c : Collection) (id : String)
  | clearSettings
deriving DecidableEq

/-- What `buildNext` answers: the next document, whether it is a new object, the value that
the call resolves with, and whether the document has to be saved. -/
structure Built (ν : Type) where
  document : VaultDocument ν
  fresh : Bool
  result : Option Bool
  persist : Bool

section Changes

variable {ν : Type}

/-- Run one prepared step on a document. -/
def DocumentStep.apply (document : VaultDocument ν) : DocumentStep ν → VaultDocument ν
  | .record c r => document.withCollection c (putRecord r (document.collection c))
  | .settings stored => { document with settings := some stored }

/-- The `buildNext` that each mutation hands to `_mutate`. -/
def Change.buildNext (document : VaultDocument ν) : Change ν → Built ν
  | .putMany steps =>
    { document := steps.foldl DocumentStep.apply document,
      fresh := true, result := none, persist := true }
  | .collectionPutMany c records =>
    { document := document.withCollection c (putRecords records (document.collection c)),
      fresh := true, result := none, persist := true }
  | .delete c id =>
    match (document.collection c).findIdx? fun r => r.id = id with
    | none => { document := document, fresh := false, result := some false, persist := false }
    | some idx =>
      { document := document.withCollection c ((document.collection c).eraseIdx idx),
        fresh := true, result := some true, persist := true }
  | .clearSettings =>
    { document := { document with settings := none },
      fresh := true, result := none, persist := true }

/-- The document that a change makes of `document`. -/
def Change.apply (document : VaultDocument ν) (χ : Change ν) : VaultDocument ν :=
  (χ.buildNext document).document

/-- What a step leaves under an id: `none` where it does not write there. -/
def DocumentStep.effect (c : Collection) (id : String) : DocumentStep ν → Option (VaultRecord ν)
  | .record c' r => if c' = c ∧ r.id = id then some r else none
  | .settings _ => none

/-- What a change leaves under an id: `none` where it writes nothing, `some none` where it
deletes, and the last record written there otherwise. -/
def Change.effect (c : Collection) (id : String) : Change ν → Option (Option (VaultRecord ν))
  | .putMany steps => (steps.reverse.findSome? (DocumentStep.effect c id)).map some
  | .collectionPutMany c' records =>
    if c' = c then (Keyed.find VaultRecord.id id records.reverse).map some else none
  | .delete c' id' => if c' = c ∧ id' = id then some none else none
  | .clearSettings => none

/-- Whether a change writes the settings slot. -/
def Change.touchesSettings : Change ν → Bool
  | .putMany steps => steps.any fun | .settings _ => true | .record _ _ => false
  | .collectionPutMany _ _ => false
  | .delete _ _ => false
  | .clearSettings => true

/-- The array that a `delete` leaves is the erased one, found or not. -/
theorem apply_delete (d : VaultDocument ν) (c : Collection) (id : String) (c' : Collection) :
    ((Change.delete c id).apply d).collection c' =
      if c' = c then Keyed.erase VaultRecord.id id (d.collection c) else d.collection c' := by
  rw [Keyed.erase, List.eraseP_eq_eraseIdx, Change.apply, Change.buildNext]
  cases hidx : (d.collection c).findIdx? fun r => r.id = id with
  | none =>
    by_cases h : c' = c
    · simp [h]
    · simp [h]
  | some idx => simp

private theorem DocumentStep.find_apply (d : VaultDocument ν) (s : DocumentStep ν)
    (c : Collection) (id : String) :
    (s.apply d).find c id = (s.effect c id).or (d.find c id) := by
  cases s with
  | settings stored => rfl
  | record c' r =>
    rw [apply, VaultDocument.find_withCollection, putRecord_eq_upsert, Keyed.find_upsert, effect]
    by_cases hc : c = c'
    · subst hc
      by_cases hid : id = r.id
      · simp [hid]
      · simp [hid, Ne.symm hid, VaultDocument.find]
    · simp [hc, Ne.symm hc]

variable {d : VaultDocument ν}

private theorem DocumentStep.distinct_apply (hd : d.Distinct) (s : DocumentStep ν) :
    (s.apply d).Distinct := by
  cases s with
  | settings stored => exact hd
  | record c r =>
    rw [apply, putRecord_eq_upsert]
    exact hd.withCollection (hd c).upsert

private theorem find_foldl_steps (steps : List (DocumentStep ν)) (d : VaultDocument ν)
    (c : Collection) (id : String) :
    (steps.foldl DocumentStep.apply d).find c id =
      (steps.reverse.findSome? (DocumentStep.effect c id)).or (d.find c id) := by
  induction steps generalizing d with
  | nil => rfl
  | cons s steps ih =>
    rw [List.foldl_cons, ih, s.find_apply, List.reverse_cons, List.findSome?_append,
      Option.or_assoc]
    congr 1
    cases heff : s.effect c id <;> simp [heff]

private theorem distinct_foldl_steps (steps : List (DocumentStep ν)) (hd : d.Distinct) :
    (steps.foldl DocumentStep.apply d).Distinct := by
  induction steps generalizing d with
  | nil => exact hd
  | cons s steps ih => exact ih (s.distinct_apply hd)

private theorem find_putRecords {arr : List (VaultRecord ν)}
    (harr : Keyed.Distinct VaultRecord.id arr) (rs : List (VaultRecord ν)) (id : String) :
    Keyed.find VaultRecord.id id (putRecords rs arr) =
      (Keyed.find VaultRecord.id id rs.reverse).or (Keyed.find VaultRecord.id id arr) := by
  rw [putRecords_eq_foldl harr]
  clear harr
  induction rs generalizing arr with
  | nil => rfl
  | cons r rs ih =>
    rw [List.foldl_cons, ih, putRecord_eq_upsert, Keyed.find_upsert, List.reverse_cons,
      Keyed.find_append, Option.or_assoc]
    congr 1
    rw [Keyed.find_cons]
    by_cases h : id = r.id
    · simp [h]
    · simp [h, Ne.symm h]

private theorem distinct_putRecords {arr : List (VaultRecord ν)}
    (harr : Keyed.Distinct VaultRecord.id arr) (rs : List (VaultRecord ν)) :
    Keyed.Distinct VaultRecord.id (putRecords rs arr) := by
  rw [putRecords_eq_foldl harr]
  induction rs generalizing arr with
  | nil => exact harr
  | cons r rs ih =>
    rw [List.foldl_cons, putRecord_eq_upsert]
    exact ih harr.upsert

/-- Every change keeps the ids of a document distinct. -/
theorem Change.distinct_apply (hd : d.Distinct) (χ : Change ν) : (χ.apply d).Distinct := by
  cases χ with
  | putMany steps => exact distinct_foldl_steps steps hd
  | collectionPutMany c records => exact hd.withCollection (distinct_putRecords (hd c) records)
  | clearSettings => exact hd
  | delete c id =>
    intro c'
    rw [apply_delete]
    split
    · exact (hd c).erase
    · exact hd c'

/-- **A change overwrites exactly what it has an effect on.** -/
theorem Change.find_apply (hd : d.Distinct) (χ : Change ν) (c : Collection) (id : String) :
    (χ.apply d).find c id = (χ.effect c id).getD (d.find c id) := by
  cases χ with
  | putMany steps =>
    rw [apply, buildNext, find_foldl_steps, effect]
    cases steps.reverse.findSome? (DocumentStep.effect c id) <;> rfl
  | collectionPutMany c' records =>
    rw [apply, buildNext, VaultDocument.find_withCollection, effect]
    by_cases hc : c' = c
    · subst hc
      rw [if_pos rfl, if_pos rfl, find_putRecords (hd c')]
      cases Keyed.find VaultRecord.id id records.reverse <;> rfl
    · rw [if_neg (Ne.symm hc), if_neg hc]
      rfl
  | clearSettings => rfl
  | delete c' id' =>
    rw [VaultDocument.find, apply_delete, effect]
    by_cases hc : c' = c
    · subst hc
      rw [if_pos rfl]
      by_cases hid : id' = id
      · subst hid
        rw [if_pos ⟨rfl, rfl⟩]
        exact Keyed.find_erase_self (hd c')
      · rw [if_neg (fun h => hid h.2)]
        exact Keyed.find_erase_of_ne (Ne.symm hid) _
    · rw [if_neg (Ne.symm hc), if_neg (fun h => hc h.1)]
      rfl

end Changes

end XchainWallet
