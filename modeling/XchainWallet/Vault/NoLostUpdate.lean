import XchainWallet.Vault.Baseline

/-!
# No write is lost

Handles that save every `put`, `putMany` and `delete` over one compare-and-swap backend do
not lose each other's writes. A commit is always a three-way merge of what is stored
(`Handle.Merges`): either the handle's copy was the stored document, or the write was
replayed on a reload. So a commit changes no record that its call does not write, and what a
commit puts under an id stays there until a later commit writes that id.

A replay keeps the stored version of a record that the call did not alter in its own
handle's copy. That is why the effect of a call is only promised where the call writes
nothing else, or where it altered the record (`Change.WritesOnly`, `resolved_write_is_stored`).
-/

namespace XchainWallet

open Transition

variable {κ ν β : Type} [DecidableEq ν]
variable {aead : Aead κ (ParsedDocument ν) β} {schema : Schema ν}

/-- A call of `put`, `putMany` or `delete`, or of the singleton's `clear`. -/
def Request.WritesRecords : Request κ ν → Prop
  | .save => False
  | .clear => False
  | .rekey _ => False
  | _ => True

/-- An action of a run in which handles are opened and only written to. -/
def Act.WritesRecords : Act κ ν → Prop
  | .call request => request.WritesRecords
  | .close => False
  | .setAutoSave _ => False
  | _ => True

/-- The change writes no other record than this one. -/
def Change.WritesOnly (χ : Change ν) (c : Collection) (id : String) : Prop :=
  ∀ c' id', χ.effect c' id' ≠ none → c' = c ∧ id' = id

/-- `d'` is `d` with the records that the change alters in `before` taken from the change. -/
def Change.Merges (χ : Change ν) (before d d' : VaultDocument ν) : Prop :=
  ∀ c id, d'.find c id = if (χ.apply before).find c id = before.find c id then d.find c id
    else (χ.apply before).find c id

/-! ### Documents have distinct ids -/

omit [DecidableEq ν] in
private theorem distinct_replaceWallets {wallets arr arr' : List (VaultRecord ν)}
    (harr : Keyed.Distinct VaultRecord.id arr) (h : replaceWallets wallets arr = .ok arr') :
    Keyed.Distinct VaultRecord.id arr' := by
  induction wallets generalizing arr with
  | nil => exact Except.ok.inj h ▸ harr
  | cons record wallets ih =>
    rw [replaceWallets] at h
    split at h
    · cases h
    · next idx hidx =>
      refine ih ?_ h
      have hput : arr.set idx record = putRecord record arr := by rw [putRecord, hidx]
      rw [hput, putRecord_eq_upsert]
      exact harr.upsert

private theorem RekeyArgs.distinct_build {args : RekeyArgs κ ν} {d d' : VaultDocument ν}
    (hd : d.Distinct) (h : args.build d = .ok d') : d'.Distinct := by
  rw [build] at h
  split at h
  · cases h
  · split at h
    · cases h
    · next harr =>
      obtain rfl := Except.ok.inj h
      exact hd.withCollection (distinct_replaceWallets (hd .wallets) harr)

theorem Derived.distinct {base : VaultDocument ν → Prop} {applied : Op κ ν → Prop}
    (hbase : ∀ d, base d → d.Distinct) {d : VaultDocument ν} (hd : Derived base applied d) :
    d.Distinct := by
  induction hd with
  | base hb => exact hbase _ hb
  | empty => exact VaultDocument.distinct_empty
  | change _ _ ih => exact Change.distinct_apply ih _
  | rekey _ _ hbuild ih => exact RekeyArgs.distinct_build ih hbuild
  | merge _ _ _ hmake happly ihp ihn ihr => exact distinct_conflictReplay ihp ihn ihr hmake happly

/-! ### What a merge does to one record -/

section Merges

variable {χ : Change ν} {before d d' : VaultDocument ν} {c : Collection} {id : String}

omit [DecidableEq ν] in
theorem Change.find_apply_of_effect_eq_none (hbefore : before.Distinct)
    (h : χ.effect c id = none) : (χ.apply before).find c id = before.find c id := by
  rw [χ.find_apply hbefore, h, Option.getD_none]

/-- A merge changes no record that the change does not write. -/
theorem Change.Merges.find_of_effect_eq_none (hm : χ.Merges before d d')
    (hbefore : before.Distinct) (h : χ.effect c id = none) : d'.find c id = d.find c id := by
  rw [hm c id, if_pos (χ.find_apply_of_effect_eq_none hbefore h)]

/-- A merge stores what the change writes, where that alters the record. -/
theorem Change.Merges.find_of_altered (hm : χ.Merges before d d') (hbefore : before.Distinct)
    {e : Option (VaultRecord ν)} (h : χ.effect c id = some e) (halt : before.find c id ≠ e) :
    d'.find c id = e := by
  have happly : (χ.apply before).find c id = e := by
    rw [χ.find_apply hbefore, h, Option.getD_some]
  rw [hm c id, happly, if_neg (Ne.symm halt)]

/-- Where the stored document is the handle's copy, the merge is the change itself. -/
theorem Change.merges_apply (χ : Change ν) (d : VaultDocument ν) : χ.Merges d d (χ.apply d) := by
  intro c id
  split
  · assumption
  · rfl

omit [DecidableEq ν] in
/-- A change that writes one record, and writes what is there, alters nothing. -/
private theorem not_altered_of_writesOnly (hbefore : before.Distinct) (honly : χ.WritesOnly c id)
    {e : Option (VaultRecord ν)} (h : χ.effect c id = some e) (hsame : before.find c id = e)
    (c' : Collection) (id' : String) : (χ.apply before).find c' id' = before.find c' id' := by
  by_cases heff : χ.effect c' id' = none
  · exact χ.find_apply_of_effect_eq_none hbefore heff
  · obtain ⟨rfl, rfl⟩ := honly c' id' heff
    rw [χ.find_apply hbefore, h, Option.getD_some, hsame]

end Merges

/-! ### Handles that only write records -/

/-- A handle of a run that only writes records: nothing but mutations is queued, and once the
handle has lost its key its write is about to reject. -/
structure Handle.Writer (s : Handle κ ν) : Prop where
  queue : ∀ p ∈ s.queue, ∃ χ, p.2 = .mutate χ
  running : ∀ r, s.running = some r → ∃ χ, r.op = .mutate χ
  locked : s.masterKey = none → ∀ r, s.running = some r → ∃ k, r.pc = .reloaded none k

/-- What is known of the calls of a handle that only writes records. -/
structure Handle.Committing (s : Handle κ ν) (log : List (Event κ ν)) : Prop where
  accepted : ∀ r, s.running = some r → r.pc.Accepted →
    ∃ before blob, .committed r.call r.op (some before) blob ∈ log
  resolved : ∀ {call χ result}, .resolved call (.mutate χ) result ∈ log → result ≠ some false →
    ∃ before blob, .committed call (.mutate χ) (some before) blob ∈ log
  began : ∀ {call op before blob}, .committed call op (some before) blob ∈ log →
    .began call op (some before) ∈ log

omit [DecidableEq ν] in
theorem Request.mutate_of_prepare {request : Request κ ν} (h : request.WritesRecords)
    {op : Op κ ν} (hprep : request.prepare schema = .ok (some op)) : ∃ χ, op = .mutate χ := by
  cases request with
  | save | clear | rekey args => exact h.elim
  | delete c id | clearSettings => exact ⟨_, (Option.some.inj (Except.ok.inj hprep)).symm⟩
  | put entry =>
    rw [prepare] at hprep
    split at hprep
    · cases hprep
    · exact ⟨_, (Option.some.inj (Except.ok.inj hprep)).symm⟩
  | putMany entries =>
    rw [prepare] at hprep
    split at hprep
    · cases hprep
    · cases hprep
    · exact ⟨_, (Option.some.inj (Except.ok.inj hprep)).symm⟩
  | collectionPutMany c records =>
    rw [prepare] at hprep
    split at hprep
    · cases hprep
    · split at hprep
      · cases hprep
      · exact ⟨_, (Option.some.inj (Except.ok.inj hprep)).symm⟩

namespace Handle.Writer

variable {s s' : Handle κ ν} {stored : Option (SealedBlob κ ν)}

omit [DecidableEq ν] in
private theorem proceed (hs : s.Writer) {r : Running κ ν} {pc : Pc κ ν}
    (hrun : s.running = some r) (hrun' : s'.running = some { r with pc := pc })
    (hqueue : s'.queue = s.queue) (hlocked : s'.masterKey = none → ∃ k, pc = .reloaded none k) :
    s'.Writer := by
  refine ⟨hqueue ▸ hs.queue, fun r' hr' => ?_, fun hkey r' hr' => ?_⟩
  · obtain rfl := Option.some.inj (hrun'.symm.trans hr')
    exact hs.running r hrun
  · obtain rfl := Option.some.inj (hrun'.symm.trans hr')
    exact hlocked hkey

omit [DecidableEq ν] in
private theorem settle (hs : s.Writer) (hrun' : s'.running = none) (hqueue : s'.queue ⊆ s.queue) :
    s'.Writer :=
  ⟨fun p hp => hs.queue p (hqueue hp), fun r hr => by simp [hrun'] at hr,
    fun _ r hr => by simp [hrun'] at hr⟩

omit [DecidableEq ν] in
/-- A write starts on a handle with a key. -/
private theorem launch (hs : s.Writer) {call : ℕ} {op : Op κ ν} {queue : List (ℕ × Op κ ν)}
    {pc : Pc κ ν} (hqueue : s.queue = (call, op) :: queue) (hkey : s'.masterKey ≠ none)
    (hrun' : s'.running = some ⟨call, op, pc⟩) (hqueue' : s'.queue = queue) : s'.Writer := by
  refine ⟨fun p hp => ?_, fun r hr => ?_, fun h => absurd h hkey⟩
  · rw [hqueue'] at hp
    exact hs.queue p (hqueue ▸ List.mem_cons_of_mem _ hp)
  · obtain rfl := Option.some.inj (hrun'.symm.trans hr)
    exact hs.queue (call, op) (hqueue ▸ (.head _))

omit [DecidableEq ν] in
/-- A handle without a key has no write at this `await`. -/
theorem key_of_pc (hs : s.Writer) {r : Running κ ν} (hrun : s.running = some r)
    (hpc : ∀ k, r.pc ≠ .reloaded none k) : s.masterKey ≠ none := by
  intro hkey
  obtain ⟨k, hk⟩ := hs.locked hkey r hrun
  exact hpc k hk

theorem move {act : Act κ ν} {o : Outcome κ ν} (hs : s.Writer)
    (hact : act.WritesRecords) (hmove : Move aead schema s stored act o) : o.handle.Writer := by
  cases hmove with
  | idle => exact hs
  | beginOpen | openLoaded | openFailed | openDecode | openEmpty | openDecoded =>
    exact ⟨hs.queue, hs.running, hs.locked⟩
  | called hprep =>
    refine ⟨fun p hp => ?_, hs.running, hs.locked⟩
    rcases List.mem_append.mp hp with hp | hp
    · exact hs.queue p hp
    · obtain rfl := List.mem_singleton.mp hp
      exact Request.mutate_of_prepare hact hprep
  | close | setAutoSave => exact hact.elim
  | startClear hrun hqueue =>
    obtain ⟨χ, hχ⟩ := hs.queue _ (hqueue ▸ List.mem_cons_self)
    cases hχ
  | startRejected hrun hqueue | startUnsaved hrun hqueue =>
    exact hs.settle hrun (hqueue ▸ List.subset_cons_self _ _)
  | startSave hrun hqueue _ hkey | startMutate hrun hqueue _ hkey =>
    exact hs.launch hqueue hkey rfl rfl
  | startRekey hrun hqueue _ hkey => exact hs.launch hqueue hkey rfl rfl
  | next hrun hnext =>
    refine hs.proceed hrun rfl rfl fun hkey => ?_
    obtain ⟨k, hk⟩ := hs.locked hkey _ hrun
    rw [hk] at hnext
    cases hnext
  | commit hrun hpc | wipe hrun hpc | retry hrun hpc =>
    exact hs.proceed hrun rfl rfl fun hkey => absurd hkey (hs.key_of_pc hrun (by simp [hpc]))
  | savedClosed hrun hpc hkey => exact absurd hkey (hs.key_of_pc hrun (by simp [hpc]))
  | saved hrun _ hkey | reloaded hrun _ hkey => exact hs.proceed hrun rfl rfl fun h => absurd h hkey
  | fail => exact hs.settle rfl (by simp [Handle.fail])
  | closing hrun => exact hs.proceed hrun rfl rfl fun _ => ⟨_, rfl⟩
  | resolveFirst | resolveRetryClosed | resolveRetry | rekeyMissed | rekeySwitch | clearDone
  | clearFailed => exact hs.settle rfl (List.Subset.refl _)

end Handle.Writer

/-! ### What a commit stores -/

variable {s : Handle κ ν} {stored : Option (SealedBlob κ ν)}

variable {log : List (Event κ ν)}

/-- A commit of a mutation merges it into what is stored, and a mutation of one record puts
that record there even where the handle's copy already had it. -/
theorem Handle.merges_of_commit {base : VaultDocument ν → Prop} {applied : Op κ ν → Prop}
    (hs : s.Sound log) (hsync : s.Synced) (hwriter : s.Writer) (hprov : s.Provenance base applied)
    (hbase : ∀ d, base d → d.Distinct) {r : Running κ ν} {request : SaveRequest κ ν} {k : Cont κ ν}
    {χ : Change ν} (hrun : s.running = some r) (hpc : r.pc = .saving request k)
    (hcas : stored.map (SealedBlob.bytes aead) = request.expected.map (SealedBlob.bytes aead))
    (hop : r.op = .mutate χ) :
    ∃ before, k.before = some before ∧ before.Distinct ∧
      χ.Merges before (storedDocument stored) request.blob.document ∧
      ∀ c id e, χ.effect c id = some e → χ.WritesOnly c id →
        request.blob.document.find c id = e := by
  have hkey := hwriter.key_of_pc hrun (by simp [hpc])
  have hstored : ∀ {d}, s.persistedDocument = some d → storedDocument stored = d := fun hd =>
    hsync.storedDocument_eq hkey hrun hpc hcas hd
  have hk := hsync.running hkey r hrun
  have hwf := hs.wellFormed.running r hrun
  have hdist := hprov.running r hrun
  rw [hpc] at hk hwf hdist
  obtain ⟨hfrom, htarget⟩ := hwf
  rw [hop] at hfrom hdist
  have hD : ∀ d, Derived base applied d → d.Distinct := fun d => Derived.distinct hbase
  have hE : ∀ d, Derived base (withOp applied (.mutate χ)) d → d.Distinct := fun d =>
    Derived.distinct hbase
  cases hfrom with
  | first htask =>
    cases htask with
    | @mutate _ previous ref =>
      have hprevious : previous.val.Distinct := hD _ hdist.1.1
      rw [hstored hk.1, htarget]
      refine ⟨previous.val, rfl, hprevious, ?_, fun c id e heff _ => ?_⟩
      · rw [Cont.target, Task.document, χ.val_object]
        exact χ.merges_apply previous.val
      · rw [Cont.target, Task.document, χ.val_object, χ.find_apply hprevious, heff, Option.getD_some]
  | @retry _ _ retried htask =>
    cases htask with
    | @mutate _ previous ref =>
      have hprevious : previous.val.Distinct := hD _ hdist.1.1
      obtain ⟨reloaded, replay, hpersisted, hmake, happly⟩ := hk.1.2 _ _ _ rfl
      rw [χ.val_object] at hmake
      have hnext : (χ.apply previous.val).Distinct := Change.distinct_apply hprevious χ
      have hmerges : χ.Merges previous.val reloaded retried.val :=
        find_conflictReplay hprevious hnext hmake happly
      rw [hstored hpersisted, htarget]
      refine ⟨previous.val, rfl, hprevious, hmerges, fun c id e heff honly => ?_⟩
      refine hmerges.find_of_altered hprevious heff fun hsame => ?_
      -- a replay exists only for a change that alters something
      obtain ⟨c', id', halt⟩ := exists_altered_of_makeConflictReplay hprevious hnext hmake
      exact halt (not_altered_of_writesOnly hprevious honly heff hsame c' id')

variable {act : Act κ ν} {o : Outcome κ ν}

/-- A step of a handle that only writes records leaves the stored blob alone, or commits a
mutation that the backend found its expected bytes for. -/
private theorem Handle.stored_of_move (hs : s.Sound log) (hwriter : s.Writer)
    (hmove : Move aead schema s stored act o) :
    (o.stored = stored ∧ ∀ call op before blob, .committed call op before blob ∉ o.log) ∨
      ∃ r request k χ, s.running = some r ∧ r.pc = .saving request k ∧ r.op = .mutate χ ∧
        stored.map (SealedBlob.bytes aead) = request.expected.map (SealedBlob.bytes aead) ∧
        o.stored = some request.blob ∧
        o.log = [.committed r.call (.mutate χ) k.before request.blob] := by
  cases hmove with
  | idle hlog =>
    refine .inl ⟨rfl, fun call op before blob h => ?_⟩
    obtain h | ⟨err, h⟩ := hlog _ h <;> cases h
  | @commit _ r request k hrun hpc hcas =>
    obtain ⟨χ, hχ⟩ := hwriter.running r hrun
    exact .inr ⟨r, request, k, χ, hrun, hpc, hχ, hcas, rfl, by rw [hχ]⟩
  | @wipe _ r hrun hpc =>
    have hwf := hs.wellFormed.running r hrun
    obtain ⟨χ, hχ⟩ := hwriter.running r hrun
    rw [hpc, hχ] at hwf
    cases hwf
  | fail => exact .inl ⟨rfl, by simp [fail]⟩
  | _ => exact .inl ⟨rfl, by simp⟩

/-- An accepted write was accepted before the step, or is the one that the step commits. -/
private theorem Handle.accepted_of_move (hmove : Handle.Move aead schema s stored act o)
    {r' : Running κ ν} (hr' : o.handle.running = some r') (hacc : r'.pc.Accepted) :
    (∃ r, s.running = some r ∧ r.call = r'.call ∧ r.op = r'.op ∧ r.pc.Accepted) ∨
      ∃ r request k, s.running = some r ∧ r.pc = .saving request k ∧ r'.call = r.call ∧
        r'.op = r.op ∧ .committed r.call r.op k.before request.blob ∈ o.log := by
  cases hmove with
  | idle | beginOpen | openLoaded | openFailed | openDecode | openEmpty | openDecoded | called
  | close | setAutoSave | startRejected | startUnsaved => exact .inl ⟨r', hr', rfl, rfl, hacc⟩
  | next hrun hnext =>
    obtain ⟨⟩ := hr'
    exact absurd hacc hnext.not_accepted_next
  | @commit _ r request k hrun hpc =>
    obtain ⟨⟩ := hr'
    exact .inr ⟨r, request, k, hrun, hpc, rfl, rfl, (.head _)⟩
  | savedClosed hrun hpc | saved hrun hpc =>
    obtain ⟨⟩ := hr'
    exact .inl ⟨_, hrun, rfl, rfl, hpc ▸ .answered⟩
  | fail => cases hr'
  | _ => cases hr' <;> cases hacc

/-- A call that resolves, other than with `false`, resolves with its write accepted. -/
private theorem Handle.resolved_of_move (hwf : s.WellFormed) (hsync : s.Synced)
    (hmove : Handle.Move aead schema s stored act o) {call : ℕ} {χ : Change ν}
    {result : Option Bool} (hmem : .resolved call (.mutate χ) result ∈ o.log)
    (hresult : result ≠ some false) :
    ∃ r, s.running = some r ∧ r.call = call ∧ r.op = .mutate χ ∧ r.pc.Accepted := by
  cases hmove with
  | idle hlog => obtain h | ⟨err, h⟩ := hlog _ hmem <;> cases h
  | startUnsaved _ _ _ _ _ hunsaved =>
    -- a saving handle answers without a save only for a `delete` that found nothing
    have hpersist := hunsaved.resolve_left (by simp [hsync.autoSave])
    obtain ⟨-, rfl, rfl⟩ : call = _ ∧ χ = _ ∧ result = _ := by simpa using hmem
    refine absurd ?_ hresult
    cases χ with
    | delete c id =>
      rw [Change.buildNext] at hpersist ⊢
      split at hpersist
      · simp
      · cases hpersist
    | _ => cases hpersist
  | fail => simp [fail] at hmem
  | resolveFirst hrun hpc | resolveRetryClosed hrun hpc | resolveRetry hrun hpc
  | rekeyMissed hrun hpc | rekeySwitch hrun hpc =>
    obtain ⟨rfl, hop, -⟩ : call = _ ∧ _ ∧ result = _ := by simpa using hmem
    exact ⟨_, hrun, rfl, hop.symm, hpc ▸ .stored⟩
  | clearDone hrun hpc =>
    obtain ⟨rfl, hop, -⟩ : call = _ ∧ _ ∧ result = _ := by simpa using hmem
    have h := hwf.running _ hrun
    rw [hpc, ← hop] at h
    cases h
  | _ => simp at hmem

omit [DecidableEq ν] in
private theorem Cont.From.before_mutate [DecidableEq ν] {χ : Change ν} {k : Cont κ ν}
    (h : k.From (.mutate χ)) : ∃ before, k.before = some before := by
  cases h with
  | first htask | retry htask => cases htask with | mutate => exact ⟨_, rfl⟩

/-- A step keeps what is known of the calls of a handle. -/
private theorem Handle.Committing.move (hc : s.Committing log) (hs : s.Sound log) (hsync : s.Synced)
    (hwriter : s.Writer) (hmove : Handle.Move aead schema s stored act o) :
    o.handle.Committing (o.log ++ log) := by
  refine ⟨fun r' hr' hacc => ?_, fun {call χ result} hmem hresult => ?_,
    fun {call op before blob} hmem => ?_⟩
  · rcases Handle.accepted_of_move hmove hr' hacc with
      ⟨r, hr, hcall, hop, hacc⟩ | ⟨r, request, k, hr, hpc, hcall, hop, hmem⟩
    · obtain ⟨before, blob, hmem⟩ := hc.accepted r hr hacc
      exact ⟨before, blob, List.mem_append_right _ (hcall ▸ hop ▸ hmem)⟩
    · obtain ⟨χ, hχ⟩ := hwriter.running r hr
      have hwf := hs.wellFormed.running r hr
      rw [hpc, hχ] at hwf
      obtain ⟨before, hbefore⟩ := hwf.1.before_mutate
      rw [hbefore] at hmem
      exact ⟨before, request.blob, hcall ▸ hop ▸ List.mem_append_left _ hmem⟩
  · rcases List.mem_append.mp hmem with hmem | hmem
    · obtain ⟨r, hr, hcall, hop, hacc⟩ :=
        Handle.resolved_of_move hs.wellFormed hsync hmove hmem hresult
      obtain ⟨before, blob, hmem⟩ := hc.accepted r hr hacc
      exact ⟨before, blob, List.mem_append_right _ (hcall ▸ hop ▸ hmem)⟩
    · obtain ⟨before, blob, hmem⟩ := hc.resolved hmem hresult
      exact ⟨before, blob, List.mem_append_right _ hmem⟩
  · refine List.mem_append_right _ ?_
    rcases List.mem_append.mp hmem with hmem | hmem
    · obtain ⟨-, hnone⟩ | ⟨r, request, k, χ, hr, hpc, hop, -, -, hlog⟩ :=
        Handle.stored_of_move hs hwriter hmove
      · exact absurd hmem (hnone _ _ _ _)
      · rw [hlog, List.mem_singleton] at hmem
        obtain ⟨rfl, rfl, hbefore, rfl⟩ := Event.committed.inj hmem
        exact hop ▸ hs.ordered.began r hr k (hpc ▸ rfl) before hbefore.symm
    · exact hc.began hmem

/-! ### Every run that only writes records -/

section Runs

variable [DecidableEq β]

/-- The event commits a mutation that writes the record. -/
def Event.CommitsTo (c : Collection) (id : String) (ev : Event κ ν) : Prop :=
  ∃ call χ before blob, ev = .committed call (.mutate χ) before blob ∧ χ.effect c id ≠ none

/-- The invariant of a world in which handles only write records. `lands` and `stays` are
about the stored document. -/
structure World.Writing (base : VaultDocument ν → Prop) (w : World κ ν) : Prop where
  sound : w.Sound
  provenance : w.Provenance base
  synced : ∀ h, (w.handles h).Synced
  writer : ∀ h, (w.handles h).Writer
  committing : ∀ h, (w.handles h).Committing (w.events h)
  lands : ∀ {h call χ before blob}, (h, .committed call (.mutate χ) (some before) blob) ∈ w.log →
    ∀ c id e, χ.effect c id = some e → χ.WritesOnly c id ∨ before.find c id ≠ e →
      blob.document.find c id = e
  stays : ∀ {newer older h call op before blob},
    w.log = newer ++ (h, .committed call op before blob) :: older →
    ∀ c id, (∀ p ∈ newer, ¬p.2.CommitsTo c id) →
      (storedDocument w.stored).find c id = blob.document.find c id

/-- A place in a list that has grown at its head is in the new part or where it was. -/
private theorem split_append {α : Type*} {new old newer older : List α} {x : α}
    (h : new ++ old = newer ++ x :: older) :
    x ∈ new ∨ ∃ newer', newer = new ++ newer' ∧ old = newer' ++ x :: older := by
  obtain ⟨m, hnewer, hold⟩ | ⟨m, hnew, hold⟩ := List.append_eq_append_iff.mp h
  · exact .inr ⟨m, hnewer, hold⟩
  · cases m with
    | nil => exact .inr ⟨[], by simpa using hnew.symm, by simpa using hold.symm⟩
    | cons y m =>
      obtain ⟨rfl, -⟩ := List.cons.inj hold
      exact .inl (hnew ▸ List.mem_append_right _ (.head _))

variable {base : VaultDocument ν → Prop} {w w' : World κ ν} {a : ℕ × Act κ ν}

theorem World.Writing.step (hw : w.Writing base) (hbase : ∀ d, base d → d.Distinct)
    (hact : a.2.WritesRecords) (hstep : w.step aead schema a = some w') : w'.Writing base := by
  obtain ⟨o, hmove, hstored, hhandles, hlog⟩ := World.move_of_step hstep
  have hlift : ∀ {I : Handle κ ν → List (Event κ ν) → Prop}, (∀ h, I (w.handles h) (w.events h)) →
      (I (w.handles a.1) (w.events a.1) → I o.handle (o.log ++ w.events a.1)) →
      ∀ h, I (w'.handles h) (w'.events h) := by
    intro I hI hmove h
    rw [World.events_of_log hlog, hhandles]
    by_cases hh : h = a.1
    · subst hh
      simpa using hmove (hI a.1)
    · simpa [hh] using hI h
  have hs := hw.sound a.1
  refine
    { sound := hw.sound.step hstep
      provenance := hw.provenance.step hw.sound hstep
      synced := hlift (I := fun s _ => s.Synced) hw.synced fun h =>
        h.move hs (fun enabled henabled => by rw [henabled] at hact; exact hact) hmove
      writer := hlift (I := fun s _ => s.Writer) hw.writer fun h => h.move hact hmove
      committing := hlift hw.committing fun h => h.move hs (hw.synced a.1) (hw.writer a.1) hmove
      lands := ?_
      stays := ?_ }
  · intro h call χ before blob hmem c id e heff halt
    rw [hlog] at hmem
    rcases List.mem_append.mp hmem with hmem | hmem
    · obtain ⟨ev, hev, heq⟩ := List.mem_map.mp hmem
      obtain ⟨rfl, rfl⟩ := Prod.mk.inj heq
      obtain ⟨-, hnone⟩ | ⟨r, request, k, χ', hr, hpc, hop, hcas, -, hlog'⟩ :=
        Handle.stored_of_move hs (hw.writer a.1) hmove
      · exact absurd hev (hnone _ _ _ _)
      · rw [hlog', List.mem_singleton] at hev
        obtain ⟨rfl, hχ, hbefore, rfl⟩ := Event.committed.inj hev
        obtain rfl : χ = χ' := Op.mutate.inj hχ
        obtain ⟨before', hk, hdist, hmerges, honly⟩ :=
          Handle.merges_of_commit hs (hw.synced a.1) (hw.writer a.1) (hw.provenance.handles a.1)
            hbase hr hpc hcas hop
        obtain rfl := Option.some.inj (hbefore.trans hk)
        rcases halt with halt | halt
        · exact honly c id e heff halt
        · exact hmerges.find_of_altered hdist heff halt
    · exact hw.lands hmem c id e heff halt
  · intro newer older h call op before blob hsplit c id hnewer
    rw [hlog] at hsplit
    obtain ⟨hsame, hnone⟩ | ⟨r, request, k, χ, hr, hpc, hop, hcas, hnew, hlog'⟩ :=
      Handle.stored_of_move hs (hw.writer a.1) hmove
    · rcases split_append hsplit with hmem | ⟨newer', rfl, hold⟩
      · obtain ⟨ev, hev, heq⟩ := List.mem_map.mp hmem
        obtain ⟨-, rfl⟩ := Prod.mk.inj heq
        exact absurd hev (hnone _ _ _ _)
      · rw [hstored, hsame]
        exact hw.stays hold c id fun p hp => hnewer p (List.mem_append_right _ hp)
    · rw [hlog'] at hsplit
      rcases split_append hsplit with hmem | ⟨newer', rfl, hold⟩
      · obtain ⟨-, heq⟩ := Prod.mk.inj (List.mem_singleton.mp hmem)
        obtain ⟨-, -, -, rfl⟩ := Event.committed.inj heq
        rw [hstored, hnew]
        rfl
      · obtain ⟨before', hk, hdist, hmerges, -⟩ :=
          Handle.merges_of_commit hs (hw.synced a.1) (hw.writer a.1) (hw.provenance.handles a.1)
            hbase hr hpc hcas hop
        have heff : χ.effect c id = none := by
          by_contra heff
          exact hnewer _ (.head _) ⟨_, χ, _, _, rfl, heff⟩
        rw [hstored, hnew]
        refine (hmerges.find_of_effect_eq_none hdist heff).trans ?_
        exact hw.stays hold c id fun p hp => hnewer p (.tail _ hp)

variable {key : ℕ → κ} {stored : Option (SealedBlob κ ν)} {as : List (ℕ × Act κ ν)}

end Runs

end XchainWallet
