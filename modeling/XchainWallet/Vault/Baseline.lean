import XchainWallet.Vault.Provenance

/-!
# The baseline of a saving handle

On a handle that saves every write, the document in place between writes is the one that was
last seen stored: `persistedDocument` is the content of `persistedBlob`, and a write that is
under way started from it (`Handle.Synced`). A compare-and-swap that succeeds therefore finds
exactly the baseline stored (`Handle.Synced.storedDocument_eq`).
-/

namespace XchainWallet

variable {κ ν β : Type} {aead : Aead κ (ParsedDocument ν) β} {schema : Schema ν}

/-- What an `open` with the right key would read. -/
def storedDocument (stored : Option (SealedBlob κ ν)) : VaultDocument ν :=
  (stored.map SealedBlob.document).getD emptyDocument

/-- Equal bytes, or both absent, are one document. -/
theorem storedDocument_eq_of_bytes {stored expected : Option (SealedBlob κ ν)}
    (h : stored.map (SealedBlob.bytes aead) = expected.map (SealedBlob.bytes aead)) :
    storedDocument stored = storedDocument expected := by
  cases stored with
  | none =>
    cases expected with
    | none => rfl
    | some blob => cases h
  | some blob =>
    cases expected with
    | none => cases h
    | some blob' => exact (SealedBlob.eq_of_bytes_eq (Option.some.inj h)).2

variable [DecidableEq ν]

/-- What the baseline is for a continuation that has not been saved. -/
def Cont.Synced (s : Handle κ ν) : Cont κ ν → Prop
  | first task _ => s.persistedDocument = some task.before
  | retry task retried =>
    s.doc.map DocObj.val = s.persistedDocument ∧
      ∀ previous document result, task = .mutate previous document result →
        ∃ reloaded replay, s.persistedDocument = some reloaded ∧
          makeConflictReplay previous.val document.val = some replay ∧
          replay.apply reloaded = some retried.val
  | rekey previous _ _ => s.persistedDocument = some previous.val

/-- What the baseline is at an `await`. -/
def Pc.Synced (s : Handle κ ν) : Pc κ ν → Prop
  | .encoding _ k => k.Synced s
  | .saving request k =>
    k.Synced s ∧ request.document = some k.target ∧ request.expected = s.persistedBlob
  | .answered _ request k =>
    k.Synced s ∧ request.document = some k.target ∧ request.expected = s.persistedBlob
  | .stored k => s.persistedDocument = some k.target
  | .reloading k => k.Synced s
  | .loaded _ k => k.Synced s
  | .decoding _ _ k => k.Synced s
  | .reloaded _ _ => s.doc.map DocObj.val = s.persistedDocument
  | .clearing => s.doc.map DocObj.val = s.persistedDocument
  | .cleared _ => s.doc.map DocObj.val = s.persistedDocument

/-- The baseline of a handle that saves every write and keeps its key. -/
structure Handle.Synced (s : Handle κ ν) : Prop where
  autoSave : s.autoSave = true
  baseline : s.masterKey ≠ none → ∀ d, s.persistedDocument = some d →
    storedDocument s.persistedBlob = d
  idle : s.masterKey ≠ none → s.running = none → s.doc.map DocObj.val = s.persistedDocument
  running : s.masterKey ≠ none → ∀ r, s.running = some r → r.pc.Synced s

namespace Handle.Synced

variable {s s' : Handle κ ν} {stored : Option (SealedBlob κ ν)} {log : List (Event κ ν)}

variable {r : Running κ ν}

/-- **A compare-and-swap that succeeds finds the baseline stored.** -/
theorem storedDocument_eq (hs : s.Synced) (hkey : s.masterKey ≠ none) {request : SaveRequest κ ν}
    {k : Cont κ ν} (hrun : s.running = some r) (hpc : r.pc = .saving request k)
    (hcas : stored.map (SealedBlob.bytes aead) = request.expected.map (SealedBlob.bytes aead))
    {d : VaultDocument ν} (hd : s.persistedDocument = some d) : storedDocument stored = d := by
  have h := hs.running hkey r hrun
  rw [hpc] at h
  rw [storedDocument_eq_of_bytes hcas, h.2.2]
  exact hs.baseline hkey d hd

private theorem locked (hauto : s.autoSave = true) (hkey : s.masterKey = none) : s.Synced :=
  ⟨hauto, fun h => absurd hkey h, fun h => absurd hkey h, fun h => absurd hkey h⟩

/-- The running write goes on, and no field changes. -/
private theorem proceed (hs : s.Synced) {pc : Pc κ ν} (hrun : s.running = some r)
    (hpc : s.masterKey ≠ none → r.pc.Synced s → pc.Synced (s.suspend r pc)) :
    (s.suspend r pc).Synced := by
  refine ⟨hs.autoSave, hs.baseline, fun _ h => by simp [suspend] at h, fun hkey r' hr' => ?_⟩
  obtain ⟨⟩ := hr'
  exact hpc hkey (hs.running hkey r hrun)

private theorem settle (hs : s.Synced) (hauto : s'.autoSave = s.autoSave)
    (hbaseline : s'.masterKey ≠ none → ∀ d, s'.persistedDocument = some d →
      storedDocument s'.persistedBlob = d) (hrun' : s'.running = none)
    (hidle : s'.masterKey ≠ none → s'.doc.map DocObj.val = s'.persistedDocument) : s'.Synced :=
  ⟨hauto ▸ hs.autoSave, hbaseline, fun hkey _ => hidle hkey,
    fun _ r hr => by simp [hrun'] at hr⟩

private theorem next {pc : Pc κ ν} (hs : s.Synced) (ht : s.Tracked log) (hrun : s.running = some r)
    (hnext : Pc.Next aead s stored r.pc pc) :
    (s.suspend r pc).Synced := by
  refine hs.proceed hrun fun hkey h => ?_
  have ht := ht hkey r hrun
  generalize r.pc = pc₀ at hnext h ht
  cases hnext with
  | @send blob k =>
    refine ⟨h, ?_, rfl⟩
    cases k with
    | first task replay => exact congrArg (Option.map DocObj.val) ht
    | retry task retried => rfl
    | rekey previous next nextKey => rfl
  | resend | refuse => exact h
  | reload => exact h.1
  | skipReload hnone => exact absurd hnone hkey
  | loadFault | load => exact h
  | skipLoaded hnone => exact absurd hnone hkey
  | decode => exact h
  | skipDecoded hnone => exact absurd hnone hkey
  | clearFault => exact h

/-- After the `catch` of a write the document in place is the baseline. -/
private theorem doc_rollback {k : Cont κ ν} (hs : s.Synced) (ht : s.Tracked log)
    (hkey : s.masterKey ≠ none) (hrun : s.running = some r) (hpc : Pc.Failing k r.pc) :
    (k.rollback s).doc.map DocObj.val = s.persistedDocument := by
  have h := hs.running hkey r hrun
  have ht := ht hkey r hrun
  have hback : k.Synced s → k.Current s log r.call →
      (k.rollback s).doc.map DocObj.val = s.persistedDocument := by
    intro hk hcur
    cases k with
    | first task replay =>
      cases task with
      | save document =>
        have hdoc : s.doc = some document := hcur
        rw [show s.persistedDocument = _ from hk]
        simp [Cont.rollback, hdoc, Task.before]
      | mutate previous document result =>
        have href : s.doc.map DocObj.ref = some document.ref := congrArg _ hcur
        rw [show s.persistedDocument = _ from hk]
        simp [Cont.rollback, href, Task.before]
    | retry task retried =>
      rw [hcur.2.rollback]
      exact hk.1
    | rekey previous next nextKey =>
      have hdoc : s.doc = some previous := hcur
      rw [show s.persistedDocument = _ from hk]
      simp [Cont.rollback, hdoc]
  generalize r.pc = pc at hpc h ht
  cases hpc with
  | encoding => exact hback h ht
  | answered => exact hback h.1 ht
  | loaded => exact hback h ht
  | reloaded =>
    rw [ht.2.1.rollback]
    exact h

omit [DecidableEq ν] in
private theorem object_of_unsaved {χ : Change ν} {previous : DocObj ν} {ref : ℕ}
    (h : (χ.buildNext previous.val).persist = false) : χ.object ref previous = previous := by
  cases χ with
  | delete c id =>
    rw [Change.buildNext] at h
    rw [Change.object, Change.buildNext]
    split at h
    · simp
    · cases h
  | _ => cases h

/-- **The baseline of a saving handle.** -/
theorem move {act : Act κ ν} {o : Outcome κ ν} (hs : s.Synced) (hsound : s.Sound log)
    (hact : ∀ enabled, act ≠ .setAutoSave enabled) (hmove : Move aead schema s stored act o) :
    o.handle.Synced := by
  have hwf := hsound.wellFormed
  have ht := hsound.tracked
  cases hmove with
  | idle => exact hs
  | beginOpen | openLoaded | openFailed | openDecode =>
    exact ⟨hs.autoSave, hs.baseline, hs.idle, hs.running⟩
  | openEmpty hpc =>
    refine ⟨hs.autoSave, ?_, fun _ _ => rfl, fun hkey r hr => ?_⟩
    · rintro - _ ⟨⟩
      rfl
    · have hcont := hwf.cont_of_opening hkey (by simp [hpc]) hr
      generalize r.pc = pc at hcont
      cases pc <;> first | rfl | cases hcont
  | openDecoded hpc =>
    obtain rfl := hwf.decoded _ _ hpc
    refine ⟨hs.autoSave, ?_, fun _ _ => rfl, fun hkey r hr => ?_⟩
    · rintro - _ ⟨⟩
      rfl
    · have hcont := hwf.cont_of_opening hkey (by simp [hpc]) hr
      generalize r.pc = pc at hcont
      cases pc <;> first | rfl | cases hcont
  | called | startRejected hrun => exact ⟨hs.autoSave, hs.baseline, hs.idle, hs.running⟩
  | close => exact locked hs.autoSave rfl
  | setAutoSave => exact absurd rfl (hact _)
  | startClear hrun =>
    refine ⟨hs.autoSave, hs.baseline, by rintro - ⟨⟩, ?_⟩
    rintro hkey r ⟨⟩
    exact hs.idle hkey hrun
  | startSave hrun _ _ hkey hdoc | startMutate hrun _ _ hkey hdoc | startRekey hrun _ _ hkey hdoc =>
    refine ⟨hs.autoSave, hs.baseline, by rintro - ⟨⟩, ?_⟩
    rintro - r ⟨⟩
    exact (hs.idle hkey hrun).symm.trans (congrArg _ hdoc)
  | startUnsaved hrun _ _ hkey hdoc hunsaved =>
    refine hs.settle rfl hs.baseline hrun fun _ => ?_
    have hpersist := hunsaved.resolve_left (by simp [hs.autoSave])
    have hidle := hs.idle hkey hrun
    rw [hdoc] at hidle
    simpa [place, object_of_unsaved hpersist] using hidle
  | next hrun hnext => exact hs.next ht hrun hnext
  | commit hrun hpc | wipe hrun hpc => exact hs.proceed hrun fun _ h => by rw [hpc] at h; exact h
  | savedClosed _ _ hkey | resolveRetryClosed _ _ hkey => exact locked hs.autoSave hkey
  | @saved _ _ r request k hrun hpc hkey =>
    have h := hs.running hkey r hrun
    have hblob := hwf.running r hrun
    rw [hpc] at h hblob
    refine ⟨hs.autoSave, fun _ d hd => ?_, by rintro - ⟨⟩, ?_⟩
    · have hd' : request.document = some d := hd
      obtain rfl := Option.some.inj (h.2.1.symm.trans hd')
      exact hblob.2
    · rintro - r' ⟨⟩
      exact h.2.1
  | fail hrun hpc =>
    refine hs.settle (by simp [Handle.fail]) (by simpa [Handle.fail] using hs.baseline) rfl
      fun hkey => ?_
    have hkey' : s.masterKey ≠ none := by simpa [Handle.fail] using hkey
    simpa [Handle.fail] using hs.doc_rollback ht hkey' hrun hpc
  | closing => exact locked hs.autoSave rfl
  | @reloaded _ _ r blob document k hrun hpc =>
    have hblob := hwf.running r hrun
    rw [hpc] at hblob
    obtain rfl := hblob.2 _ rfl
    refine ⟨hs.autoSave, ?_, by rintro - ⟨⟩, ?_⟩
    · rintro - _ ⟨⟩
      rfl
    · rintro - r' ⟨⟩
      rfl
  | @retry _ _ r task replay document merged hrun hpc happly =>
    refine ⟨hs.autoSave, hs.baseline, by rintro - ⟨⟩, ?_⟩
    rintro hkey r' ⟨⟩
    have h := hs.running hkey r hrun
    have hdoc := ht hkey r hrun
    have hfrom := hwf.running r hrun
    rw [hpc] at h hdoc hfrom
    refine ⟨h, fun previous object result htask => ?_⟩
    refine ⟨document, replay, h.symm.trans hdoc.2.2, ?_, happly⟩
    generalize r.op = op at hfrom
    cases hfrom with
    | first _ hreplay => exact (hreplay _ _ _ htask).symm
  | @resolveFirst _ _ r task replay hrun hpc =>
    refine hs.settle rfl hs.baseline rfl fun hkey => ?_
    have h := hs.running hkey r hrun
    have hdoc := ht hkey r hrun
    rw [hpc] at h hdoc
    exact (congrArg (Option.map DocObj.val) hdoc).trans h.symm
  | @resolveRetry _ _ r task retried hrun hpc =>
    refine hs.settle rfl hs.baseline rfl fun hkey => ?_
    have h := hs.running hkey r hrun
    rw [hpc] at h
    exact h.symm
  | @rekeyMissed _ _ r previous next nextKey hrun hpc hmissed =>
    by_cases hkey : s.masterKey = none
    · exact locked hs.autoSave hkey
    · have hdoc := ht hkey r hrun
      rw [hpc] at hdoc
      have href : s.doc.map DocObj.ref = some previous.ref := congrArg _ hdoc
      exact absurd href (hmissed.resolve_right hkey)
  | @rekeySwitch _ _ r previous next nextKey hrun hpc href hkey =>
    have h := hs.running hkey r hrun
    rw [hpc] at h
    exact hs.settle rfl (fun _ => hs.baseline hkey) rfl fun _ => h.symm
  | clearDone => exact hs.settle rfl (by simp) rfl fun _ => rfl
  | @clearFailed _ _ r err hrun hpc =>
    refine hs.settle rfl hs.baseline rfl fun hkey => ?_
    have h := hs.running hkey r hrun
    rw [hpc] at h
    exact h

end Handle.Synced

end XchainWallet
