import XchainWallet.Vault.Machine

/-!
# What a step of a handle can do

`Handle.move_of_step` says once what a step of a handle can do. `Handle.Move` has one
constructor for each way in which the assignments of the source change the handle; the
awaits that only pass on are gathered in `Pc.Next`, and every path on which a write rejects
in `Pc.Failing`. The invariants of the vault are proved by cases on `Move`.
-/

namespace XchainWallet

open Option (isNone_iff_eq_none map_eq_some_iff some.inj)

variable {κ ν β : Type} [DecidableEq ν]
variable {aead : Aead κ (ParsedDocument ν) β} {schema : Schema ν}

/-- The awaits at which a write can reject before the backend has accepted it. -/
inductive Pc.Failing (k : Cont κ ν) : Pc κ ν → Prop
  | encoding {err} : Failing k (.encoding (.error err) k)
  | answered {err request} : err ≠ .conflict → Failing k (.answered (.error err) request k)
  | loaded {err} : Failing k (.loaded (.error err) k)
  | reloaded {document} : Failing k (.reloaded document k)

/-- The awaits of a write that move on and leave the fields of the handle alone. -/
inductive Pc.Next (aead : Aead κ (ParsedDocument ν) β) (s : Handle κ ν)
    (stored : Option (SealedBlob κ ν)) : Pc κ ν → Pc κ ν → Prop
  | send {blob k} : Next aead s stored (.encoding (.ok blob) k)
      (.saving ⟨blob, k.document s, s.persistedBlob, false⟩ k)
  | resend {request k} : Next aead s stored (.answered (.error .quota) request k)
      (.saving { request with trimmed := true } k)
  | refuse {err request k} :
    Next aead s stored (.saving request k) (.answered (.error err) request k)
  | reload {request k} : s.masterKey ≠ none →
    Next aead s stored (.answered (.error .conflict) request k) (.reloading k)
  | skipReload {request k} : s.masterKey = none →
    Next aead s stored (.answered (.error .conflict) request k) (.reloaded none k)
  | loadFault {err k} : Next aead s stored (.reloading k) (.loaded (.error err) k)
  | load {k} : Next aead s stored (.reloading k) (.loaded (.ok stored) k)
  | skipLoaded {answer k} : s.masterKey = none →
    Next aead s stored (.loaded (.ok answer) k) (.reloaded none k)
  | decode {blob k} : s.masterKey ≠ none → Next aead s stored (.loaded (.ok (some blob)) k)
      (.decoding blob (decodeDocument aead s.masterKey (blob.bytes aead)) k)
  | skipDecoded {blob document k} : s.masterKey = none →
    Next aead s stored (.decoding blob (.ok document) k) (.reloaded none k)
  | clearFault {err} : Next aead s stored .clearing (.cleared (.error err))

/-- The awaits after which `_reloadAfterConflict` closes the handle. -/
inductive Pc.Closing (k : Cont κ ν) : Pc κ ν → Prop
  | absent : Closing k (.loaded (.ok none) k)
  | sealed {blob err} : Closing k (.decoding blob (.error err) k)

/-- The document object that a mutation puts in place, from the reference that is free. -/
def Change.object (χ : Change ν) (ref : ℕ) (previous : DocObj ν) : DocObj ν :=
  if (χ.buildNext previous.val).fresh then
    { ref := ref, val := (χ.buildNext previous.val).document }
  else previous

omit [DecidableEq ν] in
theorem Change.val_object (χ : Change ν) (ref : ℕ) (previous : DocObj ν) :
    (χ.object ref previous).val = χ.apply previous.val := by
  rw [object, Change.apply]
  split
  · rfl
  · next h =>
    cases χ with
    | delete c id =>
      rw [buildNext] at h ⊢
      split at h <;> simp_all
    | _ => exact absurd rfl h

omit [DecidableEq ν] in
/-- A failing write leaves the handle as it is, or takes back its own mutation. -/
theorem Cont.rollback_cases (s : Handle κ ν) (k : Cont κ ν) :
    k.rollback s = s ∨ ∃ previous document result,
      ((∃ replay, k = .first (.mutate previous document result) replay) ∨
        ∃ retried, k = .retry (.mutate previous document result) retried) ∧
      s.doc.map DocObj.ref = some document.ref ∧ k.rollback s = { s with doc := some previous } := by
  cases k with
  | rekey previous next nextKey => exact .inl rfl
  | first task replay =>
    cases task with
    | save document => exact .inl rfl
    | mutate previous document result =>
      by_cases href : s.doc.map DocObj.ref = some document.ref
      · exact .inr ⟨previous, document, result, .inl ⟨replay, rfl⟩, href, if_pos href⟩
      · exact .inl (if_neg href)
  | retry task retried =>
    cases task with
    | save document => exact .inl rfl
    | mutate previous document result =>
      by_cases href : s.doc.map DocObj.ref = some document.ref
      · exact .inr ⟨previous, document, result, .inr ⟨retried, rfl⟩, href, if_pos href⟩
      · exact .inl (if_neg href)

section Rollback

variable (s : Handle κ ν) (k : Cont κ ν)

omit [DecidableEq ν] in
private theorem Cont.rollback_eq : ∃ doc, k.rollback s = { s with doc := doc } := by
  obtain h | ⟨previous, _, _, -, -, h⟩ := k.rollback_cases s
  · exact ⟨s.doc, h⟩
  · exact ⟨some previous, h⟩

omit [DecidableEq ν] in
@[simp]
theorem Cont.masterKey_rollback : (k.rollback s).masterKey = s.masterKey := by
  obtain ⟨doc, h⟩ := k.rollback_eq s
  rw [h]

omit [DecidableEq ν] in
@[simp]
theorem Cont.persistedBlob_rollback : (k.rollback s).persistedBlob = s.persistedBlob := by
  obtain ⟨doc, h⟩ := k.rollback_eq s
  rw [h]

omit [DecidableEq ν] in
@[simp]
theorem Cont.persistedDocument_rollback :
    (k.rollback s).persistedDocument = s.persistedDocument := by
  obtain ⟨doc, h⟩ := k.rollback_eq s
  rw [h]

omit [DecidableEq ν] in
@[simp]
theorem Cont.opened_rollback : (k.rollback s).opened = s.opened := by
  obtain ⟨doc, h⟩ := k.rollback_eq s
  rw [h]

omit [DecidableEq ν] in
@[simp]
theorem Cont.opening_rollback : (k.rollback s).opening = s.opening := by
  obtain ⟨doc, h⟩ := k.rollback_eq s
  rw [h]

omit [DecidableEq ν] in
@[simp]
theorem Cont.queue_rollback : (k.rollback s).queue = s.queue := by
  obtain ⟨doc, h⟩ := k.rollback_eq s
  rw [h]

omit [DecidableEq ν] in
@[simp]
theorem Cont.nextCall_rollback : (k.rollback s).nextCall = s.nextCall := by
  obtain ⟨doc, h⟩ := k.rollback_eq s
  rw [h]

omit [DecidableEq ν] in
@[simp]
theorem Cont.nextRef_rollback : (k.rollback s).nextRef = s.nextRef := by
  obtain ⟨doc, h⟩ := k.rollback_eq s
  rw [h]

omit [DecidableEq ν] in
@[simp]
theorem Cont.autoSave_rollback : (k.rollback s).autoSave = s.autoSave := by
  obtain ⟨doc, h⟩ := k.rollback_eq s
  rw [h]

end Rollback

/-- The handle once a mutation has put its document in place. -/
def Handle.place (s : Handle κ ν) (document : DocObj ν) : Handle κ ν :=
  { s with doc := some document, nextRef := s.nextRef + 1 }

/-- The outcomes of one step of a handle. -/
inductive Handle.Move (aead : Aead κ (ParsedDocument ν) β) (schema : Schema ν) (s : Handle κ ν)
    (stored : Option (SealedBlob κ ν)) : Act κ ν → Outcome κ ν → Prop
  | idle {act log} : (∀ ev ∈ log, ev = .returned ∨ ∃ err, ev = .refused err) →
    Move aead schema s stored act ⟨stored, s, log⟩
  | beginOpen : s.opened = false → s.opening = none →
    Move aead schema s stored .open ⟨stored, { s with opening := some .loading }, []⟩
  | openLoaded {fault answer} : s.opening = some .loading → (∀ b, answer = .ok b → b = stored) →
    Move aead schema s stored (.openAnswer fault)
      ⟨stored, { s with opening := some (.loaded answer) }, []⟩
  | openFailed {pc} : s.opening = some pc →
    Move aead schema s stored .openResume ⟨stored, { s with opening := none }, []⟩
  | openDecode {blob} : s.opening = some (.loaded (.ok (some blob))) →
    Move aead schema s stored .openResume
      ⟨stored, { s with
        opening := some (.decoding blob (decodeDocument aead s.masterKey (blob.bytes aead))) }, []⟩
  | openEmpty : s.opening = some (.loaded (.ok none)) →
    Move aead schema s stored .openResume ⟨stored, s.finishOpen emptyDocument none, []⟩
  | openDecoded {blob document} : s.opening = some (.decoding blob (.ok document)) →
    Move aead schema s stored .openResume ⟨stored, s.finishOpen document (some blob), []⟩
  | called {request op} : request.prepare schema = .ok (some op) →
    (op = .clear ∨ s.assertOpen = .ok ()) →
    Move aead schema s stored (.call request)
      ⟨stored, { s with queue := s.queue ++ [(s.nextCall, op)], nextCall := s.nextCall + 1 },
        [.called s.nextCall op]⟩
  | close : Move aead schema s stored .close ⟨stored, s.close, []⟩
  | setAutoSave {enabled} :
    Move aead schema s stored (.setAutoSave enabled) ⟨stored, { s with autoSave := enabled }, []⟩
  | startClear {nonce fault call queue} : s.running = none → s.queue = (call, .clear) :: queue →
    Move aead schema s stored (.start nonce fault)
      ⟨stored, { s with queue := queue, running := some ⟨call, .clear, .clearing⟩ },
        [.began call .clear (s.doc.map DocObj.val)]⟩
  | startRejected {nonce fault call op queue err} :
    s.running = none → s.queue = (call, op) :: queue →
    Move aead schema s stored (.start nonce fault)
      ⟨stored, { s with queue := queue },
        [.rejected call op err, .began call op (s.doc.map DocObj.val)]⟩
  | startSave {nonce fault call queue previous} :
    s.running = none → s.queue = (call, .save) :: queue →
    s.opened = true → s.masterKey ≠ none → s.doc = some previous →
    Move aead schema s stored (.start nonce fault)
      ⟨stored,
        { s with
          queue := queue,
          running := some ⟨call, .save, .encoding (encode s.masterKey nonce fault previous.val)
            (.first (.save previous) (s.persistedDocument.bind fun persisted =>
              makeConflictReplay persisted previous.val))⟩ },
        [.began call .save (s.doc.map DocObj.val)]⟩
  | startMutate {nonce fault call χ queue previous} :
    s.running = none → s.queue = (call, .mutate χ) :: queue →
    s.opened = true → s.masterKey ≠ none → s.doc = some previous →
    Move aead schema s stored (.start nonce fault)
      ⟨stored,
        { s.place (χ.object s.nextRef previous) with
          queue := queue,
          running := some ⟨call, .mutate χ,
            .encoding (encode s.masterKey nonce fault (χ.object s.nextRef previous).val)
              (.first (.mutate previous (χ.object s.nextRef previous)
                  (χ.buildNext previous.val).result)
                (makeConflictReplay previous.val (χ.object s.nextRef previous).val))⟩ },
        [.began call (.mutate χ) (s.doc.map DocObj.val)]⟩
  | startUnsaved {nonce fault call χ queue previous} :
    s.running = none → s.queue = (call, .mutate χ) :: queue →
    s.opened = true → s.masterKey ≠ none → s.doc = some previous →
    (s.autoSave = false ∨ (χ.buildNext previous.val).persist = false) →
    Move aead schema s stored (.start nonce fault)
      ⟨stored, { s.place (χ.object s.nextRef previous) with queue := queue },
        [.resolved call (.mutate χ) (χ.buildNext previous.val).result,
          .began call (.mutate χ) (s.doc.map DocObj.val)]⟩
  | startRekey {nonce fault call args queue previous document} :
    s.running = none → s.queue = (call, .rekey args) :: queue →
    s.opened = true → s.masterKey ≠ none → s.doc = some previous →
    args.build previous.val = .ok document →
    Move aead schema s stored (.start nonce fault)
      ⟨stored,
        { s with
          queue := queue, nextRef := s.nextRef + 1,
          running := some ⟨call, .rekey args,
            .encoding (encode (args.masterKey.or s.masterKey) nonce fault document)
              (.rekey previous { ref := s.nextRef, val := document } args.masterKey)⟩ },
        [.began call (.rekey args) (s.doc.map DocObj.val)]⟩
  | next {act r pc} : s.running = some r → Pc.Next aead s stored r.pc pc →
    Move aead schema s stored act ⟨stored, s.suspend r pc, []⟩
  | commit {fault r request k} : s.running = some r → r.pc = .saving request k →
    stored.map (SealedBlob.bytes aead) = request.expected.map (SealedBlob.bytes aead) →
    Move aead schema s stored (.backend fault)
      ⟨some request.blob, s.suspend r (.answered (.ok ()) request k),
        [.committed r.call r.op k.before request.blob]⟩
  | wipe {fault r} : s.running = some r → r.pc = .clearing →
    Move aead schema s stored (.backend fault)
      ⟨none, s.suspend r (.cleared (.ok ())), [.wiped r.call]⟩
  | savedClosed {nonce fault r request k} :
    s.running = some r → r.pc = .answered (.ok ()) request k → s.masterKey = none →
    Move aead schema s stored (.resume nonce fault) ⟨stored, s.suspend r (.stored k), []⟩
  | saved {nonce fault r request k} :
    s.running = some r → r.pc = .answered (.ok ()) request k → s.masterKey ≠ none →
    Move aead schema s stored (.resume nonce fault)
      ⟨stored,
        { s with
          persistedBlob := some request.blob,
          persistedDocument := request.document }.suspend r (.stored k), []⟩
  | fail {act r k err} : s.running = some r → Pc.Failing k r.pc →
    Move aead schema s stored act ⟨stored, (s.fail r k err).1, (s.fail r k err).2⟩
  | closing {nonce fault r k} : s.running = some r → Pc.Closing k r.pc →
    Move aead schema s stored (.resume nonce fault)
      ⟨stored, s.close.suspend r (.reloaded none k), []⟩
  | reloaded {nonce fault r blob document k} :
    s.running = some r → r.pc = .decoding blob (.ok document) k → s.masterKey ≠ none →
    Move aead schema s stored (.resume nonce fault)
      ⟨stored, (s.install document (some blob)).suspend r (.reloaded (some document) k),
        [.reloaded r.call blob]⟩
  | retry {nonce fault r task replay document merged} :
    s.running = some r → r.pc = .reloaded (some document) (.first task (some replay)) →
    replay.apply document = some merged →
    Move aead schema s stored (.resume nonce fault)
      ⟨stored,
        { s with nextRef := s.nextRef + 1 }.suspend r
          (.encoding (encode s.masterKey nonce fault merged)
            (.retry task { ref := s.nextRef, val := merged })), []⟩
  | resolveFirst {nonce fault r task replay} :
    s.running = some r → r.pc = .stored (.first task replay) →
    Move aead schema s stored (.resume nonce fault)
      ⟨stored, { s with running := none }, [.resolved r.call r.op task.result]⟩
  | resolveRetryClosed {nonce fault r task retried} :
    s.running = some r → r.pc = .stored (.retry task retried) → s.masterKey = none →
    Move aead schema s stored (.resume nonce fault)
      ⟨stored, { s with running := none }, [.resolved r.call r.op task.result]⟩
  | resolveRetry {nonce fault r task retried} :
    s.running = some r → r.pc = .stored (.retry task retried) → s.masterKey ≠ none →
    Move aead schema s stored (.resume nonce fault)
      ⟨stored, { s with doc := some retried, running := none }, [.resolved r.call r.op task.result]⟩
  | rekeyMissed {nonce fault r previous next nextKey} :
    s.running = some r → r.pc = .stored (.rekey previous next nextKey) →
    (s.doc.map DocObj.ref ≠ some previous.ref ∨ s.masterKey = none) →
    Move aead schema s stored (.resume nonce fault)
      ⟨stored, { s with running := none }, [.resolved r.call r.op (some false)]⟩
  | rekeySwitch {nonce fault r previous next nextKey} :
    s.running = some r → r.pc = .stored (.rekey previous next nextKey) →
    s.doc.map DocObj.ref = some previous.ref → s.masterKey ≠ none →
    Move aead schema s stored (.resume nonce fault)
      ⟨stored,
        { s with masterKey := nextKey.or s.masterKey, doc := some next, running := none },
        [.resolved r.call r.op (some true)]⟩
  | clearDone {nonce fault r} : s.running = some r → r.pc = .cleared (.ok ()) →
    Move aead schema s stored (.resume nonce fault)
      ⟨stored,
        { s with
          doc := none, persistedBlob := none, persistedDocument := none, opened := false,
          running := none },
        [.resolved r.call r.op none]⟩
  | clearFailed {nonce fault r err} : s.running = some r → r.pc = .cleared (.error err) →
    Move aead schema s stored (.resume nonce fault)
      ⟨stored, { s with running := none }, [.rejected r.call r.op (.ofBackend err)]⟩

namespace Handle

variable {s : Handle κ ν} {stored : Option (SealedBlob κ ν)}

omit [DecidableEq ν] in
theorem assertOpen_eq_ok (h : s.assertOpen = .ok ()) :
    s.opened = true ∧ s.masterKey ≠ none ∧ ∃ o, s.doc = some o := by
  rw [assertOpen] at h
  split at h
  · cases h
  · next hopen =>
    split at h
    · cases h
    · next hkey =>
      obtain ⟨hopened, hdoc⟩ := not_not.mp hopen
      exact ⟨hopened, by simpa using hkey, Option.isSome_iff_exists.mp hdoc⟩

private theorem move_of_call {request : Request κ ν} : Move aead schema s stored (.call request)
      ⟨stored, (s.call schema request).1, (s.call schema request).2⟩ := by
  rw [call]
  split
  · exact .idle (by simp)
  · next hchecked =>
    split
    · exact .idle (by simp)
    · exact .idle (by simp)
    · next hprep =>
      refine .called hprep ?_
      cases request with
      | clear => exact .inl (some.inj (Except.ok.inj hprep)).symm
      | _ => exact .inr hchecked

omit [DecidableEq ν] in
private theorem whenOpen_cases (call : ℕ) (op : Op κ ν)
    (body : DocObj ν → Handle κ ν × List (Event κ ν)) :
    (∃ err, s.whenOpen call op body = (s, [.rejected call op err])) ∨
      ∃ previous, s.opened = true ∧ s.masterKey ≠ none ∧ s.doc = some previous ∧
        s.whenOpen call op body = body previous := by
  rw [whenOpen]
  split
  · next previous hopen hdoc =>
    obtain ⟨hopened, hkey, -⟩ := assertOpen_eq_ok hopen
    exact .inr ⟨previous, hopened, hkey, hdoc, rfl⟩
  · exact .inl ⟨_, rfl⟩
  · exact .inl ⟨_, rfl⟩

variable {fault : Option String}

private theorem move_of_start {nonce : ℕ} {p : Handle κ ν × List (Event κ ν)}
    (h : s.start nonce fault = some p) :
    Move aead schema s stored (.start nonce fault) ⟨stored, p.1, p.2⟩ := by
  rw [start] at h
  split at h
  · next call op queue hrun hqueue =>
    obtain ⟨⟩ := h
    have hopen := whenOpen_cases (s := { s with queue := queue }) call op
    cases op with
    | clear => exact .startClear hrun hqueue
    | save =>
      obtain ⟨err, h⟩ | ⟨previous, hopened, hkey, hdoc, h⟩ :=
        hopen (beginSave { s with queue := queue } call nonce fault)
      · simp only [h]
        exact .startRejected hrun hqueue
      · simp only [h]
        exact .startSave hrun hqueue hopened hkey hdoc
    | mutate χ =>
      obtain ⟨err, h⟩ | ⟨previous, hopened, hkey, hdoc, h⟩ :=
        hopen (beginMutate { s with queue := queue } call nonce fault χ)
      · simp only [h]
        exact .startRejected hrun hqueue
      · simp only [h, beginMutate]
        split
        · exact .startMutate hrun hqueue hopened hkey hdoc
        · next hsave =>
          refine .startUnsaved hrun hqueue hopened hkey hdoc ?_
          simpa only [not_and_or, Bool.not_eq_true] using hsave
    | rekey args =>
      obtain ⟨err, h⟩ | ⟨previous, hopened, hkey, hdoc, h⟩ :=
        hopen (beginRekey { s with queue := queue } call nonce fault args)
      · simp only [h]
        exact .startRejected hrun hqueue
      · simp only [h, beginRekey]
        cases hbuild : args.build previous.val with
        | error err => exact .startRejected hrun hqueue
        | ok document => exact .startRekey hrun hqueue hopened hkey hdoc hbuild
  · cases h

private theorem move_of_backend [DecidableEq β] {fault : Option BackendError} {o : Outcome κ ν}
    (h : s.backend aead stored fault = some o) : Move aead schema s stored (.backend fault) o := by
  rw [backend] at h
  split at h
  · cases h
  · next r hrun =>
    split at h
    · next request k hpc =>
      split at h
      · obtain ⟨⟩ := h
        exact .next hrun (hpc ▸ .refuse)
      · split at h
        · obtain ⟨⟩ := h
          exact .next hrun (hpc ▸ .refuse)
        · next hsave =>
          obtain ⟨⟩ := h
          refine .commit hrun hpc ?_
          rw [backendSave] at hsave
          split at hsave
          · assumption
          · cases hsave
    · next k hpc =>
      split at h
      · obtain ⟨⟩ := h
        exact .next hrun (hpc ▸ .loadFault)
      · obtain ⟨⟩ := h
        exact .next hrun (hpc ▸ .load)
    · next hpc =>
      split at h
      · obtain ⟨⟩ := h
        exact .next hrun (hpc ▸ .clearFault)
      · obtain ⟨⟩ := h
        exact .wipe hrun hpc
    · cases h

private theorem move_of_afterReload {r : Running κ ν} {nonce : ℕ}
    {document : Option (VaultDocument ν)} {k : Cont κ ν} (hrun : s.running = some r)
    (hpc : r.pc = .reloaded document k) :
    Move aead schema s stored (.resume nonce fault)
      ⟨stored, (s.afterReload r nonce fault document k).1,
        (s.afterReload r nonce fault document k).2⟩ := by
  have hfail : Pc.Failing k r.pc := hpc ▸ .reloaded
  unfold afterReload
  split
  · next task replay =>
    split
    · split
      · exact .fail hrun hfail
      · next happly => exact .retry hrun hpc happly
    · exact .fail hrun hfail
  · exact .fail hrun hfail

private theorem move_of_afterSave {r : Running κ ν} {nonce : ℕ} {k : Cont κ ν}
    (hrun : s.running = some r) (hpc : r.pc = .stored k) :
    Move aead schema s stored (.resume nonce fault)
      ⟨stored, (s.afterSave r k).1, (s.afterSave r k).2⟩ := by
  cases k with
  | first task replay => exact .resolveFirst hrun hpc
  | retry task retried =>
    rw [afterSave]
    split
    · next hkey => exact .resolveRetry hrun hpc (Option.isSome_iff_ne_none.mp hkey)
    · next hkey => exact .resolveRetryClosed hrun hpc (by simpa using hkey)
  | rekey previous next nextKey =>
    rw [afterSave]
    split
    · next hmissed => exact .rekeyMissed hrun hpc (by simpa using hmissed)
    · next hmissed =>
      obtain ⟨href, hkey⟩ := not_or.mp hmissed
      exact .rekeySwitch hrun hpc (not_not.mp href) (by simpa using hkey)

private theorem move_of_resume {nonce : ℕ} {p : Handle κ ν × List (Event κ ν)}
    (h : s.resume aead nonce fault = some p) :
    Move aead schema s stored (.resume nonce fault) ⟨stored, p.1, p.2⟩ := by
  rw [resume] at h
  split at h
  · cases h
  · next r hrun =>
    split at h
    · next hpc => exact some.inj h ▸ .fail hrun (hpc ▸ .encoding)
    · next hpc => exact some.inj h ▸ .next hrun (hpc ▸ .send)
    · next hpc =>
      obtain ⟨⟩ := h
      by_cases hkey : s.masterKey.isNone
      · rw [if_pos hkey]
        exact .savedClosed hrun hpc (isNone_iff_eq_none.mp hkey)
      · rw [if_neg hkey]
        exact .saved hrun hpc (by simpa using hkey)
    · next hpc =>
      obtain ⟨⟩ := h
      rw [reloadAfterConflict]
      split
      · next hkey => exact .next hrun (hpc ▸ .skipReload (isNone_iff_eq_none.mp hkey))
      · next hkey => exact .next hrun (hpc ▸ .reload (by simpa using hkey))
    · next hpc =>
      split at h
      · exact some.inj h ▸ .fail hrun (hpc ▸ .answered (by simp))
      · exact some.inj h ▸ .next hrun (hpc ▸ .resend)
    · next hpc => exact some.inj h ▸ .fail hrun (hpc ▸ .answered (by simp))
    · next hpc => exact some.inj h ▸ move_of_afterSave hrun hpc
    · next hpc => exact some.inj h ▸ .fail hrun (hpc ▸ .loaded)
    · next hpc =>
      split at h
      · next hkey =>
        exact some.inj h ▸ .next hrun (hpc ▸ .skipLoaded (isNone_iff_eq_none.mp hkey))
      · exact some.inj h ▸ .closing hrun (hpc ▸ .absent)
    · next hpc =>
      split at h
      · next hkey =>
        exact some.inj h ▸ .next hrun (hpc ▸ .skipLoaded (isNone_iff_eq_none.mp hkey))
      · next hkey => exact some.inj h ▸ .next hrun (hpc ▸ .decode (by simpa using hkey))
    · next hpc => exact some.inj h ▸ .closing hrun (hpc ▸ .sealed)
    · next hpc =>
      split at h
      · next hkey =>
        exact some.inj h ▸ .next hrun (hpc ▸ .skipDecoded (isNone_iff_eq_none.mp hkey))
      · next hkey => exact some.inj h ▸ .reloaded hrun hpc (by simpa using hkey)
    · next hpc => exact some.inj h ▸ move_of_afterReload hrun hpc
    · next hpc => exact some.inj h ▸ .clearDone hrun hpc
    · next hpc => exact some.inj h ▸ .clearFailed hrun hpc
    · cases h
    · cases h
    · cases h

private theorem move_of_openResume {s' : Handle κ ν} (h : s.openResume aead = some s') :
    Move aead schema s stored .openResume ⟨stored, s', []⟩ := by
  rw [openResume] at h
  split at h
  · next hpc => exact some.inj h ▸ .openFailed hpc
  · next hpc => exact some.inj h ▸ .openEmpty hpc
  · next hpc => exact some.inj h ▸ .openDecode hpc
  · next hpc => exact some.inj h ▸ .openFailed hpc
  · next hpc => exact some.inj h ▸ .openDecoded hpc
  · cases h
  · cases h

/-- **What a step of a handle can do.** -/
theorem move_of_step [DecidableEq β] {act : Act κ ν} {o : Outcome κ ν} (h : s.step aead schema stored act = some o) :
    Move aead schema s stored act o := by
  cases act with
  | «open» =>
    obtain ⟨⟩ := h
    simp only [beginOpen]
    split
    · exact .idle (by simp)
    · next hidle =>
      obtain ⟨hopened, hopening⟩ := not_or.mp hidle
      exact .beginOpen (by simpa using hopened) (by simpa using hopening)
  | openAnswer fault =>
    obtain ⟨s', hs', rfl⟩ := map_eq_some_iff.mp h
    unfold openAnswer at hs'
    split at hs'
    · next hopening =>
      obtain ⟨⟩ := hs'
      refine .openLoaded hopening fun b hb => ?_
      cases fault with
      | none => exact (Except.ok.inj hb).symm
      | some err => cases hb
    · cases hs'
  | openResume =>
    obtain ⟨s', hs', rfl⟩ := map_eq_some_iff.mp h
    exact move_of_openResume hs'
  | call request => exact some.inj h ▸ move_of_call
  | start nonce fault =>
    obtain ⟨p, hp, rfl⟩ := map_eq_some_iff.mp h
    exact move_of_start hp
  | backend fault => exact move_of_backend h
  | resume nonce fault =>
    obtain ⟨p, hp, rfl⟩ := map_eq_some_iff.mp h
    exact move_of_resume hp
  | close => exact some.inj h ▸ .close
  | setAutoSave enabled => exact some.inj h ▸ .setAutoSave

end Handle

/-! ### Invariants of every handle -/

section Lift

variable [DecidableEq β]

theorem World.move_of_step {w w' : World κ ν} {a : ℕ × Act κ ν}
    (hstep : w.step aead schema a = some w') :
    ∃ o, Handle.Move aead schema (w.handles a.1) w.stored a.2 o ∧ w'.stored = o.stored ∧
      w'.handles = Function.update w.handles a.1 o.handle ∧
      w'.log = o.log.map (fun ev => (a.1, ev)) ++ w.log := by
  obtain ⟨o, ho, rfl⟩ := World.step_eq_some hstep
  exact ⟨o, Handle.move_of_step ho, rfl, rfl, rfl⟩

omit [DecidableEq ν] [DecidableEq β] in
/-- What a step makes known of a handle is in front of what was known. -/
theorem World.events_of_log {w w' : World κ ν} {h : ℕ} {log : List (Event κ ν)}
    (hlog : w'.log = log.map (fun ev => (h, ev)) ++ w.log) (h' : ℕ) :
    w'.events h' = if h' = h then log ++ w.events h else w.events h' := by
  rw [World.events, hlog, List.filterMap_append]
  split
  · next hh =>
    subst hh
    simp [World.events]
  · next hh => simp [World.events, Ne.symm hh]

/-- **Lifting rule.** What every move keeps of one handle and of what became known of it, a
step of the world keeps of all of them. -/
theorem World.forall_handles_step {I : Handle κ ν → List (Event κ ν) → Prop}
    {w w' : World κ ν} {a : ℕ × Act κ ν}
    (hmove : ∀ o, Handle.Move aead schema (w.handles a.1) w.stored a.2 o →
      I (w.handles a.1) (w.events a.1) → I o.handle (o.log ++ w.events a.1))
    (hw : ∀ h, I (w.handles h) (w.events h)) (hstep : w.step aead schema a = some w') (h : ℕ) :
    I (w'.handles h) (w'.events h) := by
  obtain ⟨o, ho, -, hhandles, hlog⟩ := World.move_of_step hstep
  rw [World.events_of_log hlog, hhandles]
  by_cases hh : h = a.1
  · subst hh
    simpa using hmove o ho (hw a.1)
  · simpa [hh] using hw h

end Lift

end XchainWallet
