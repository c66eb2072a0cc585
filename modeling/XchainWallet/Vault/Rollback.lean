import XchainWallet.Vault.Provenance

/-!
# A rejected write leaves nothing behind

A write puts its document into the handle before it is saved. When its call rejects, the
handle is back at the document it had, or at the one that the call reloaded from the backend,
unless it has lost its key meanwhile (`doc_of_rejected`). And no blob that is stored later,
by this or any other handle, was built with the rejected change: every stored document is
derived from the operations of calls that landed, and a call that landed does not reject
(`stored_of_landed`).
-/

namespace XchainWallet

open Transition

variable {κ ν β : Type} [DecidableEq ν]
variable {aead : Aead κ (ParsedDocument ν) β} {schema : Schema ν}

/-- The operation writes records: `put`, `putMany`, `delete` or `rekey`. -/
inductive Op.Writes : Op κ ν → Prop
  | mutate {χ} : Writes (.mutate χ)
  | rekey {args} : Writes (.rekey args)

/-- Where a write that rejects may leave the document in place. -/
def Handle.RolledBack (s : Handle κ ν) (log : List (Event κ ν)) (call : ℕ) (op : Op κ ν) : Prop :=
  s.masterKey = none ∨
    (∃ before, .began call op before ∈ log ∧ s.doc.map DocObj.val = before) ∨
    ∃ blob, .reloaded call blob ∈ log ∧ s.doc.map DocObj.val = some blob.document

namespace Handle

variable {s : Handle κ ν} {stored : Option (SealedBlob κ ν)} {log : List (Event κ ν)}

/-- The document in place after the `catch` of a write that still has its own document, or
the one that it reloaded. -/
private theorem rolledBack_of_current {r : Running κ ν} {k : Cont κ ν} (hs : s.Sound log)
    (hrun : s.running = some r) (hcont : r.pc.cont = some k) (hfrom : k.From r.op)
    (hcur : k.Current s log r.call) (hop : r.op.Writes) (err : VaultError) :
    (s.fail r k err).1.RolledBack ((s.fail r k err).2 ++ log) r.call r.op := by
  have hbegan := hs.ordered.began r hrun k hcont
  cases k with
  | first task replay =>
    cases task with
    | save document =>
      generalize r.op = op at hop hfrom
      cases hfrom with
      | first htask => cases htask with | save => cases hop
    | mutate previous document result =>
      -- the document in place is the write's own, so its `catch` restores the previous one
      refine .inr (.inl ⟨some previous.val, List.mem_cons_of_mem _ (hbegan _ rfl), ?_⟩)
      have href : s.doc.map DocObj.ref = some document.ref := congrArg _ hcur
      simp [fail, Cont.rollback, href]
  | retry task retried =>
    obtain ⟨⟨o, blob, ho, hmem, hval⟩, hdet⟩ := hcur
    refine .inr (.inr ⟨blob, List.mem_cons_of_mem _ hmem, ?_⟩)
    simp [fail, hdet.rollback, ho, hval]
  | rekey previous next nextKey =>
    refine .inr (.inl ⟨some previous.val, List.mem_cons_of_mem _ (hbegan _ rfl), ?_⟩)
    have hdoc : s.doc = some previous := hcur
    simp [fail, Cont.rollback, hdoc]

private theorem rolledBack_of_failing {r : Running κ ν} {k : Cont κ ν} (hs : s.Sound log)
    (hrun : s.running = some r) (hpc : Pc.Failing k r.pc) (hop : r.op.Writes) (err : VaultError) :
    (s.fail r k err).1.RolledBack ((s.fail r k err).2 ++ log) r.call r.op := by
  by_cases hkey : s.masterKey = none
  · exact .inl (by simpa [fail] using hkey)
  · have hwf := hs.wellFormed.running r hrun
    have htracked := hs.tracked hkey r hrun
    have hcont := hpc.cont_eq
    have hback := fun hfrom hcur => rolledBack_of_current hs hrun hcont hfrom hcur hop err
    generalize r.pc = pc at hpc hwf htracked
    cases hpc with
    | encoding | answered => exact hback hwf.1 htracked
    | loaded => exact hback hwf htracked
    | reloaded =>
      obtain ⟨⟨o, blob, ho, hmem, hval⟩, hdet, -⟩ := htracked
      refine .inr (.inr ⟨blob, List.mem_cons_of_mem _ hmem, ?_⟩)
      simp [fail, hdet.rollback, ho, hval]

/-- Where the step at which a write rejects leaves the document. -/
theorem rolledBack_of_move {act : Act κ ν} {o : Outcome κ ν} (hs : s.Sound log)
    (hmove : Move aead schema s stored act o) {call : ℕ} {op : Op κ ν} {err : VaultError}
    (hop : op.Writes) (hrej : .rejected call op err ∈ o.log) :
    o.handle.RolledBack (o.log ++ log) call op := by
  cases hmove with
  | idle hlog =>
    obtain h | ⟨err', h⟩ := hlog _ hrej <;> cases h
  | startRejected =>
    obtain ⟨rfl, rfl, rfl⟩ : call = _ ∧ op = _ ∧ err = _ := by simpa using hrej
    exact .inr (.inl ⟨_, List.mem_cons_of_mem _ List.mem_cons_self, rfl⟩)
  | fail hrun hpc =>
    obtain ⟨rfl, rfl, rfl⟩ : call = _ ∧ op = _ ∧ err = _ := by simpa [fail] using hrej
    exact rolledBack_of_failing hs hrun hpc hop _
  | clearFailed hrun hpc =>
    obtain ⟨rfl, rfl, rfl⟩ : call = _ ∧ op = _ ∧ err = _ := by simpa using hrej
    have hwf := hs.wellFormed.running _ hrun
    rw [hpc] at hwf
    rw [hwf] at hop
    cases hop
  | _ => simp at hrej

/-- A call that is refused before it is queued leaves its handle as it was. -/
private theorem handle_of_refused {act : Act κ ν} {o : Outcome κ ν}
    (hmove : Move aead schema s stored act o) {err : VaultError} (h : .refused err ∈ o.log) :
    o.handle = s := by
  cases hmove with
  | idle => rfl
  | fail => simp [fail] at h
  | _ => simp at h

end Handle

section Runs

variable [DecidableEq β] {key : ℕ → κ} {stored : Option (SealedBlob κ ν)}

/-- A document that was built without the operations of rejected calls. -/
def World.WithoutRejected (w : World κ ν) (op : Op κ ν) : Prop :=
  ∃ h call, w.Landed h call op ∧ ∀ op' err, (h, .rejected call op' err) ∉ w.log

private theorem not_rejected_of_landed {w : World κ ν} (hw : w.Sound) {h call : ℕ} {op : Op κ ν}
    (hlanded : w.Landed h call op) (op' : Op κ ν) (err : VaultError) :
    (h, .rejected call op' err) ∉ w.log := by
  intro hrej
  have hrej' := World.mem_events.mpr hrej
  rcases hlanded with ⟨before, blob, hmem⟩ | ⟨result, hmem⟩
  · exact (hw h).ordered.committed_or_rejected (World.mem_events.mpr hmem) hrej'
  · exact (hw h).ordered.resolved_or_rejected (World.mem_events.mpr hmem) hrej'

/-- **A rejected write leaves nothing behind.** At the step at which the call of a `put`,
`putMany`, `delete` or `rekey` rejects, its handle is left without a key, or with the document
that it had when the write began, or with the one that the write reloaded from the backend.
A call that is refused before it is queued changes nothing. And every blob that the backend
holds then was built from the first one by operations of calls that have not rejected. -/
theorem rejected_write_leaves_nothing {as : List (ℕ × Act κ ν)} {a : ℕ × Act κ ν}
    {w w' : World κ ν}
    (hrun : run (World.step aead schema) (World.fresh key stored) as = some w)
    (hstep : w.step aead schema a = some w') :
    (∀ h call op err, op.Writes → (h, .rejected call op err) ∈ w'.log →
        (h, .rejected call op err) ∉ w.log →
        (w'.handles h).RolledBack (w'.events h) call op) ∧
      (∀ h err, w'.log = (h, .refused err) :: w.log → w'.handles = w.handles) ∧
      ∀ blob, w'.stored = some blob →
        Derived (InBlob stored) w'.WithoutRejected blob.document := by
  have hw := World.sound_of_run hrun
  have hw' := hw.step hstep
  have hprov := (World.provenance_of_run hrun).step hw hstep
  obtain ⟨o, hmove, hstored, hhandles, hlog⟩ := World.move_of_step hstep
  refine ⟨fun h call op err hop hmem hnew => ?_, fun h err hrefused => ?_, fun blob hblob => ?_⟩
  · rw [hlog] at hmem
    obtain ⟨ev, hev, heq⟩ := List.mem_map.mp ((List.mem_append.mp hmem).resolve_right hnew)
    obtain ⟨rfl, rfl⟩ := Prod.mk.inj heq
    rw [World.events_of_log hlog, hhandles, if_pos rfl, Function.update_self]
    exact Handle.rolledBack_of_move (hw a.1) hmove hop hev
  · have hnew : o.log.map (fun ev => (a.1, ev)) = [(h, .refused err)] :=
      List.append_cancel_right (hlog.symm.trans hrefused)
    have hmem : Event.refused err ∈ o.log := by
      cases hlist : o.log with
      | nil => simp [hlist] at hnew
      | cons ev evs =>
        rw [hlist] at hnew
        simp at hnew
        simp [hnew]
    rw [hhandles, Handle.handle_of_refused hmove hmem, Function.update_eq_self]
  · refine (hprov.stored blob hblob).mono fun op hop => ?_
    obtain ⟨h, call, hlanded⟩ := hop
    exact ⟨h, call, hlanded, fun op' err => not_rejected_of_landed hw' hlanded op' err⟩

end Runs

/-- A `put` that the backend refuses, with an error of its own, is taken back. -/
theorem rejected_write_leaves_nothing_backend_fault :
    let contact : VaultRecord ℕ := { id := "c1", fields := [("name", 1)] }
    let op : Op ℕ ℕ := .mutate (.putMany [.record .contacts contact])
    ∃ w w', run World.plainStep (World.fresh (fun _ => 7) none)
        [(0, .open), (0, .openAnswer none), (0, .openResume),
          (0, .call (.put (.collection .contacts contact))), (0, .start 0 none),
          (0, .resume 0 none), (0, .backend (some (.other "disk")))] = some w ∧
      World.plainStep w (0, .resume 0 none) = some w' ∧
      (w'.handles 0).RolledBack (w'.events 0) 0 op ∧
      ∀ blob, w'.stored = some blob →
        Derived (InBlob (none : Option (SealedBlob ℕ ℕ))) w'.WithoutRejected blob.document := by
  intro contact op
  obtain ⟨w, w', hrun, hstep, hrej, hnew⟩ : ∃ w w',
      run World.plainStep (World.fresh (fun _ => 7) none)
          [(0, .open), (0, .openAnswer none), (0, .openResume),
            (0, .call (.put (.collection .contacts contact))), (0, .start 0 none),
            (0, .resume 0 none), (0, .backend (some (.other "disk")))] = some w ∧
        World.plainStep w (0, .resume 0 none) = some w' ∧
        (0, .rejected 0 op (.backend "disk")) ∈ w'.log ∧
        (0, .rejected 0 op (.backend "disk")) ∉ w.log :=
    ⟨_, _, rfl, rfl, .head _, by intro h; nomatch h⟩
  obtain ⟨hback, -, hstored⟩ := rejected_write_leaves_nothing hrun hstep
  exact ⟨w, w', hrun, hstep, hback 0 0 op _ .mutate hrej hnew, hstored⟩

/-- Another handle changes the key while a `put` is under way: the `put` finds a blob that it
cannot read, rejects, and leaves its handle locked with no document at all. -/
theorem rejected_write_locks_handle :
    let contact : VaultRecord ℕ := { id := "c1", fields := [("name", 1)] }
    let op : Op ℕ ℕ := .mutate (.putMany [.record .contacts contact])
    let args : RekeyArgs ℕ ℕ :=
      { masterKey := some 9, wallets := [], readWallets := none, sameObjects := true }
    ∃ w, run World.plainStep (World.fresh (fun _ => 7) none)
        [(0, .open), (0, .openAnswer none), (0, .openResume), (1, .open), (1, .openAnswer none),
          (1, .openResume), (1, .call (.rekey args)), (1, .start 0 none), (1, .resume 0 none),
          (1, .backend none), (1, .resume 0 none), (1, .resume 0 none),
          (0, .call (.put (.collection .contacts contact))), (0, .start 1 none),
          (0, .resume 0 none), (0, .backend none), (0, .resume 0 none), (0, .backend none),
          (0, .resume 0 none), (0, .resume 0 none), (0, .resume 0 none)] = some w ∧
      w.log.head? = some (0, .rejected 0 op (.conflict "storage")) ∧
      (0, .began 0 op (some emptyDocument)) ∈ w.log ∧
      (∀ blob, (0, .reloaded 0 blob) ∉ w.log) ∧ (w.handles 0).doc = none := by
  refine ⟨_, rfl, rfl, .tail _ (.head _), ?_, rfl⟩
  rintro blob h
  nomatch h

end XchainWallet
