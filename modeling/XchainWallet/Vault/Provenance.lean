import XchainWallet.Vault.Track

/-!
# Where the documents come from

`Derived base applied d` says that `d` was built from the base documents by the changes of
the operations in `applied`, by key changes among them, and by conflict replays of such
documents. `Handle.Provenance` is the invariant of all documents that a handle holds: they
are derived from the operations that a backend has accepted or a call has resolved with,
except the ones that the running write made, which are derived with its own operation added.
-/

namespace XchainWallet

open Option (some.inj)

variable {κ ν β : Type} [DecidableEq ν]
variable {aead : Aead κ (ParsedDocument ν) β} {schema : Schema ν}

/-- The documents built from the base by the operations of `applied`. -/
inductive Derived (base : VaultDocument ν → Prop) (applied : Op κ ν → Prop) :
    VaultDocument ν → Prop
  | base {d} : base d → Derived base applied d
  | empty : Derived base applied emptyDocument
  | change {χ d} : applied (.mutate χ) → Derived base applied d →
    Derived base applied (χ.apply d)
  | rekey {args d d'} : applied (.rekey args) → Derived base applied d → args.build d = .ok d' →
    Derived base applied d'
  | merge {previous next reloaded replay d} : Derived base applied previous →
    Derived base applied next → Derived base applied reloaded →
    makeConflictReplay previous next = some replay → replay.apply reloaded = some d →
    Derived base applied d

variable {base : VaultDocument ν → Prop} {applied applied' : Op κ ν → Prop}

theorem Derived.mono (h : ∀ op, applied op → applied' op) {d : VaultDocument ν}
    (hd : Derived base applied d) : Derived base applied' d := by
  induction hd with
  | base hb => exact .base hb
  | empty => exact .empty
  | change hop _ ih => exact .change (h _ hop) ih
  | rekey hop _ hbuild ih => exact .rekey (h _ hop) ih hbuild
  | merge _ _ _ hmake happly ihp ihn ihr => exact .merge ihp ihn ihr hmake happly

/-- The applied operations and the running one. -/
def withOp (applied : Op κ ν → Prop) (op : Op κ ν) : Op κ ν → Prop := fun op' =>
  applied op' ∨ op' = op

omit [DecidableEq ν] in
theorem withOp_of_applied {op : Op κ ν} (h : ∀ op, applied op → applied' op) (hop : applied' op) :
    ∀ op', withOp applied op op' → applied' op' := by
  rintro op' (h' | rfl)
  · exact h _ h'
  · exact hop

/-! ### The invariant of a handle -/

/-- The continuation's own document object, which the handle holds until it settles. -/
def Cont.Owns (o : DocObj ν) : Cont κ ν → Prop
  | first (.mutate _ document _) _ => document = o
  | retry (.mutate _ document _) _ => document = o
  | first (.save _) _ => False
  | retry (.save _) _ => False
  | rekey _ _ _ => False

/-- The documents of a continuation: `D` holds of those before the write, `E` of those that
the write made. -/
def Cont.Provenance (D E : VaultDocument ν → Prop) : Cont κ ν → Prop
  | first task retryOnConflict =>
    D task.before ∧ E task.document.val ∧ ∀ replay, retryOnConflict = some replay →
      ∃ persisted, D persisted ∧ makeConflictReplay persisted task.document.val = some replay
  | retry task retried => D task.before ∧ E task.document.val ∧ E retried.val
  | rekey previous next _ => D previous.val ∧ E next.val

/-- The documents of a write at an `await`. -/
def Pc.Provenance (D E : VaultDocument ν → Prop) : Pc κ ν → Prop
  | .encoding _ k => k.Provenance D E
  | .saving request k => k.Provenance D E ∧ ∀ d, request.document = some d → E d
  | .answered _ request k => k.Provenance D E ∧ ∀ d, request.document = some d → E d
  | .stored k => k.Provenance D E
  | .reloading k => k.Provenance D E
  | .loaded answer k => k.Provenance D E ∧ ∀ blob, answer = .ok (some blob) → D blob.document
  | .decoding blob _ k => k.Provenance D E ∧ D blob.document
  | .reloaded document k => k.Provenance D E ∧ ∀ d, document = some d → D d
  | .clearing => True
  | .cleared _ => True

/-- The document of an `open` under way. -/
def OpenPc.Provenance (D : VaultDocument ν → Prop) : OpenPc κ ν → Prop
  | .loading => True
  | .loaded answer => ∀ blob, answer = .ok (some blob) → D blob.document
  | .decoding blob _ => D blob.document

/-- The documents of a handle. -/
structure Handle.Provenance (base : VaultDocument ν → Prop) (applied : Op κ ν → Prop)
    (s : Handle κ ν) : Prop where
  doc : ∀ o, s.doc = some o → Derived base applied o.val ∨
    ∃ r k, s.running = some r ∧ r.pc.cont = some k ∧ k.Owns o
  blob : ∀ b, s.persistedBlob = some b → Derived base applied b.document
  persisted : ∀ d, s.persistedDocument = some d → Derived base applied d
  opening : ∀ pc, s.opening = some pc → pc.Provenance (Derived base applied)
  running : ∀ r, s.running = some r →
    r.pc.Provenance (Derived base applied) (Derived base (withOp applied r.op))
  accepted : ∀ r, s.running = some r → r.pc.Accepted → applied r.op

section Mono

variable {D D' E E' : VaultDocument ν → Prop}

theorem Cont.Provenance.mono (hD : ∀ d, D d → D' d) (hE : ∀ d, E d → E' d) {k : Cont κ ν}
    (h : k.Provenance D E) : k.Provenance D' E' := by
  cases k with
  | first task replay =>
    obtain ⟨hbefore, hdoc, hreplay⟩ := h
    refine ⟨hD _ hbefore, hE _ hdoc, fun ρ hρ => ?_⟩
    obtain ⟨p, hp, hmake⟩ := hreplay ρ hρ
    exact ⟨p, hD _ hp, hmake⟩
  | retry task retried => exact ⟨hD _ h.1, hE _ h.2.1, hE _ h.2.2⟩
  | rekey previous next nextKey => exact ⟨hD _ h.1, hE _ h.2⟩

theorem Pc.Provenance.mono (hD : ∀ d, D d → D' d) (hE : ∀ d, E d → E' d) {pc : Pc κ ν}
    (h : pc.Provenance D E) : pc.Provenance D' E' := by
  cases pc with
  | encoding encoded k | stored k | reloading k => exact Cont.Provenance.mono hD hE h
  | saving request k | answered answer request k =>
    exact ⟨h.1.mono hD hE, fun d hd => hE _ (h.2 d hd)⟩
  | loaded answer k => exact ⟨h.1.mono hD hE, fun b hb => hD _ (h.2 b hb)⟩
  | decoding blob decoded k => exact ⟨h.1.mono hD hE, hD _ h.2⟩
  | reloaded document k => exact ⟨h.1.mono hD hE, fun d hd => hD _ (h.2 d hd)⟩
  | clearing | cleared answer => trivial

end Mono

theorem Handle.Provenance.mono (h : ∀ op, applied op → applied' op) {s : Handle κ ν}
    (hs : s.Provenance base applied) : s.Provenance base applied' := by
  have hD : ∀ d, Derived base applied d → Derived base applied' d := fun _ => .mono h
  refine
    { doc := fun o ho => (hs.doc o ho).imp_left (hD _)
      blob := fun b hb => hD _ (hs.blob b hb)
      persisted := fun d hd => hD _ (hs.persisted d hd)
      opening := fun pc hpc => ?_
      running := fun r hr => ?_
      accepted := fun r hr hacc => h _ (hs.accepted r hr hacc) }
  · have hprov := hs.opening pc hpc
    cases pc with
    | loading => trivial
    | loaded answer => exact fun b hb => hD _ (hprov b hb)
    | decoding blob decoded => exact hD _ hprov
  · exact (hs.running r hr).mono hD fun _ => .mono fun op => Or.imp_left (h op)

/-! ### Every step keeps it -/

/-- The operation that an event shows to be applied. -/
def Event.Applies (op : Op κ ν) : Event κ ν → Prop
  | .committed _ op' _ _ => op' = op
  | .resolved _ op' _ => op' = op
  | _ => False

theorem Cont.Provenance.target {D E : VaultDocument ν → Prop} {k : Cont κ ν}
    (h : k.Provenance D E) : E k.target := by
  cases k with
  | first task replay => exact h.2.1
  | retry task retried => exact h.2.2
  | rekey previous next nextKey => exact h.2

theorem Cont.Provenance.owned {D E : VaultDocument ν → Prop} {k : Cont κ ν}
    (h : k.Provenance D E) {o : DocObj ν} (ho : k.Owns o) : E o.val := by
  cases k with
  | first task replay | retry task retried =>
    cases task with
    | save document => exact ho.elim
    | mutate previous document result => exact ho ▸ h.2.1
  | rekey previous next nextKey => exact ho.elim

omit [DecidableEq ν] in
/-- After a rollback the handle holds the document before the write, or one that the write
does not own. -/
private theorem Cont.doc_rollback {s : Handle κ ν} {k : Cont κ ν} {o : DocObj ν}
    (ho : (k.rollback s).doc = some o) :
    s.doc = some o ∧ ¬k.Owns o ∨ ∃ document result,
      (∃ replay, k = .first (.mutate o document result) replay) ∨
        ∃ retried, k = .retry (.mutate o document result) retried := by
  obtain h | ⟨previous, document, result, hk, -, h⟩ := k.rollback_cases s
  · rw [h] at ho
    by_cases hown : k.Owns o
    · -- the write owns the document in place, so its rollback does not leave it there
      have hmutate : ∃ previous result, (∃ replay, k = .first (.mutate previous o result) replay) ∨
          ∃ retried, k = .retry (.mutate previous o result) retried := by
        cases k with
        | rekey previous next nextKey => exact hown.elim
        | first task replay =>
          cases task with
          | save document => exact hown.elim
          | mutate previous document result => exact ⟨previous, result, .inl ⟨replay, hown ▸ rfl⟩⟩
        | retry task retried =>
          cases task with
          | save document => exact hown.elim
          | mutate previous document result => exact ⟨previous, result, .inr ⟨retried, hown ▸ rfl⟩⟩
      obtain ⟨previous, result, hk⟩ := hmutate
      have hdoc : (k.rollback s).doc = some previous := by
        rcases hk with ⟨replay, rfl⟩ | ⟨retried, rfl⟩ <;> simp [rollback, ho]
      rw [h, ho] at hdoc
      obtain ⟨⟩ := hdoc
      exact .inr ⟨o, result, hk⟩
    · exact .inl ⟨ho, hown⟩
  · rw [h] at ho
    obtain ⟨⟩ := ho
    exact .inr ⟨document, result, hk⟩

namespace Handle.Provenance

variable {s s' : Handle κ ν} {stored : Option (SealedBlob κ ν)}

/-- Documents of an applied running operation are derived. -/
private theorem settled {op : Op κ ν} (hop : applied op) {d : VaultDocument ν}
    (hd : Derived base (withOp applied op) d) : Derived base applied d :=
  hd.mono (withOp_of_applied (fun _ => id) hop)

private theorem pending (op : Op κ ν) {d : VaultDocument ν} (hd : Derived base applied d) :
    Derived base (withOp applied op) d :=
  hd.mono fun _ => .inl

/-- The running write goes on with the same continuation. -/
private theorem proceed (hs : s.Provenance base applied) {r : Running κ ν} {pc : Pc κ ν}
    (hrun : s.running = some r) (hrun' : s'.running = some { r with pc := pc })
    (hdoc : ∀ o, s'.doc = some o → s.doc = some o) (hcont : pc.cont = r.pc.cont)
    (hpc : pc.Provenance (Derived base applied) (Derived base (withOp applied r.op)))
    (hacc : pc.Accepted → applied r.op)
    (hblob : ∀ b, s'.persistedBlob = some b → Derived base applied b.document)
    (hpersisted : ∀ d, s'.persistedDocument = some d → Derived base applied d)
    (hopening : s'.opening = s.opening) : s'.Provenance base applied := by
  refine
    { doc := fun o ho => (hs.doc o (hdoc o ho)).imp_right ?_
      blob := hblob
      persisted := hpersisted
      opening := hopening ▸ hs.opening
      running := fun r' hr' => ?_
      accepted := fun r' hr' h => ?_ }
  · rintro ⟨r', k, hr', hk, hown⟩
    obtain rfl := some.inj (hrun.symm.trans hr')
    exact ⟨_, k, hrun', hcont.trans hk, hown⟩
  · obtain rfl := some.inj (hrun'.symm.trans hr')
    exact hpc
  · obtain rfl := some.inj (hrun'.symm.trans hr')
    exact hacc h

/-- Nothing is running any more. -/
private theorem settle (hs : s.Provenance base applied) (hrun' : s'.running = none)
    (hdoc : ∀ o, s'.doc = some o → Derived base applied o.val)
    (hblob : s'.persistedBlob = s.persistedBlob)
    (hpersisted : s'.persistedDocument = s.persistedDocument) (hopening : s'.opening = s.opening) :
    s'.Provenance base applied :=
  { doc := fun o ho => .inl (hdoc o ho)
    blob := hblob ▸ hs.blob
    persisted := hpersisted ▸ hs.persisted
    opening := hopening ▸ hs.opening
    running := fun r hr => by simp [hrun'] at hr
    accepted := fun r hr => by simp [hrun'] at hr }

/-- While nothing runs, the document in place is derived. -/
theorem doc_idle (hs : s.Provenance base applied) (hrun : s.running = none) {o : DocObj ν}
    (ho : s.doc = some o) : Derived base applied o.val :=
  (hs.doc o ho).resolve_right fun ⟨r, _, hr, _⟩ => by simp [hrun] at hr

variable {r : Running κ ν}

/-- While a write runs, the document in place is derived with its operation. -/
private theorem doc_running (hs : s.Provenance base applied) {k : Cont κ ν}
    (hrun : s.running = some r) (hcont : r.pc.cont = some k)
    (hk : k.Provenance (Derived base applied) (Derived base (withOp applied r.op))) {o : DocObj ν}
    (ho : s.doc = some o) : Derived base (withOp applied r.op) o.val := by
  rcases hs.doc o ho with h | ⟨r', k', hr', hk', hown⟩
  · exact pending _ h
  · obtain rfl := some.inj (hrun.symm.trans hr')
    obtain rfl := some.inj (hcont.symm.trans hk')
    exact hk.owned hown

private theorem next {pc' : Pc κ ν} (hs : s.Provenance base applied) (hrun : s.running = some r)
    (hstored : ∀ b, stored = some b → Derived base applied b.document)
    (hnext : Pc.Next aead s stored r.pc pc') :
    pc'.Provenance (Derived base applied) (Derived base (withOp applied r.op)) := by
  have hprov := hs.running r hrun
  have hdoc : ∀ {k : Cont κ ν} {o : DocObj ν}, r.pc.cont = some k → k.Provenance _ _ →
      s.doc = some o → _ := fun hcont hk ho => hs.doc_running hrun hcont hk ho
  generalize hpc : r.pc = pc at hnext hprov
  cases hnext with
  | @send blob k =>
    refine ⟨hprov, fun d hd => ?_⟩
    cases k with
    | first task replay =>
      obtain ⟨o, ho, rfl⟩ := Option.map_eq_some_iff.mp hd
      exact hdoc (congrArg Pc.cont hpc) hprov ho
    | retry task retried => exact some.inj hd ▸ hprov.2.2
    | rekey previous next nextKey => exact some.inj hd ▸ hprov.2
  | resend | refuse => exact hprov
  | reload => exact hprov.1
  | skipReload => exact ⟨hprov.1, by simp⟩
  | loadFault => exact ⟨hprov, by simp⟩
  | load => exact ⟨hprov, fun b hb => hstored b (Except.ok.inj hb)⟩
  | skipLoaded => exact ⟨hprov.1, by simp⟩
  | decode => exact ⟨hprov.1, hprov.2 _ rfl⟩
  | skipDecoded => exact ⟨hprov.1, by simp⟩
  | clearFault => trivial

private theorem failing {k : Cont κ ν} (hs : s.Provenance base applied) (hrun : s.running = some r)
    (hpc : Pc.Failing k r.pc) :
    k.Provenance (Derived base applied) (Derived base (withOp applied r.op)) := by
  have hprov := hs.running r hrun
  generalize r.pc = pc at hpc hprov
  cases hpc with
  | encoding => exact hprov
  | answered | loaded | reloaded => exact hprov.1

private theorem closing {k : Cont κ ν} (hs : s.Provenance base applied) (hrun : s.running = some r)
    (hpc : Pc.Closing k r.pc) :
    k.Provenance (Derived base applied) (Derived base (withOp applied r.op)) := by
  have hprov := hs.running r hrun
  generalize r.pc = pc at hpc hprov
  cases hpc with
  | absent | sealed => exact hprov.1

/-- **Every document a handle holds is derived from the applied operations.** -/
theorem move {act : Act κ ν} {o : Outcome κ ν} (hold : s.Provenance base applied)
    (hwf : s.WellFormed) (hstored : ∀ b, stored = some b → Derived base applied b.document)
    (happ : ∀ op, applied op → applied' op)
    (hevs : ∀ ev ∈ o.log, ∀ op, ev.Applies op → applied' op)
    (hmove : Move aead schema s stored act o) :
    o.handle.Provenance base applied' ∧
      ∀ b, o.stored = some b → Derived base applied' b.document := by
  have hs := hold.mono happ
  replace hstored : ∀ b, stored = some b → Derived base applied' b.document := fun b hb =>
    (hstored b hb).mono happ
  have hwf' := hwf.running
  cases hmove with
  | idle => exact ⟨hs, hstored⟩
  | beginOpen => exact ⟨{ hs with opening := by rintro _ ⟨⟩; trivial }, hstored⟩
  | openLoaded hpc hans =>
    refine ⟨{ hs with opening := ?_ }, hstored⟩
    rintro _ ⟨⟩ b rfl
    exact hstored b (hans _ rfl).symm
  | openFailed => exact ⟨{ hs with opening := by simp }, hstored⟩
  | openDecode hpc =>
    have h := hs.opening _ hpc
    refine ⟨{ hs with opening := ?_ }, hstored⟩
    rintro _ ⟨⟩
    exact h _ rfl
  | openEmpty hpc =>
    refine ⟨{ hs with
      doc := fun o ho => .inl (some.inj ho ▸ .empty)
      blob := by rintro _ ⟨⟩
      persisted := fun d hd => some.inj hd ▸ .empty
      opening := by rintro _ ⟨⟩ }, hstored⟩
  | openDecoded hpc =>
    have h := hs.opening _ hpc
    obtain rfl := hwf.decoded _ _ hpc
    refine ⟨{ hs with
      doc := fun o ho => .inl (some.inj ho ▸ h)
      blob := fun b hb => some.inj hb ▸ h
      persisted := fun d hd => some.inj hd ▸ h
      opening := by rintro _ ⟨⟩ }, hstored⟩
  | called => exact ⟨{ hs with }, hstored⟩
  | close =>
    exact ⟨{ hs with
      doc := by rintro _ ⟨⟩
      blob := by rintro _ ⟨⟩
      persisted := by rintro _ ⟨⟩ }, hstored⟩
  | setAutoSave => exact ⟨{ hs with }, hstored⟩
  | startClear hrun =>
    refine ⟨{ hs with
      doc := fun o ho => .inl (hs.doc_idle hrun ho)
      running := fun r hr => some.inj hr ▸ trivial
      accepted := by rintro r ⟨⟩ ⟨⟩ }, hstored⟩
  | startRejected hrun => exact ⟨{ hs with }, hstored⟩
  | @startSave _ _ _ _ previous hrun _ _ _ hdoc =>
    have hprev := hs.doc_idle hrun hdoc
    refine ⟨{ hs with
      doc := fun o ho => .inl (hs.doc_idle hrun ho)
      running := ?_
      accepted := by rintro r ⟨⟩ ⟨⟩ }, hstored⟩
    rintro r ⟨⟩
    refine ⟨hprev, pending _ hprev, fun replay hreplay => ?_⟩
    obtain ⟨persisted, hpersisted, hmake⟩ := Option.bind_eq_some_iff.mp hreplay
    exact ⟨persisted, hs.persisted _ hpersisted, hmake⟩
  | @startMutate _ _ _ χ _ previous hrun _ _ _ hdoc =>
    have hprev := hs.doc_idle hrun hdoc
    refine ⟨{ hs with
      doc := ?_
      running := ?_
      accepted := by rintro r ⟨⟩ ⟨⟩ }, hstored⟩
    · rintro o ⟨⟩
      exact .inr ⟨_, _, rfl, rfl, rfl⟩
    · rintro r ⟨⟩
      refine ⟨hprev, ?_, fun replay hreplay => ⟨previous.val, hprev, hreplay⟩⟩
      rw [Task.document, χ.val_object]
      exact .change (.inr rfl) (pending _ hprev)
  | @startUnsaved _ _ _ χ _ previous hrun _ _ _ hdoc =>
    have hprev := hs.doc_idle hrun hdoc
    refine ⟨hs.settle hrun (fun o ho => ?_) rfl rfl rfl, hstored⟩
    obtain ⟨⟩ := ho
    rw [χ.val_object]
    exact .change (hevs _ (.head _) _ rfl) hprev
  | @startRekey _ _ _ args _ previous document hrun _ _ _ hdoc hbuild =>
    have hprev := hs.doc_idle hrun hdoc
    refine ⟨{ hs with
      doc := fun o ho => .inl (hs.doc_idle hrun ho)
      running := ?_
      accepted := by rintro r ⟨⟩ ⟨⟩ }, hstored⟩
    rintro r ⟨⟩
    exact ⟨hprev, .rekey (.inr rfl) (pending _ hprev) hbuild⟩
  | next hrun hnext =>
    exact ⟨hs.proceed hrun rfl (fun _ => id) hnext.cont_eq (hs.next hrun hstored hnext)
      (fun hacc => absurd hacc hnext.not_accepted_next) hs.blob hs.persisted rfl, hstored⟩
  | @commit _ r request k hrun hpc =>
    have hprov := hs.running r hrun
    have hwf := hwf' r hrun
    rw [hpc] at hprov hwf
    have hop : applied' r.op := hevs _ (.head _) _ rfl
    refine ⟨hs.proceed hrun rfl (fun _ => id) (by rw [hpc]; rfl) hprov (fun _ => hop) hs.blob
      hs.persisted rfl, fun b hb => ?_⟩
    obtain ⟨⟩ := hb
    exact hwf.2 ▸ settled hop hprov.1.target
  | wipe hrun hpc =>
    refine ⟨hs.proceed hrun rfl (fun _ => id) (by rw [hpc]; rfl) trivial (by rintro ⟨⟩) hs.blob
      hs.persisted rfl, by rintro _ ⟨⟩⟩
  | @savedClosed _ _ r request k hrun hpc =>
    have hprov := hs.running r hrun
    have hop := hs.accepted r hrun
    rw [hpc] at hprov hop
    exact ⟨hs.proceed hrun rfl (fun _ => id) (by rw [hpc]; rfl) hprov.1 (fun _ => hop .answered)
      hs.blob hs.persisted rfl, hstored⟩
  | @saved _ _ r request k hrun hpc =>
    have hprov := hs.running r hrun
    have hop := hs.accepted r hrun
    have hwf := hwf' r hrun
    rw [hpc] at hprov hop hwf
    refine ⟨hs.proceed hrun rfl (fun _ => id) (by rw [hpc]; rfl) hprov.1 (fun _ => hop .answered)
      (fun b hb => ?_) (fun d hd => settled (hop .answered) (hprov.2 d hd)) rfl, hstored⟩
    obtain ⟨⟩ := hb
    exact hwf.2 ▸ settled (hop .answered) hprov.1.target
  | @fail _ r k err hrun hpc =>
    have hk := hs.failing hrun hpc
    refine ⟨hs.settle rfl (fun o ho => ?_) (by simp [Handle.fail]) (by simp [Handle.fail])
      (by simp [Handle.fail]), hstored⟩
    obtain ⟨hdoc, hown⟩ | ⟨document, result, hk'⟩ := Cont.doc_rollback ho
    · refine (hs.doc o hdoc).resolve_right ?_
      rintro ⟨r', k', hr', hk', hown'⟩
      obtain rfl := some.inj (hrun.symm.trans hr')
      obtain rfl := some.inj (hpc.cont_eq.symm.trans hk')
      exact hown hown'
    · rcases hk' with ⟨replay, rfl⟩ | ⟨retried, rfl⟩
      · exact hk.1
      · exact hk.1
  | closing hrun hpc =>
    exact ⟨hs.proceed hrun rfl (by rintro _ ⟨⟩) hpc.cont_eq.symm ⟨hs.closing hrun hpc, by simp⟩
      (by rintro ⟨⟩) (by rintro _ ⟨⟩) (by rintro _ ⟨⟩) rfl, hstored⟩
  | @reloaded _ _ r blob document k hrun hpc =>
    have hprov := hs.running r hrun
    have hwf := hwf' r hrun
    rw [hpc] at hprov hwf
    obtain rfl := hwf.2 _ rfl
    refine ⟨{ hs with
      doc := fun o ho => .inl (some.inj ho ▸ hprov.2)
      blob := fun b hb => some.inj hb ▸ hprov.2
      persisted := fun d hd => some.inj hd ▸ hprov.2
      running := ?_
      accepted := by rintro r ⟨⟩ ⟨⟩ }, hstored⟩
    rintro r ⟨⟩
    exact ⟨hprov.1, fun d hd => some.inj hd ▸ hprov.2⟩
  | @retry _ _ r task replay document merged hrun hpc happly =>
    have hprov := hs.running r hrun
    rw [hpc] at hprov
    obtain ⟨⟨hbefore, hdocument, hreplay⟩, hrel⟩ := hprov
    obtain ⟨persisted, hpersisted, hmake⟩ := hreplay replay rfl
    refine ⟨{ hs with
      doc := fun o ho => (hs.doc o ho).imp_right ?_
      running := ?_
      accepted := by rintro r ⟨⟩ ⟨⟩ }, hstored⟩
    · rintro ⟨r', k', hr', hk', hown⟩
      obtain rfl := some.inj (hrun.symm.trans hr')
      rw [hpc] at hk'
      obtain ⟨⟩ := hk'
      refine ⟨_, _, rfl, rfl, ?_⟩
      cases task with
      | save document => exact hown
      | mutate previous document result => exact hown
    · rintro r ⟨⟩
      exact ⟨hbefore, hdocument,
        .merge (pending _ hpersisted) hdocument (pending _ (hrel document rfl)) hmake happly⟩
  | @resolveFirst _ _ r task replay hrun hpc | @resolveRetryClosed _ _ r task retried hrun hpc
  | @rekeyMissed _ _ r previous next nextKey hrun hpc =>
    have hprov := hs.running r hrun
    rw [hpc] at hprov
    have hop : applied' r.op := hevs _ (.head _) _ rfl
    exact ⟨hs.settle rfl (fun o ho => settled hop (hs.doc_running hrun (congrArg Pc.cont hpc) hprov ho))
      rfl rfl rfl, hstored⟩
  | @resolveRetry _ _ r task retried hrun hpc =>
    have hprov := hs.running r hrun
    rw [hpc] at hprov
    have hop : applied' r.op := hevs _ (.head _) _ rfl
    refine ⟨hs.settle rfl (fun o ho => ?_) rfl rfl rfl, hstored⟩
    exact some.inj ho ▸ settled hop hprov.2.2
  | @rekeySwitch _ _ r previous next nextKey hrun hpc =>
    have hprov := hs.running r hrun
    rw [hpc] at hprov
    have hop : applied' r.op := hevs _ (.head _) _ rfl
    refine ⟨hs.settle rfl (fun o ho => ?_) rfl rfl rfl, hstored⟩
    exact some.inj ho ▸ settled hop hprov.2
  | clearDone =>
    exact ⟨{ hs with
      doc := by rintro _ ⟨⟩
      blob := by rintro _ ⟨⟩
      persisted := by rintro _ ⟨⟩
      running := by rintro _ ⟨⟩
      accepted := by rintro _ ⟨⟩ }, hstored⟩
  | clearFailed hrun hpc =>
    refine ⟨hs.settle rfl (fun o ho => ?_) rfl rfl rfl, hstored⟩
    refine (hs.doc o ho).resolve_right ?_
    rintro ⟨r', k', hr', hk', -⟩
    obtain rfl := some.inj (hrun.symm.trans hr')
    rw [hpc] at hk'
    cases hk'

end Handle.Provenance

/-! ### Every run -/

/-- The backend has accepted the write of the call, or the call has resolved. -/
def World.Landed (w : World κ ν) (h call : ℕ) (op : Op κ ν) : Prop :=
  (∃ before blob, (h, .committed call op before blob) ∈ w.log) ∨
    ∃ result, (h, .resolved call op result) ∈ w.log

/-- The operations of the calls that have landed. -/
def World.Applied (w : World κ ν) (op : Op κ ν) : Prop := ∃ h call, w.Landed h call op

/-- The document of a stored blob. -/
def InBlob (stored : Option (SealedBlob κ ν)) (d : VaultDocument ν) : Prop :=
  ∃ blob, stored = some blob ∧ blob.document = d

/-- Every document in the world is derived from the landed operations. -/
structure World.Provenance (base : VaultDocument ν → Prop) (w : World κ ν) : Prop where
  handles : ∀ h, (w.handles h).Provenance base w.Applied
  stored : ∀ b, w.stored = some b → Derived base w.Applied b.document

theorem World.provenance_fresh (key : ℕ → κ) (stored : Option (SealedBlob κ ν)) :
    (World.fresh key stored).Provenance (InBlob stored) where
  handles h :=
    { doc := by rintro _ ⟨⟩
      blob := by rintro _ ⟨⟩
      persisted := by rintro _ ⟨⟩
      opening := by rintro _ ⟨⟩
      running := by rintro _ ⟨⟩
      accepted := by rintro _ ⟨⟩ }
  stored b hb := .base ⟨b, hb, rfl⟩

theorem World.Provenance.step [DecidableEq β] {w w' : World κ ν} {a : ℕ × Act κ ν}
    (hw : w.Provenance base) (hsound : w.Sound) (hstep : w.step aead schema a = some w') :
    w'.Provenance base := by
  obtain ⟨o, hmove, hstored, hhandles, hlog⟩ := World.move_of_step hstep
  have hmono : ∀ op, w.Applied op → w'.Applied op := by
    rintro op ⟨h, call, ⟨before, blob, hmem⟩ | ⟨result, hmem⟩⟩
    · exact ⟨h, call, .inl ⟨before, blob, hlog ▸ List.mem_append_right _ hmem⟩⟩
    · exact ⟨h, call, .inr ⟨result, hlog ▸ List.mem_append_right _ hmem⟩⟩
  have hevs : ∀ ev ∈ o.log, ∀ op, ev.Applies op → w'.Applied op := by
    intro ev hev op hop
    have hmem : (a.1, ev) ∈ w'.log := hlog ▸ List.mem_append_left _ (List.mem_map_of_mem hev)
    cases ev with
    | committed call op' before blob => exact hop ▸ ⟨a.1, call, .inl ⟨before, blob, hmem⟩⟩
    | resolved call op' result => exact hop ▸ ⟨a.1, call, .inr ⟨result, hmem⟩⟩
    | _ => exact hop.elim
  obtain ⟨hhandle, hstored'⟩ :=
    (hw.handles a.1).move (hsound a.1).wellFormed hw.stored hmono hevs hmove
  refine ⟨fun h => ?_, hstored ▸ hstored'⟩
  rw [hhandles]
  by_cases hh : h = a.1
  · subst hh
    simpa using hhandle
  · simpa [hh] using (hw.handles h).mono hmono

theorem World.provenance_of_run [DecidableEq β] {key : ℕ → κ} {stored : Option (SealedBlob κ ν)}
    {as : List (ℕ × Act κ ν)} {w : World κ ν}
    (hrun : Transition.run (World.step aead schema) (World.fresh key stored) as = some w) :
    w.Provenance (InBlob stored) :=
  (Transition.run_invariant (I := fun w => w.Sound ∧ w.Provenance (InBlob stored))
    (fun _ _ _ hs hstep => ⟨hs.1.step hstep, hs.2.step hs.1 hstep⟩)
    ⟨World.sound_fresh key stored, World.provenance_fresh key stored⟩ hrun).2

end XchainWallet
