import XchainWallet.Vault.Origin

/-!
# The document in place while a write runs

While a write is suspended on a handle that keeps its key, the handle's document is known:
it is the object that the write put there, or the one that its reload installed. This is
`Handle.Tracked`. A reloaded document is a new object (`Handle.Referenced`), so the identity
test in the `catch` of `_mutate` never takes a reload back.
-/

namespace XchainWallet

variable {κ ν β : Type} {aead : Aead κ (ParsedDocument ν) β} {schema : Schema ν}

/-! ### Document references -/

/-- The references of the documents that a task holds. -/
def Task.refs : Task ν → List ℕ
  | save document => [document.ref]
  | mutate previous document _ => [previous.ref, document.ref]

/-- The references of the documents that a continuation holds. -/
def Cont.refs : Cont κ ν → List ℕ
  | first task _ => task.refs
  | retry task retried => retried.ref :: task.refs
  | rekey previous next _ => [previous.ref, next.ref]

/-- Every document object of the handle was made before the next reference. -/
structure Handle.Referenced (s : Handle κ ν) : Prop where
  doc : ∀ o, s.doc = some o → o.ref < s.nextRef
  cont : ∀ r, s.running = some r → ∀ k, r.pc.cont = some k → ∀ x ∈ k.refs, x < s.nextRef

variable [DecidableEq ν]

omit [DecidableEq ν] in
theorem Change.ref_object_lt (χ : Change ν) {ref : ℕ} {previous : DocObj ν}
    (h : previous.ref < ref) : (χ.object ref previous).ref < ref + 1 := by
  rw [object]
  split
  · exact Nat.lt_succ_self ref
  · exact Nat.lt_succ_of_lt h

namespace Handle.Referenced

variable {s s' : Handle κ ν} {stored : Option (SealedBlob κ ν)}

omit [DecidableEq ν] in
/-- The references that were there stay below the next one. -/
private theorem keep (hs : s.Referenced) (hnext : s.nextRef ≤ s'.nextRef)
    (hdoc : ∀ o, s'.doc = some o → s.doc = some o ∨ o.ref < s'.nextRef)
    (hcont : ∀ r, s'.running = some r → ∀ k, r.pc.cont = some k →
      (∃ r' k', s.running = some r' ∧ r'.pc.cont = some k' ∧ k.refs ⊆ k'.refs) ∨
        ∀ x ∈ k.refs, x < s'.nextRef) : s'.Referenced := by
  refine ⟨fun o ho => ?_, fun r hr k hk x hx => ?_⟩
  · rcases hdoc o ho with h | h
    · exact lt_of_lt_of_le (hs.doc o h) hnext
    · exact h
  · rcases hcont r hr k hk with ⟨r', k', hr', hk', hsub⟩ | h
    · exact lt_of_lt_of_le (hs.cont r' hr' k' hk' x (hsub hx)) hnext
    · exact h x hx

omit [DecidableEq ν] in
/-- The running write moves on with the same continuation. -/
private theorem proceed (hs : s.Referenced) {r : Running κ ν} {pc : Pc κ ν}
    (hrun : s.running = some r) (hrun' : s'.running = some { r with pc := pc })
    (hcont : ∀ k, pc.cont = some k → r.pc.cont = some k) (hnext : s.nextRef ≤ s'.nextRef)
    (hdoc : ∀ o, s'.doc = some o → s.doc = some o ∨ o.ref < s'.nextRef) : s'.Referenced := by
  refine hs.keep hnext hdoc fun r' hr' k hk => .inl ⟨r, k, hrun, ?_, List.Subset.refl _⟩
  obtain rfl := Option.some.inj (hrun'.symm.trans hr')
  exact hcont k hk

omit [DecidableEq ν] in
/-- Nothing is running any more. -/
private theorem settle (hs : s.Referenced) (hrun' : s'.running = none)
    (hnext : s.nextRef ≤ s'.nextRef)
    (hdoc : ∀ o, s'.doc = some o → s.doc = some o ∨ o.ref < s'.nextRef) : s'.Referenced :=
  hs.keep hnext hdoc fun r hr => by simp [hrun'] at hr

theorem move {act : Act κ ν} {o : Outcome κ ν} (hs : s.Referenced)
    (hmove : Move aead schema s stored act o) : o.handle.Referenced := by
  cases hmove with
  | idle => exact hs
  | beginOpen | openLoaded | openFailed | openDecode => exact ⟨hs.doc, hs.cont⟩
  | openEmpty | openDecoded =>
    refine hs.keep (Nat.le_succ _) (fun o ho => ?_) fun r hr k hk =>
      .inl ⟨r, k, hr, hk, List.Subset.refl _⟩
    exact .inr (Option.some.inj ho ▸ Nat.lt_succ_self _)
  | called => exact ⟨hs.doc, hs.cont⟩
  | close => exact ⟨by simp [Handle.close], hs.cont⟩
  | setAutoSave => exact ⟨hs.doc, hs.cont⟩
  | startClear => exact hs.keep le_rfl (fun o => .inl) (by rintro _ ⟨⟩; simp [Pc.cont])
  | startRejected hrun => exact hs.settle hrun le_rfl fun o => .inl
  | startSave _ _ _ _ hdoc =>
    refine hs.keep le_rfl (fun o => .inl) fun r hr k hk => .inr ?_
    obtain ⟨⟩ := hr
    obtain ⟨⟩ := hk
    simpa [Cont.refs, Task.refs] using hs.doc _ hdoc
  | @startMutate _ _ _ χ _ previous _ _ _ _ hdoc =>
    have hlt := hs.doc _ hdoc
    refine hs.keep (Nat.le_succ _) (fun o ho => ?_) fun r hr k hk => .inr ?_
    · exact .inr (Option.some.inj ho ▸ χ.ref_object_lt hlt)
    · obtain ⟨⟩ := hr
      obtain ⟨⟩ := hk
      simpa [Cont.refs, Task.refs] using ⟨Nat.lt_succ_of_lt hlt, χ.ref_object_lt hlt⟩
  | @startUnsaved _ _ _ χ _ previous hrun _ _ _ hdoc =>
    refine hs.settle hrun (Nat.le_succ _) fun o ho => .inr ?_
    exact Option.some.inj ho ▸ χ.ref_object_lt (hs.doc _ hdoc)
  | startRekey _ _ _ _ hdoc =>
    refine hs.keep (Nat.le_succ _) (fun o => .inl) fun r hr k hk => .inr ?_
    obtain ⟨⟩ := hr
    obtain ⟨⟩ := hk
    simpa [Cont.refs] using Nat.lt_succ_of_lt (hs.doc _ hdoc)
  | next hrun hnext =>
    exact hs.proceed hrun rfl (fun k hk => hnext.cont_eq ▸ hk) le_rfl fun o => .inl
  | commit hrun hpc | savedClosed hrun hpc | saved hrun hpc =>
    exact hs.proceed hrun rfl (fun k hk => by rwa [hpc]) le_rfl fun o => .inl
  | wipe hrun => exact hs.proceed hrun rfl (by simp [Pc.cont]) le_rfl fun o => .inl
  | @fail act r k err hrun hpc =>
    refine hs.settle rfl (by simp [Handle.fail]) fun o ho => ?_
    obtain h | ⟨previous, document, result, hk, -, h⟩ := k.rollback_cases s
    · exact .inl (by simpa [Handle.fail, h] using ho)
    · refine .inr ?_
      have ho' : previous = o := by simpa [Handle.fail, h] using ho
      have hlt : ∀ x ∈ k.refs, x < s.nextRef := hs.cont r hrun k hpc.cont_eq
      have hmem : o.ref ∈ k.refs := by
        rcases hk with ⟨replay, rfl⟩ | ⟨retried, rfl⟩ <;> simp [Cont.refs, Task.refs, ho']
      simpa [Handle.fail] using hlt _ hmem
  | closing hrun hpc =>
    exact hs.proceed hrun rfl (fun k hk => hpc.cont_eq.trans hk) le_rfl
      (by simp [Handle.close, suspend])
  | reloaded hrun hpc =>
    refine hs.proceed hrun rfl (fun k hk => by rwa [hpc]) (Nat.le_succ _) fun o ho => .inr ?_
    exact Option.some.inj ho ▸ Nat.lt_succ_self _
  | @retry _ _ r task replay document merged hrun hpc =>
    refine hs.keep (Nat.le_succ _) (fun o => .inl) fun r' hr' k hk => .inr ?_
    obtain ⟨⟩ := hr'
    obtain ⟨⟩ := hk
    have hlt : ∀ x ∈ task.refs, x < s.nextRef :=
      hs.cont r hrun (.first task (some replay)) (by rw [hpc]; rfl)
    intro x hx
    rcases List.mem_cons.mp hx with rfl | hx
    · exact Nat.lt_succ_self _
    · exact Nat.lt_succ_of_lt (hlt x hx)
  | resolveFirst | resolveRetryClosed | rekeyMissed | clearFailed =>
    exact hs.settle rfl le_rfl fun o => .inl
  | @resolveRetry _ _ r task retried hrun hpc =>
    refine hs.settle rfl le_rfl fun o ho => .inr ?_
    obtain ⟨⟩ := ho
    exact hs.cont r hrun (.retry task retried) (by rw [hpc]; rfl) _ List.mem_cons_self
  | @rekeySwitch _ _ r previous next nextKey hrun hpc =>
    refine hs.settle rfl le_rfl fun o ho => .inr ?_
    obtain ⟨⟩ := ho
    exact hs.cont r hrun (.rekey previous next nextKey) (by rw [hpc]; rfl) _ (by simp [Cont.refs])
  | clearDone => exact hs.settle rfl le_rfl (by simp)

end Handle.Referenced

/-! ### The document in place -/

/-- The document in place is the one that this call reloaded. -/
def Handle.Reloaded (s : Handle κ ν) (log : List (Event κ ν)) (call : ℕ) : Prop :=
  ∃ o blob, s.doc = some o ∧ .reloaded call blob ∈ log ∧ blob.document = o.val

/-- The document in place is none of the continuation's. -/
def Cont.Detached (s : Handle κ ν) (k : Cont κ ν) : Prop := ∀ o, s.doc = some o → o.ref ∉ k.refs

/-- The document in place, as the continuation knows it. -/
def Cont.Current (s : Handle κ ν) (log : List (Event κ ν)) (call : ℕ) : Cont κ ν → Prop
  | first task _ => s.doc = some task.document
  | retry task retried => s.Reloaded log call ∧ (retry task retried : Cont κ ν).Detached s
  | rekey previous _ _ => s.doc = some previous

/-- The document in place at an `await`. -/
def Pc.Tracked (s : Handle κ ν) (log : List (Event κ ν)) (call : ℕ) : Pc κ ν → Prop
  | .encoding _ k => k.Current s log call
  | .saving _ k => k.Current s log call
  | .answered _ _ k => k.Current s log call
  | .stored k => k.Current s log call
  | .reloading k => k.Current s log call
  | .loaded _ k => k.Current s log call
  | .decoding _ _ k => k.Current s log call
  | .reloaded document k =>
    s.Reloaded log call ∧ k.Detached s ∧ s.doc.map DocObj.val = document
  | .clearing => True
  | .cleared _ => True

/-- While a handle keeps its key, the document in place is known. -/
def Handle.Tracked (s : Handle κ ν) (log : List (Event κ ν)) : Prop :=
  s.masterKey ≠ none → ∀ r, s.running = some r → r.pc.Tracked s log r.call

omit [DecidableEq ν] in
theorem Cont.Detached.rollback {s : Handle κ ν} {k : Cont κ ν} (h : k.Detached s) :
    k.rollback s = s := by
  obtain hk | ⟨previous, document, result, hk, href, -⟩ := k.rollback_cases s
  · exact hk
  · obtain ⟨o, ho, href⟩ := Option.map_eq_some_iff.mp href
    refine absurd ?_ (h o ho)
    rcases hk with ⟨replay, rfl⟩ | ⟨retried, rfl⟩ <;> simp [Cont.refs, Task.refs, href]

section Tracked

variable {s s' : Handle κ ν} {stored : Option (SealedBlob κ ν)} {log log' : List (Event κ ν)}

omit [DecidableEq ν] in
private theorem Cont.Current.congr {call : ℕ} {k : Cont κ ν} (h : k.Current s log call)
    (hdoc : s'.doc = s.doc) (hlog : log ⊆ log') : k.Current s' log' call := by
  cases k with
  | first task replay | rekey previous next nextKey => exact hdoc.trans h
  | retry task retried =>
    obtain ⟨⟨o, blob, ho, hmem, hval⟩, hdet⟩ := h
    exact ⟨⟨o, blob, hdoc.trans ho, hlog hmem, hval⟩, fun o ho => hdet o (hdoc ▸ ho)⟩

omit [DecidableEq ν] in
private theorem Pc.Tracked.congr {call : ℕ} {pc : Pc κ ν} (h : pc.Tracked s log call)
    (hdoc : s'.doc = s.doc) (hlog : log ⊆ log') : pc.Tracked s' log' call := by
  cases pc with
  | reloaded document k =>
    obtain ⟨⟨o, blob, ho, hmem, hval⟩, hdet, hmap⟩ := h
    exact ⟨⟨o, blob, hdoc.trans ho, hlog hmem, hval⟩, fun o ho => hdet o (hdoc ▸ ho), hdoc ▸ hmap⟩
  | clearing | cleared answer => trivial
  | _ => exact Cont.Current.congr h hdoc hlog

omit [DecidableEq ν] in
private theorem Pc.Tracked.next {call : ℕ} {pc pc' : Pc κ ν} (h : pc.Tracked s log call)
    (hkey : s.masterKey ≠ none) (hnext : Pc.Next aead s stored pc pc') :
    pc'.Tracked s log call := by
  cases hnext with
  | skipReload hnone | skipLoaded hnone | skipDecoded hnone => exact absurd hnone hkey
  | clearFault => trivial
  | _ => exact h

private theorem Pc.WellFormed.cont_eq_none {pc : Pc κ ν} (h : pc.WellFormed .clear) :
    pc.cont = none := by
  have hfrom : ∀ {k : Cont κ ν}, ¬k.From .clear := by
    rintro k (⟨⟨⟩, -⟩ | ⟨⟨⟩⟩)
  cases pc with
  | clearing | cleared answer => rfl
  | encoding encoded k | saving request k | answered answer request k | decoding blob decoded k =>
    exact absurd h.1 hfrom
  | stored k | reloading k | loaded answer k | reloaded document k => exact absurd h hfrom

omit [DecidableEq ν] in
private theorem Pc.tracked_of_cont_eq_none {call : ℕ} {pc : Pc κ ν} (h : pc.cont = none) :
    pc.Tracked s log call := by
  cases pc <;> trivial

/-- An `open` that finishes while a write runs on an unlocked handle finds a `clear`. -/
theorem Handle.WellFormed.cont_of_opening (hs : s.WellFormed) (hkey : s.masterKey ≠ none)
    (hopening : s.opening ≠ none) {r : Running κ ν} (hr : s.running = some r) :
    r.pc.cont = none := by
  have hop : r.op = .clear := by
    by_contra hop
    exact hopening (hs.opening (hs.busy hkey r hr hop))
  exact Pc.WellFormed.cont_eq_none (hop ▸ hs.running r hr)

namespace Handle.Tracked

omit [DecidableEq ν] in
private theorem congr (hs : s.Tracked log) (hkey : s'.masterKey ≠ none → s.masterKey ≠ none)
    (hrun : s'.running = s.running) (hdoc : s'.doc = s.doc) (hlog : log ⊆ log') :
    s'.Tracked log' :=
  fun hkey' r hr => (hs (hkey hkey') r (hrun ▸ hr)).congr hdoc hlog

omit [DecidableEq ν] in
private theorem idle (hrun : s.running = none) : s.Tracked log :=
  fun _ r hr => by simp [hrun] at hr

omit [DecidableEq ν] in
private theorem locked (hkey : s.masterKey = none) : s.Tracked log :=
  fun h => absurd hkey h

omit [DecidableEq ν] in
/-- The running write goes on, and the document stays in place. -/
private theorem proceed (hs : s.Tracked log) {r : Running κ ν} {pc : Pc κ ν}
    (hrun : s.running = some r) (hrun' : s'.running = some { r with pc := pc })
    (hpc : s.masterKey ≠ none → r.pc.Tracked s log r.call → pc.Tracked s log r.call)
    (hkey : s'.masterKey = s.masterKey) (hdoc : s'.doc = s.doc) (hlog : log ⊆ log') :
    s'.Tracked log' := by
  intro hkey' r' hr'
  obtain rfl := Option.some.inj (hrun'.symm.trans hr')
  rw [hkey] at hkey'
  exact (hpc hkey' (hs hkey' r hrun)).congr hdoc hlog

/-- **The document in place stays known.** -/
theorem move {act : Act κ ν} {o : Outcome κ ν} (hs : s.Tracked log) (hwf : s.WellFormed)
    (href : s.Referenced) (hmove : Move aead schema s stored act o) :
    o.handle.Tracked (o.log ++ log) := by
  have hlog : log ⊆ o.log ++ log := List.subset_append_right _ _
  cases hmove with
  | idle | beginOpen | openLoaded | openFailed | openDecode | called | setAutoSave =>
    exact hs.congr id rfl rfl hlog
  | openEmpty hpc | openDecoded hpc =>
    exact fun hkey r hr =>
      Pc.tracked_of_cont_eq_none (hwf.cont_of_opening hkey (by simp [hpc]) hr)
  | close => exact locked rfl
  | startClear =>
    intro _ r hr
    obtain ⟨⟩ := hr
    trivial
  | startRejected hrun => exact idle hrun
  | startSave hrun hqueue hopened hkey hdoc | startRekey hrun hqueue hopened hkey hdoc =>
    intro _ r hr
    obtain ⟨⟩ := hr
    exact hdoc
  | startMutate =>
    intro _ r hr
    obtain ⟨⟩ := hr
    rfl
  | startUnsaved hrun => exact idle hrun
  | next hrun hnext => exact hs.proceed hrun rfl (fun hkey h => h.next hkey hnext) rfl rfl hlog
  | commit hrun hpc | saved hrun hpc =>
    exact hs.proceed hrun rfl (fun _ h => by rw [hpc] at h; exact h) rfl rfl hlog
  | wipe hrun hpc => exact hs.proceed hrun rfl (fun _ _ => trivial) rfl rfl hlog
  | savedClosed hrun hpc hkey => exact locked hkey
  | fail => exact idle rfl
  | closing => exact locked rfl
  | @reloaded _ _ r blob document k hrun hpc =>
    intro _ r' hr'
    obtain ⟨⟩ := hr'
    have hval : document = blob.document := by
      have h := hwf.running r hrun
      rw [hpc] at h
      exact h.2 _ rfl
    refine ⟨⟨_, blob, rfl, List.mem_cons_self, hval.symm⟩, fun o ho hmem => ?_, rfl⟩
    obtain ⟨⟩ := ho
    exact lt_irrefl _ (href.cont r hrun k (by rw [hpc]; rfl) _ hmem)
  | @retry _ _ r task replay document merged hrun hpc =>
    intro hkey r' hr'
    obtain ⟨⟩ := hr'
    have h := hs hkey r hrun
    rw [hpc] at h
    obtain ⟨hrel, hdet, -⟩ := h
    refine ⟨hrel, fun o ho hmem => ?_⟩
    rcases List.mem_cons.mp hmem with heq | hmem
    · exact absurd (href.doc o ho) (by simp [heq])
    · exact hdet o ho hmem
  | resolveFirst | resolveRetryClosed | resolveRetry | rekeyMissed | rekeySwitch | clearDone
  | clearFailed => exact idle rfl

end Handle.Tracked

/-! ### Every run -/

/-- The invariants that hold of a handle whatever happens. -/
structure Handle.Sound (s : Handle κ ν) (log : List (Event κ ν)) : Prop where
  wellFormed : s.WellFormed
  referenced : s.Referenced
  ordered : s.Ordered log
  tracked : s.Tracked log

theorem Handle.Sound.move {act : Act κ ν} {o : Outcome κ ν} (hs : s.Sound log)
    (hmove : Move aead schema s stored act o) : o.handle.Sound (o.log ++ log) :=
  { wellFormed := hs.wellFormed.move hmove
    referenced := hs.referenced.move hmove
    ordered := hs.ordered.move hmove
    tracked := hs.tracked.move hs.wellFormed hs.referenced hmove }

theorem Handle.sound_fresh (key : κ) : Handle.Sound ({ masterKey := some key } : Handle κ ν) [] :=
  { wellFormed := ⟨fun _ => rfl, by simp, by simp, by simp⟩
    referenced := ⟨by simp, by simp⟩
    ordered :=
      { pending := List.pairwise_singleton _ _
        resolved := by simp
        rejected := by simp
        committed := by simp
        resolved_or_rejected := by simp
        committed_or_rejected := by simp
        began := by simp }
    tracked := fun _ r hr => by simp at hr }

/-- The invariants of every handle. -/
def World.Sound (w : World κ ν) : Prop := ∀ h, (w.handles h).Sound (w.events h)

theorem World.sound_fresh (key : ℕ → κ) (stored : Option (SealedBlob κ ν)) :
    (World.fresh key stored).Sound := fun h => Handle.sound_fresh (key h)

theorem World.Sound.step [DecidableEq β] {w w' : World κ ν} {a : ℕ × Act κ ν} (hw : w.Sound)
    (hstep : w.step aead schema a = some w') : w'.Sound := fun h =>
  World.forall_handles_step (I := Handle.Sound) (fun _ ho hs => hs.move ho) hw hstep h

theorem World.sound_of_run [DecidableEq β] {key : ℕ → κ} {stored : Option (SealedBlob κ ν)}
    {as : List (ℕ × Act κ ν)} {w : World κ ν}
    (hrun : Transition.run (World.step aead schema) (World.fresh key stored) as = some w) :
    w.Sound :=
  Transition.run_invariant (fun _ _ _ hs hstep => hs.step hstep) (World.sound_fresh key stored) hrun

end Tracked

end XchainWallet
