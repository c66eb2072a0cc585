import XchainWallet.Vault.Moves

/-!
# Where a running write comes from

Two invariants hold in every run, whatever the environment does. `Handle.WellFormed` says
that the variables of a suspended write are those that its operation computed: the documents
are the ones before and after the change, and a blob under way was made from the document
that is to be stored. `World.Ordered` says that the calls of a handle settle once, in the
order in which they were made, so a call that rejects was never committed.
-/

namespace XchainWallet

open Option (some.inj)
open List (mem_cons)

variable {κ ν β : Type} {aead : Aead κ (ParsedDocument ν) β} {schema : Schema ν}

/-! ### The variables of a write -/

section Variables

variable [DecidableEq ν]

/-- The task of an operation. -/
inductive Task.From : Op κ ν → Task ν → Prop
  | save {document} : From .save (.save document)
  | mutate {χ previous ref} :
    From (.mutate χ) (.mutate previous (χ.object ref previous) (χ.buildNext previous.val).result)

/-- The document that the task found. -/
def Task.before : Task ν → VaultDocument ν
  | save document => document.val
  | mutate previous _ _ => previous.val

/-- The document that `_saveNow` encodes for a task. -/
def Task.document : Task ν → DocObj ν
  | save document => document
  | mutate _ document _ => document

/-- The continuation of an operation. -/
inductive Cont.From : Op κ ν → Cont κ ν → Prop
  | first {op task replay} : task.From op →
    (∀ previous document result, task = .mutate previous document result →
      replay = makeConflictReplay previous.val document.val) →
    From op (.first task replay)
  | retry {op task retried} : task.From op → From op (.retry task retried)
  | rekey {args previous next} : args.build previous.val = .ok next.val →
    From (.rekey args) (.rekey previous next args.masterKey)

/-- The document that is to be stored. -/
def Cont.target : Cont κ ν → VaultDocument ν
  | first task _ => task.document.val
  | retry _ retried => retried.val
  | rekey _ next _ => next.val

/-- The variables that the write holds across its `await`. -/
def Pc.WellFormed (op : Op κ ν) : Pc κ ν → Prop
  | .encoding encoded k => k.From op ∧ ∀ blob, encoded = .ok blob → blob.document = k.target
  | .saving request k => k.From op ∧ request.blob.document = k.target
  | .answered _ request k => k.From op ∧ request.blob.document = k.target
  | .decoding blob decoded k => k.From op ∧ ∀ d, decoded = .ok d → d = blob.document
  | .stored k => k.From op
  | .reloading k => k.From op
  | .loaded _ k => k.From op
  | .reloaded _ k => k.From op
  | .clearing => op = .clear
  | .cleared _ => op = .clear

/-- The invariant of one handle. -/
structure Handle.WellFormed (s : Handle κ ν) : Prop where
  opening : s.opened = true → s.opening = none
  decoded : ∀ blob d, s.opening = some (.decoding blob (.ok d)) → d = blob.document
  running : ∀ r, s.running = some r → r.pc.WellFormed r.op
  busy : s.masterKey ≠ none → ∀ r, s.running = some r → r.op ≠ .clear → s.opened = true

omit [DecidableEq ν] in
theorem encode_eq_ok {masterKey : Option κ} {nonce : ℕ} {fault : Option String}
    {document : VaultDocument ν} {blob : SealedBlob κ ν}
    (h : encode masterKey nonce fault document = .ok blob) :
    masterKey = some blob.key ∧ blob.document = document := by
  cases fault with
  | some message => cases h
  | none =>
    rw [encode] at h
    cases henc : encodeDocument masterKey nonce document with
    | error err => simp [henc, Except.mapError] at h
    | ok blob' =>
      rw [henc] at h
      obtain rfl := Except.ok.inj h
      exact encodeDocument_eq_ok henc

private theorem Pc.WellFormed.next {s : Handle κ ν} {stored : Option (SealedBlob κ ν)}
    {op : Op κ ν} {pc pc' : Pc κ ν} (h : pc.WellFormed op) (hnext : Pc.Next aead s stored pc pc') :
    pc'.WellFormed op := by
  cases hnext with
  | send => exact ⟨h.1, h.2 _ rfl⟩
  | resend | refuse => exact h
  | reload | skipReload => exact h.1
  | loadFault | load | skipLoaded => exact h
  | decode => exact ⟨h, fun d hd => (decodeDocument_eq_ok hd).2⟩
  | skipDecoded => exact h.1
  | clearFault => exact h

private theorem Pc.Closing.from {op : Op κ ν} {k : Cont κ ν} {pc : Pc κ ν} (h : pc.WellFormed op)
    (hpc : Pc.Closing k pc) : k.From op := by
  cases hpc with
  | absent => exact h
  | sealed => exact h.1

namespace Handle.WellFormed

variable {s s' : Handle κ ν} {stored : Option (SealedBlob κ ν)}

/-- The write settles: what is left to check is the opening state. -/
private theorem settle (hs : s.WellFormed) (hrun : s'.running = none)
    (hopened : s'.opened = true → s.opened = true) (hopening : s'.opening = s.opening) :
    WellFormed s' :=
  ⟨fun h => hopening ▸ hs.opening (hopened h), hopening ▸ hs.decoded,
    fun r hr => by simp [hrun] at hr, fun _ r hr => by simp [hrun] at hr⟩

/-- The write goes on to an `await` with the variables of its operation. -/
private theorem advance (hs : s.WellFormed) {r : Running κ ν} {pc : Pc κ ν}
    (hrun : s.running = some r) (hrun' : s'.running = some { r with pc := pc })
    (hpc : pc.WellFormed r.op) (hopened : s'.opened = s.opened) (hopening : s'.opening = s.opening)
    (hkey : s'.masterKey = s.masterKey) : WellFormed s' := by
  refine ⟨hopened ▸ hopening ▸ hs.opening, hopening ▸ hs.decoded, fun r' hr' => ?_,
    fun hkey' r' hr' hop => ?_⟩
  · obtain rfl := some.inj (hrun'.symm.trans hr')
    exact hpc
  · obtain rfl := some.inj (hrun'.symm.trans hr')
    rw [hopened]
    exact hs.busy (hkey ▸ hkey') r hrun hop

/-- A write starts on an open handle. -/
private theorem launch (hs : s.WellFormed) {r : Running κ ν} (hrun' : s'.running = some r)
    (hpc : r.pc.WellFormed r.op) (hopened : s.opened = true) (hopened' : s'.opened = s.opened)
    (hopening : s'.opening = s.opening) : WellFormed s' := by
  refine ⟨hopened' ▸ hopening ▸ hs.opening, hopening ▸ hs.decoded, fun r' hr' => ?_,
    fun _ _ _ _ => hopened'.trans hopened⟩
  obtain rfl := some.inj (hrun'.symm.trans hr')
  exact hpc

/-- **The variables of a write stay those of its operation.** -/
theorem move {act : Act κ ν} {o : Outcome κ ν} (hs : s.WellFormed)
    (hmove : Move aead schema s stored act o) : o.handle.WellFormed := by
  have hwf := hs.running
  cases hmove with
  | idle => exact hs
  | beginOpen hopened => exact ⟨by simp [hopened], by simp, hs.running, hs.busy⟩
  | openLoaded hpc => exact ⟨fun h => by simp [hs.opening h] at hpc, by simp, hs.running, hs.busy⟩
  | openFailed hpc => exact ⟨fun _ => rfl, by simp, hs.running, hs.busy⟩
  | openDecode hpc =>
    refine ⟨fun h => by simp [hs.opening h] at hpc, fun blob d h => ?_, hs.running, hs.busy⟩
    simp only [Option.some.injEq, OpenPc.decoding.injEq] at h
    obtain ⟨rfl, hdec⟩ := h
    exact (decodeDocument_eq_ok hdec).2
  | openEmpty | openDecoded =>
    exact ⟨fun _ => rfl, by simp [finishOpen], hs.running, fun _ _ _ _ => rfl⟩
  | called | setAutoSave => exact ⟨hs.opening, hs.decoded, hs.running, hs.busy⟩
  | close =>
    exact ⟨by simp [Handle.close], hs.decoded, hs.running, fun h => absurd rfl h⟩
  | startClear =>
    refine ⟨hs.opening, hs.decoded, fun r hr => ?_, fun _ r hr hop => ?_⟩
    · exact some.inj hr ▸ rfl
    · exact absurd (some.inj hr ▸ rfl) hop
  | startRejected hrun => exact hs.settle hrun id rfl
  | startSave hrun hqueue hopened =>
    refine hs.launch rfl ⟨?_, fun blob hblob => (encode_eq_ok hblob).2⟩ hopened rfl rfl
    exact .first .save (by simp)
  | startMutate hrun hqueue hopened =>
    refine hs.launch rfl ⟨?_, fun blob hblob => (encode_eq_ok hblob).2⟩ hopened rfl rfl
    refine .first .mutate ?_
    rintro _ _ _ ⟨⟩
    rfl
  | startUnsaved hrun => exact hs.settle hrun id rfl
  | startRekey hrun hqueue hopened hkey hdoc hbuild =>
    refine hs.launch rfl ⟨?_, fun blob hblob => (encode_eq_ok hblob).2⟩ hopened rfl rfl
    exact .rekey hbuild
  | next hrun hnext => exact hs.advance hrun rfl ((hwf _ hrun).next hnext) rfl rfl rfl
  | commit hrun hpc | wipe hrun hpc =>
    have h := hwf _ hrun
    rw [hpc] at h
    exact hs.advance hrun rfl h rfl rfl rfl
  | savedClosed hrun hpc | saved hrun hpc | reloaded hrun hpc =>
    have h := hwf _ hrun
    rw [hpc] at h
    exact hs.advance hrun rfl h.1 rfl rfl rfl
  | fail => exact hs.settle rfl (by simp [Handle.fail]) (by simp [Handle.fail])
  | closing hrun hpc =>
    have h := hpc.from (hwf _ hrun)
    refine ⟨by simp [Handle.close, suspend], hs.decoded, fun r hr => ?_, fun h => absurd rfl h⟩
    obtain ⟨⟩ := hr
    exact h
  | @retry nonce fault r task replay document merged hrun hpc =>
    have h := hwf _ hrun
    rw [hpc] at h
    have htask : task.From r.op := by
      generalize r.op = op at h
      cases h with
      | first htask => exact htask
    exact hs.advance hrun rfl ⟨.retry htask, fun blob hblob => (encode_eq_ok hblob).2⟩ rfl rfl rfl
  | resolveFirst | resolveRetryClosed | resolveRetry | rekeyMissed | rekeySwitch =>
    exact hs.settle rfl id rfl
  | clearDone => exact hs.settle rfl (by simp) rfl
  | clearFailed => exact hs.settle rfl id rfl

end Handle.WellFormed

end Variables

/-! ### The order of calls -/

/-- The continuation of a write that has one. -/
def Pc.cont : Pc κ ν → Option (Cont κ ν)
  | .encoding _ k => some k
  | .saving _ k => some k
  | .answered _ _ k => some k
  | .stored k => some k
  | .reloading k => some k
  | .loaded _ k => some k
  | .decoding _ _ k => some k
  | .reloaded _ k => some k
  | .clearing => none
  | .cleared _ => none

/-- A continuation that a write holds is one of its operation. -/
theorem Pc.WellFormed.from [DecidableEq ν] {op : Op κ ν} {pc : Pc κ ν} (h : pc.WellFormed op)
    {k : Cont κ ν} (hk : pc.cont = some k) : k.From op := by
  cases pc with
  | clearing | cleared answer => cases hk
  | encoding encoded k' | saving request k' | answered answer request k'
  | decoding blob decoded k' => exact some.inj hk ▸ h.1
  | stored k' | reloading k' | loaded answer k' | reloaded document k' =>
    exact some.inj hk ▸ h

/-- The backend has accepted the write, whose call can now only resolve. -/
inductive Pc.Accepted : Pc κ ν → Prop
  | answered {request k} : Accepted (.answered (.ok ()) request k)
  | stored {k} : Accepted (.stored k)

theorem Pc.Next.cont_eq {s : Handle κ ν} {stored : Option (SealedBlob κ ν)} {pc pc' : Pc κ ν}
    (h : Pc.Next aead s stored pc pc') : pc'.cont = pc.cont := by
  cases h <;> rfl

theorem Pc.Next.not_accepted {s : Handle κ ν} {stored : Option (SealedBlob κ ν)}
    {pc pc' : Pc κ ν} (h : Pc.Next aead s stored pc pc') : ¬pc.Accepted := by
  cases h <;> rintro ⟨⟩

theorem Pc.Next.not_accepted_next {s : Handle κ ν} {stored : Option (SealedBlob κ ν)}
    {pc pc' : Pc κ ν} (h : Pc.Next aead s stored pc pc') : ¬pc'.Accepted := by
  cases h <;> rintro ⟨⟩

theorem Pc.Failing.cont_eq {k : Cont κ ν} {pc : Pc κ ν} (h : Pc.Failing k pc) :
    pc.cont = some k := by
  cases h <;> rfl

theorem Pc.Failing.not_accepted {k : Cont κ ν} {pc : Pc κ ν} (h : Pc.Failing k pc) :
    ¬pc.Accepted := by
  cases h <;> rintro ⟨⟩

theorem Pc.Closing.cont_eq {k : Cont κ ν} {pc : Pc κ ν} (h : Pc.Closing k pc) :
    pc.cont = some k := by
  cases h <;> rfl

theorem Pc.Closing.not_accepted {k : Cont κ ν} {pc : Pc κ ν} (h : Pc.Closing k pc) :
    ¬pc.Accepted := by
  cases h <;> rintro ⟨⟩

/-- The call numbers of a handle that are still to settle, and the next one to be given. -/
def Handle.pending (s : Handle κ ν) : List ℕ :=
  (s.running.map Running.call).toList ++ s.queue.map Prod.fst ++ [s.nextCall]

/-- The call came before everything that is still to settle. -/
def Handle.Past (s : Handle κ ν) (call : ℕ) : Prop := ∀ a ∈ s.pending, call < a

/-- The calls of a handle and what became known of them. -/
structure Handle.Ordered (s : Handle κ ν) (log : List (Event κ ν)) : Prop where
  pending : s.pending.Pairwise (· < ·)
  resolved : ∀ {call op result}, .resolved call op result ∈ log → s.Past call
  rejected : ∀ {call op err}, .rejected call op err ∈ log → s.Past call
  committed : ∀ {call op before blob}, .committed call op before blob ∈ log →
    s.Past call ∨ ∃ r, s.running = some r ∧ r.call = call ∧ r.pc.Accepted
  resolved_or_rejected : ∀ {call op result op' err},
    .resolved call op result ∈ log → .rejected call op' err ∉ log
  committed_or_rejected : ∀ {call op before blob op' err},
    .committed call op before blob ∈ log → .rejected call op' err ∉ log
  began : ∀ r, s.running = some r → ∀ k, r.pc.cont = some k → ∀ d, k.before = some d →
    .began r.call r.op (some d) ∈ log

/-- An event that settles no call and commits nothing. -/
def Event.Neutral : Event κ ν → Prop
  | .committed _ _ _ _ => False
  | .resolved _ _ _ => False
  | .rejected _ _ _ => False
  | _ => True

namespace Handle.Ordered

variable {s s' : Handle κ ν} {stored : Option (SealedBlob κ ν)} {log : List (Event κ ν)}

private theorem append (hs : s.Ordered log) {evs : List (Event κ ν)}
    (hevs : ∀ ev ∈ evs, ev.Neutral) : s.Ordered (evs ++ log) := by
  have hold : ∀ {ev : Event κ ν}, ev ∈ evs ++ log → ¬ev.Neutral → ev ∈ log := fun h hn =>
    (List.mem_append.mp h).resolve_left fun h => hn (hevs _ h)
  exact
    { pending := hs.pending
      resolved := fun h => hs.resolved (hold h id)
      rejected := fun h => hs.rejected (hold h id)
      committed := fun h => hs.committed (hold h id)
      resolved_or_rejected := fun h h' => hs.resolved_or_rejected (hold h id) (hold h' id)
      committed_or_rejected := fun h h' => hs.committed_or_rejected (hold h id) (hold h' id)
      began := fun r hr k hk d hd => List.mem_append_right _ (hs.began r hr k hk d hd) }

/-- The same calls are to settle, and the running write is the same one. -/
private theorem advance (hs : s.Ordered log) (hpending : s'.pending = s.pending)
    (haccepted : ∀ r, s.running = some r → r.pc.Accepted →
      ∃ r', s'.running = some r' ∧ r'.call = r.call ∧ r'.pc.Accepted)
    (hbegan : ∀ r, s'.running = some r → ∀ k, r.pc.cont = some k → ∀ d, k.before = some d →
      .began r.call r.op (some d) ∈ log) : s'.Ordered log := by
  have hpast : ∀ {call}, s.Past call → s'.Past call := fun h => by rwa [Past, hpending]
  refine { hs with
    pending := hpending ▸ hs.pending
    resolved := fun h => hpast (hs.resolved h)
    rejected := fun h => hpast (hs.rejected h)
    committed := fun h => ?_
    began := hbegan }
  obtain h | ⟨r, hr, rfl, hacc⟩ := hs.committed h
  · exact .inl (hpast h)
  · exact .inr (haccepted r hr hacc)

/-- The first call that is to settle settles, and nothing is running then. -/
private theorem settle (hs : s.Ordered log) {call : ℕ} (hpending : s.pending = call :: s'.pending)
    (hcall : ∀ r, s.running = some r → r.call = call) (hrun : s'.running = none) :
    s'.Ordered log ∧ s'.Past call := by
  have hsorted := hs.pending
  rw [hpending, List.pairwise_cons] at hsorted
  have hpast : ∀ {c}, s.Past c → s'.Past c := fun h a ha =>
    h a (hpending ▸ List.mem_cons_of_mem _ ha)
  refine ⟨{ hs with
    pending := hsorted.2
    resolved := fun h => hpast (hs.resolved h)
    rejected := fun h => hpast (hs.rejected h)
    committed := fun h => ?_
    began := fun r hr => by simp [hrun] at hr }, hsorted.1⟩
  obtain h | ⟨r, hr, rfl, -⟩ := hs.committed h
  · exact .inl (hpast h)
  · exact .inl fun a ha => hcall r hr ▸ hsorted.1 a ha

private theorem not_past {call : ℕ} (hpending : s.pending = call :: s'.pending) : ¬s.Past call := fun h =>
  absurd (h call (hpending ▸ (.head _))) (lt_irrefl _)

private theorem resolve (hs : s.Ordered log) {call : ℕ} {op : Op κ ν} {result : Option Bool}
    (hpending : s.pending = call :: s'.pending) (hcall : ∀ r, s.running = some r → r.call = call)
    (hrun : s'.running = none) : s'.Ordered (.resolved call op result :: log) := by
  obtain ⟨hs', hpast⟩ := hs.settle hpending hcall hrun
  have hnew : ∀ {op' err}, .rejected call op' err ∉ log := fun h =>
    not_past hpending (hs.rejected h)
  refine
    { pending := hs'.pending
      resolved := fun h => ?_
      rejected := fun h => hs'.rejected (by simpa using h)
      committed := fun h => hs'.committed (by simpa using h)
      resolved_or_rejected := fun h h' => ?_
      committed_or_rejected := fun h h' =>
        hs'.committed_or_rejected (by simpa using h) (by simpa using h')
      began := fun r hr => by simp [hrun] at hr }
  · rcases mem_cons.mp h with h | h
    · obtain ⟨rfl, -, -⟩ := Event.resolved.inj h
      exact hpast
    · exact hs'.resolved h
  · replace h' := (mem_cons.mp h').resolve_left (by simp)
    rcases mem_cons.mp h with h | h
    · obtain ⟨rfl, -, -⟩ := Event.resolved.inj h
      exact hnew h'
    · exact hs'.resolved_or_rejected h h'

private theorem reject (hs : s.Ordered log) {call : ℕ} {op : Op κ ν} {err : VaultError}
    (hpending : s.pending = call :: s'.pending) (hcall : ∀ r, s.running = some r → r.call = call)
    (haccepted : ∀ r, s.running = some r → ¬r.pc.Accepted) (hrun : s'.running = none) :
    s'.Ordered (.rejected call op err :: log) := by
  obtain ⟨hs', hpast⟩ := hs.settle hpending hcall hrun
  refine
    { pending := hs'.pending
      resolved := fun h => hs'.resolved (by simpa using h)
      rejected := fun h => ?_
      committed := fun h => hs'.committed (by simpa using h)
      resolved_or_rejected := fun h h' => ?_
      committed_or_rejected := fun h h' => ?_
      began := fun r hr => by simp [hrun] at hr }
  · rcases mem_cons.mp h with h | h
    · obtain ⟨rfl, -, -⟩ := Event.rejected.inj h
      exact hpast
    · exact hs'.rejected h
  · replace h := (mem_cons.mp h).resolve_left (by simp)
    rcases mem_cons.mp h' with h' | h'
    · obtain ⟨rfl, -, -⟩ := Event.rejected.inj h'
      exact not_past hpending (hs.resolved h)
    · exact hs'.resolved_or_rejected h h'
  · replace h := (mem_cons.mp h).resolve_left (by simp)
    rcases mem_cons.mp h' with h' | h'
    · obtain ⟨rfl, -, -⟩ := Event.rejected.inj h'
      -- the call that rejects is not past and its save was not accepted
      obtain h | ⟨r, hr, -, hacc⟩ := hs.committed h
      · exact not_past hpending h
      · exact haccepted r hr hacc
    · exact hs'.committed_or_rejected h h'

private theorem commit (hs : s.Ordered log) {r : Running κ ν} {request : SaveRequest κ ν}
    {k : Cont κ ν} {before : Option (VaultDocument ν)} {blob : SealedBlob κ ν}
    (hrun : s.running = some r) (hpc : r.pc = .saving request k) :
    (s.suspend r (.answered (.ok ()) request k)).Ordered
      (.committed r.call r.op before blob :: log) := by
  have hpending : s.pending = r.call :: (s.queue.map Prod.fst ++ [s.nextCall]) := by
    simp [Handle.pending, hrun]
  have hs' : (s.suspend r (.answered (.ok ()) request k)).Ordered log := by
    refine hs.advance (by simp [Handle.pending, suspend, hrun]) (fun r' hr' _ => ?_) fun r' hr' k' hk' => ?_
    · obtain rfl := some.inj (hrun.symm.trans hr')
      exact ⟨_, rfl, rfl, .answered⟩
    · obtain ⟨⟩ := hr'
      exact hs.began r hrun k' (hpc ▸ hk')
  have hfresh : ∀ {op' err}, .rejected r.call op' err ∉ log := fun h =>
    absurd (hs.rejected h r.call (hpending ▸ (.head _))) (lt_irrefl _)
  refine
    { pending := hs'.pending
      resolved := fun h => hs'.resolved (by simpa using h)
      rejected := fun h => hs'.rejected (by simpa using h)
      committed := fun h => ?_
      resolved_or_rejected := fun h h' =>
        hs'.resolved_or_rejected (by simpa using h) (by simpa using h')
      committed_or_rejected := fun h h' => ?_
      began := fun r' hr' k' hk' d hd => .tail _ (hs'.began r' hr' k' hk' d hd) }
  · rcases mem_cons.mp h with h | h
    · obtain ⟨rfl, -⟩ := Event.committed.inj h
      exact .inr ⟨_, rfl, rfl, .answered⟩
    · exact hs'.committed h
  · replace h' := (mem_cons.mp h').resolve_left (by simp)
    rcases mem_cons.mp h with h | h
    · obtain ⟨rfl, -⟩ := Event.committed.inj h
      exact hfresh h'
    · exact hs'.committed_or_rejected h h'

/-- The running write goes on with the same continuation, or with one that has the same
document before it. -/
private theorem proceed (hs : s.Ordered log) {r : Running κ ν} {pc : Pc κ ν}
    (hrun : s.running = some r) (hrun' : s'.running = some { r with pc := pc })
    (hqueue : s'.queue = s.queue) (hnext : s'.nextCall = s.nextCall)
    (haccepted : r.pc.Accepted → pc.Accepted)
    (hcont : ∀ k, pc.cont = some k → ∃ k', r.pc.cont = some k' ∧ k'.before = k.before) :
    s'.Ordered log := by
  refine hs.advance (by simp [Handle.pending, hrun, hrun', hqueue, hnext]) (fun r' hr' hacc => ?_)
    fun r' hr' k hk d hd => ?_
  · obtain rfl := some.inj (hrun.symm.trans hr')
    exact ⟨_, hrun', rfl, haccepted hacc⟩
  · obtain rfl := some.inj (hrun'.symm.trans hr')
    obtain ⟨k', hk', hbefore⟩ := hcont k hk
    exact hs.began r hrun k' hk' d (hbefore.trans hd)

/-- A queued operation starts and suspends for the first time. -/
private theorem launch (hs : s.Ordered log) {call : ℕ} {op : Op κ ν} {queue : List (ℕ × Op κ ν)}
    {pc : Pc κ ν} (hrun : s.running = none) (hqueue : s.queue = (call, op) :: queue)
    (hrun' : s'.running = some ⟨call, op, pc⟩) (hqueue' : s'.queue = queue)
    (hnext : s'.nextCall = s.nextCall)
    (hbefore : ∀ k, pc.cont = some k → ∀ d, k.before = some d → s.doc.map DocObj.val = some d) :
    s'.Ordered (.began call op (s.doc.map DocObj.val) :: log) := by
  have hs' : s.Ordered (.began call op (s.doc.map DocObj.val) :: log) :=
    hs.append (show ∀ ev ∈ [Event.began call op _], ev.Neutral by simp [Event.Neutral])
  refine hs'.advance (by simp [Handle.pending, hrun, hqueue, hrun', hqueue', hnext]) (by simp [hrun])
    fun r hr k hk d hd => ?_
  obtain rfl := some.inj (hrun'.symm.trans hr)
  rw [hbefore k hk d hd]
  exact (.head _)

private theorem pending_of_running {r : Running κ ν} (hrun : s.running = some r)
    (hrun' : s'.running = none) (hqueue : s'.queue = s.queue) (hnext : s'.nextCall = s.nextCall) :
    s.pending = r.call :: s'.pending := by
  simp [Handle.pending, hrun, hrun', hqueue, hnext]

private theorem pending_of_queue {call : ℕ} {op : Op κ ν} {queue : List (ℕ × Op κ ν)}
    (hrun : s.running = none) (hqueue : s.queue = (call, op) :: queue) (hrun' : s'.running = none)
    (hqueue' : s'.queue = queue) (hnext : s'.nextCall = s.nextCall) :
    s.pending = call :: s'.pending := by
  simp [Handle.pending, hrun, hrun', hqueue, hqueue', hnext]

/-- The running write resolves. -/
private theorem resolveRunning (hs : s.Ordered log) {r : Running κ ν} {result : Option Bool}
    (hrun : s.running = some r) (hrun' : s'.running = none) (hqueue : s'.queue = s.queue)
    (hnext : s'.nextCall = s.nextCall) : s'.Ordered (.resolved r.call r.op result :: log) :=
  hs.resolve (pending_of_running hrun hrun' hqueue hnext)
    (fun _ h => by rw [some.inj (hrun.symm.trans h)]) hrun'

/-- The running write rejects. -/
private theorem rejectRunning (hs : s.Ordered log) {r : Running κ ν} {err : VaultError}
    (hrun : s.running = some r) (haccepted : ¬r.pc.Accepted) (hrun' : s'.running = none)
    (hqueue : s'.queue = s.queue) (hnext : s'.nextCall = s.nextCall) :
    s'.Ordered (.rejected r.call r.op err :: log) :=
  hs.reject (pending_of_running hrun hrun' hqueue hnext)
    (fun _ h => by rw [some.inj (hrun.symm.trans h)])
    (fun _ h => by rwa [← some.inj (hrun.symm.trans h)]) hrun'

/-- A call takes the next number and its place at the end of the queue. -/
private theorem enqueue (hs : s.Ordered log) {op : Op κ ν} (hrun : s'.running = s.running)
    (hqueue : s'.queue = s.queue ++ [(s.nextCall, op)]) (hnext : s'.nextCall = s.nextCall + 1) :
    s'.Ordered log := by
  have hpending : s'.pending = s.pending ++ [s.nextCall + 1] := by
    simp [Handle.pending, hrun, hqueue, hnext]
  have hlast : s.nextCall ∈ s.pending := by simp [Handle.pending]
  have hle : ∀ a ∈ s.pending, a ≤ s.nextCall := fun a ha => by
    have hsorted := hs.pending
    rw [Handle.pending, List.pairwise_append] at hsorted
    rcases List.mem_append.mp ha with ha | ha
    · exact le_of_lt (hsorted.2.2 a ha _ (by simp))
    · exact le_of_eq (by simpa using ha)
  have hpast : ∀ {call}, s.Past call → s'.Past call := by
    intro call h a ha
    rw [hpending] at ha
    rcases List.mem_append.mp ha with ha | ha
    · exact h a ha
    · obtain rfl : a = s.nextCall + 1 := by simpa using ha
      exact Nat.lt_succ_of_lt (h _ hlast)
  refine { hs with
    pending := ?_
    resolved := fun h => hpast (hs.resolved h)
    rejected := fun h => hpast (hs.rejected h)
    committed := fun h => hrun ▸ (hs.committed h).imp_left hpast
    began := hrun ▸ hs.began }
  rw [hpending, List.pairwise_append]
  refine ⟨hs.pending, List.pairwise_singleton _ _, fun a ha b hb => ?_⟩
  obtain rfl : b = s.nextCall + 1 := by simpa using hb
  exact Nat.lt_succ_of_le (hle a ha)

variable [DecidableEq ν]

/-- **The calls of a handle settle once, in the order in which they were made.** -/
theorem move {act : Act κ ν} {o : Outcome κ ν} (hs : s.Ordered log)
    (hmove : Move aead schema s stored act o) : o.handle.Ordered (o.log ++ log) := by
  cases hmove with
  | idle hlog =>
    refine hs.append fun ev hev => ?_
    obtain rfl | ⟨err, rfl⟩ := hlog ev hev <;> trivial
  | beginOpen | openLoaded | openFailed | openDecode | openEmpty | openDecoded | close
  | setAutoSave => exact hs.advance rfl (fun r hr h => ⟨r, hr, rfl, h⟩) hs.began
  | called =>
    refine append ?_ (by simp [Event.Neutral])
    exact hs.enqueue rfl rfl rfl
  | startClear hrun hqueue => exact hs.launch hrun hqueue rfl rfl rfl (by simp [Pc.cont])
  | startRejected hrun hqueue =>
    refine (hs.append (show ∀ ev ∈ [Event.began _ _ _], ev.Neutral by simp [Event.Neutral])).reject
      (pending_of_queue hrun hqueue hrun rfl rfl) (by simp [hrun]) (by simp [hrun]) hrun
  | startSave hrun hqueue =>
    refine hs.launch hrun hqueue rfl rfl rfl ?_
    simp [Pc.cont, Cont.before]
  | startMutate hrun hqueue _ _ hdoc | startRekey hrun hqueue _ _ hdoc =>
    refine hs.launch hrun hqueue rfl rfl rfl ?_
    simp [Pc.cont, Cont.before, hdoc]
  | startUnsaved hrun hqueue =>
    refine (hs.append (show ∀ ev ∈ [Event.began _ _ _], ev.Neutral by simp [Event.Neutral])).resolve
      (pending_of_queue hrun hqueue hrun rfl rfl) (by simp [hrun]) hrun
  | next hrun hnext =>
    refine hs.proceed hrun rfl rfl rfl (fun h => absurd h hnext.not_accepted) fun k hk => ?_
    exact ⟨k, hnext.cont_eq ▸ hk, rfl⟩
  | commit hrun hpc => exact hs.commit hrun hpc
  | wipe hrun hpc =>
    refine append ?_ (by simp [Event.Neutral])
    exact hs.proceed hrun rfl rfl rfl (by simp [hpc]; rintro ⟨⟩) (by simp [Pc.cont])
  | savedClosed hrun hpc | saved hrun hpc =>
    refine hs.proceed hrun rfl rfl rfl (fun _ => .stored) fun k hk => ⟨k, ?_, rfl⟩
    rwa [hpc]
  | fail hrun hpc =>
    exact hs.rejectRunning hrun (hpc.not_accepted) rfl (by simp [Handle.fail])
      (by simp [Handle.fail])
  | closing hrun hpc =>
    refine hs.proceed hrun rfl rfl rfl (fun h => absurd h hpc.not_accepted) fun k hk => ?_
    exact ⟨k, hpc.cont_eq.trans hk, rfl⟩
  | reloaded hrun hpc =>
    refine append ?_ (by simp [Event.Neutral])
    refine hs.proceed hrun rfl rfl rfl (by simp [hpc]; rintro ⟨⟩) fun k hk => ⟨k, ?_, rfl⟩
    rwa [hpc]
  | @retry nonce fault r task replay document merged hrun hpc =>
    refine hs.proceed hrun rfl rfl rfl (by simp [hpc]; rintro ⟨⟩) fun k hk => ?_
    obtain ⟨⟩ := hk
    refine ⟨.first task (some replay), by rw [hpc]; rfl, ?_⟩
    cases task <;> rfl
  | resolveFirst hrun | resolveRetryClosed hrun | resolveRetry hrun | rekeyMissed hrun
  | rekeySwitch hrun | clearDone hrun => exact hs.resolveRunning hrun rfl rfl rfl
  | clearFailed hrun hpc =>
    refine hs.rejectRunning hrun ?_ rfl rfl rfl
    rw [hpc]
    rintro ⟨⟩

end Handle.Ordered

end XchainWallet
