import XchainWallet.Transition.Run
import XchainWallet.Vault.Handle

/-!
# The vault as a transition system

A `World` is one backend and any number of handles over it. An action names a handle and
what happens to it: a call, the backend settling a promise, or an `await` of the handle
resuming. Between any two `await`s of one handle the environment may do anything to it or to
the others, and it decides every failure: a `fault` makes an encode or a backend promise
reject. A save that the backend does not refuse is the compare-and-swap of `backend.js`.

The steps of a handle are written per action and return the events they cause. The log of
the world keeps these, newest first; nothing in the code reads it.
-/

namespace XchainWallet

/-- What a step of a handle makes known. `committed` carries the document before the write
and the blob that the backend accepted. -/
inductive Event (κ ν : Type)
  | refused (err : VaultError)
  | returned
  | called (call : ℕ) (op : Op κ ν)
  | began (call : ℕ) (op : Op κ ν) (document : Option (VaultDocument ν))
  | committed (call : ℕ) (op : Op κ ν) (before : Option (VaultDocument ν))
      (blob : SealedBlob κ ν)
  | wiped (call : ℕ)
  | reloaded (call : ℕ) (blob : SealedBlob κ ν)
  | resolved (call : ℕ) (op : Op κ ν) (result : Option Bool)
  | rejected (call : ℕ) (op : Op κ ν) (err : VaultError)

/-- An action on one handle, with the environment's choices. -/
inductive Act (κ ν : Type)
  | open
  | openAnswer (fault : Option BackendError)
  | openResume
  | call (request : Request κ ν)
  | start (nonce : ℕ) (fault : Option String)
  | backend (fault : Option BackendError)
  | resume (nonce : ℕ) (fault : Option String)
  | close
  | setAutoSave (enabled : Bool)

section Steps

variable {κ ν β : Type} [DecidableEq ν] [DecidableEq β]
variable (aead : Aead κ (ParsedDocument ν) β) (schema : Schema ν)

/-- The promise of `encodeDocument(masterKey, document)`. -/
def encode (masterKey : Option κ) (nonce : ℕ) (fault : Option String)
    (document : VaultDocument ν) : Except VaultError (SealedBlob κ ν) :=
  match fault with
  | some message => .error (.encode message)
  | none => (encodeDocument masterKey nonce document).mapError .codec

namespace Cont

/-- The document that the continuation hands to `_saveBlob`; the first attempt reads
`this._doc` again after the encode. -/
def document (s : Handle κ ν) : Cont κ ν → Option (VaultDocument ν)
  | first _ _ => s.doc.map DocObj.val
  | retry _ retried => some retried.val
  | rekey _ next _ => some next.val

/-- The document before the write. -/
def before : Cont κ ν → Option (VaultDocument ν)
  | first (.mutate previous _ _) _ | retry (.mutate previous _ _) _ => some previous.val
  | rekey previous _ _ => some previous.val
  | first (.save _) _ | retry (.save _) _ => none

/-- The `catch` of `_mutate`: restore only the state owned by this operation. -/
def rollback (s : Handle κ ν) : Cont κ ν → Handle κ ν
  | first (.mutate previous document _) _ | retry (.mutate previous document _) _ =>
    if s.doc.map DocObj.ref = some document.ref then { s with doc := some previous } else s
  | first (.save _) _ | retry (.save _) _ | rekey _ _ _ => s

end Cont

/-- The result of a task whose save is done. -/
def Task.result : Task ν → Option Bool
  | save _ => none
  | mutate _ _ result => result

namespace Handle

/-- The running write goes on to its next `await`. -/
def suspend (s : Handle κ ν) (r : Running κ ν) (pc : Pc κ ν) : Handle κ ν :=
  { s with running := some { r with pc := pc } }

/-- The running write rejects. -/
def fail (s : Handle κ ν) (r : Running κ ν) (k : Cont κ ν) (err : VaultError) :
    Handle κ ν × List (Event κ ν) :=
  ({ k.rollback s with running := none }, [.rejected r.call r.op err])

/-- The running write resolves. -/
def succeed (s : Handle κ ν) (r : Running κ ν) (result : Option Bool) :
    Handle κ ν × List (Event κ ν) :=
  ({ s with running := none }, [.resolved r.call r.op result])

/-! ### Calls -/

/-- The state check at the head of a call; `clear()` has none. -/
def checkCall (s : Handle κ ν) : Request κ ν → Except VaultError Unit
  | .clear => .ok ()
  | _ => s.assertOpen

/-- A call: its checks, and its place at the end of the queue. -/
def call (s : Handle κ ν) (request : Request κ ν) : Handle κ ν × List (Event κ ν) :=
  match s.checkCall request with
  | .error err => (s, [.refused err])
  | .ok () =>
    match request.prepare schema with
    | .error err => (s, [.refused err])
    | .ok none => (s, [.returned])
    | .ok (some op) =>
      ({ s with queue := s.queue ++ [(s.nextCall, op)], nextCall := s.nextCall + 1 },
        [.called s.nextCall op])

/-- `this._assertOpen()` in a queued operation, and the rest of it on the document it finds. -/
def whenOpen (s : Handle κ ν) (call : ℕ) (op : Op κ ν)
    (body : DocObj ν → Handle κ ν × List (Event κ ν)) : Handle κ ν × List (Event κ ν) :=
  match s.assertOpen, s.doc with
  | .ok (), some previous => body previous
  | .ok (), none => (s, [.rejected call op .notOpen])
  | .error err, _ => (s, [.rejected call op err])

/-- `_saveNow()` of a `save()` up to its first `await`. -/
def beginSave (s : Handle κ ν) (call nonce : ℕ) (fault : Option String) (document : DocObj ν) :
    Handle κ ν × List (Event κ ν) :=
  let retryOnConflict :=
    s.persistedDocument.bind fun persisted => makeConflictReplay persisted document.val
  let encoded := encode s.masterKey nonce fault document.val
  ({ s with
      running := some ⟨call, .save, .encoding encoded (.first (.save document) retryOnConflict)⟩ },
    [])

/-- The body of `_mutate` up to its first `await`. -/
def beginMutate (s : Handle κ ν) (call nonce : ℕ) (fault : Option String) (χ : Change ν)
    (previous : DocObj ν) : Handle κ ν × List (Event κ ν) :=
  let built := χ.buildNext previous.val
  let document : DocObj ν :=
    if built.fresh then { ref := s.nextRef, val := built.document } else previous
  let retryOnConflict := makeConflictReplay previous.val document.val
  let s := { s with doc := some document, nextRef := s.nextRef + 1 }
  if s.autoSave ∧ built.persist then
    let encoded := encode s.masterKey nonce fault document.val
    let task : Task ν := .mutate previous document built.result
    ({ s with running := some ⟨call, .mutate χ, .encoding encoded (.first task retryOnConflict)⟩ },
      [])
  else (s, [.resolved call (.mutate χ) built.result])

/-- The body of `rekey` up to its first `await`. -/
def beginRekey (s : Handle κ ν) (call nonce : ℕ) (fault : Option String) (args : RekeyArgs κ ν)
    (previous : DocObj ν) : Handle κ ν × List (Event κ ν) :=
  match args.build previous.val with
  | .error err => (s, [.rejected call (.rekey args) err])
  | .ok document =>
    let next : DocObj ν := { ref := s.nextRef, val := document }
    let encoded := encode (args.masterKey.or s.masterKey) nonce fault document
    let k : Cont κ ν := .rekey previous next args.masterKey
    ({ s with nextRef := s.nextRef + 1, running := some ⟨call, .rekey args, .encoding encoded k⟩ },
      [])

/-- The body of a queued operation up to its first `await`. -/
def begin (s : Handle κ ν) (call nonce : ℕ) (fault : Option String) (op : Op κ ν) :
    Handle κ ν × List (Event κ ν) :=
  match op with
  | .clear => ({ s with running := some ⟨call, .clear, .clearing⟩ }, [])
  | .save => s.whenOpen call op (s.beginSave call nonce fault)
  | .mutate χ => s.whenOpen call op (s.beginMutate call nonce fault χ)
  | .rekey args => s.whenOpen call op (s.beginRekey call nonce fault args)

/-- The next queued operation starts once the running one has settled. -/
def start (s : Handle κ ν) (nonce : ℕ) (fault : Option String) :
    Option (Handle κ ν × List (Event κ ν)) :=
  match s.running, s.queue with
  | none, (call, op) :: queue =>
    let (s', log) := begin { s with queue := queue } call nonce fault op
    some (s', log ++ [.began call op (s.doc.map DocObj.val)])
  | _, _ => none

/-! ### The writes after their `await`s -/

/-- `_reloadAfterConflict()` up to its first `await`. -/
def reloadAfterConflict (s : Handle κ ν) (r : Running κ ν) (k : Cont κ ν) : Handle κ ν :=
  if s.masterKey.isNone then s.suspend r (.reloaded none k) else s.suspend r (.reloading k)

/-- After `_reloadAfterConflict()`: the first attempt retries with the merged document, the
others rethrow. -/
def afterReload (s : Handle κ ν) (r : Running κ ν) (nonce : ℕ) (fault : Option String)
    (document : Option (VaultDocument ν)) : Cont κ ν → Handle κ ν × List (Event κ ν)
  | .first task retryOnConflict =>
    match document, retryOnConflict with
    | some reloaded, some replay =>
      match replay.apply reloaded with
      | none => s.fail r (.first task retryOnConflict) (.conflict "storage")
      | some merged =>
        let retried : DocObj ν := { ref := s.nextRef, val := merged }
        ({ s with nextRef := s.nextRef + 1 }.suspend r
          (.encoding (encode s.masterKey nonce fault merged) (.retry task retried)), [])
    | _, _ => s.fail r (.first task retryOnConflict) (.conflict "storage")
  | k => s.fail r k (.conflict "storage")

/-- After a save that the backend accepted, once `_saveBlob` has returned. -/
def afterSave (s : Handle κ ν) (r : Running κ ν) : Cont κ ν → Handle κ ν × List (Event κ ν)
  | .first task _ => s.succeed r task.result
  | .retry task retried =>
    (if s.masterKey.isSome then { s with doc := some retried } else s).succeed r task.result
  | .rekey previous next nextKey =>
    -- a close that landed while the backend settled owns the state now
    if s.doc.map DocObj.ref ≠ some previous.ref ∨ s.masterKey.isNone then s.succeed r (some false)
    else
      { s with masterKey := nextKey.or s.masterKey, doc := some next }.succeed r (some true)

/-- The running write resumes after an `await`. -/
def resume (s : Handle κ ν) (nonce : ℕ) (fault : Option String) :
    Option (Handle κ ν × List (Event κ ν)) :=
  match s.running with
  | none => none
  | some r =>
    match r.pc with
    | .encoding (.error err) k => some (s.fail r k err)
    | .encoding (.ok blob) k =>
      some (s.suspend r (.saving ⟨blob, k.document s, s.persistedBlob, false⟩ k), [])
    | .answered (.ok ()) request k =>
      let s :=
        if s.masterKey.isNone then s
        else { s with persistedBlob := some request.blob, persistedDocument := request.document }
      some (s.suspend r (.stored k), [])
    | .answered (.error .conflict) _ k => some (s.reloadAfterConflict r k, [])
    | .answered (.error .quota) request k =>
      if request.trimmed then some (s.fail r k .storageQuota)
      else some (s.suspend r (.saving { request with trimmed := true } k), [])
    | .answered (.error (.other message)) _ k => some (s.fail r k (.backend message))
    | .stored k => some (s.afterSave r k)
    | .loaded (.error err) k => some (s.fail r k (.ofBackend err))
    | .loaded (.ok none) k =>
      if s.masterKey.isNone then some (s.suspend r (.reloaded none k), [])
      else some (s.close.suspend r (.reloaded none k), [])
    | .loaded (.ok (some blob)) k =>
      if s.masterKey.isNone then some (s.suspend r (.reloaded none k), [])
      else
        some (s.suspend r
          (.decoding blob (decodeDocument aead s.masterKey (blob.bytes aead)) k), [])
    | .decoding _ (.error _) k => some (s.close.suspend r (.reloaded none k), [])
    | .decoding blob (.ok document) k =>
      if s.masterKey.isNone then some (s.suspend r (.reloaded none k), [])
      else
        some ((s.install document (some blob)).suspend r (.reloaded (some document) k),
          [.reloaded r.call blob])
    | .reloaded document k => some (s.afterReload r nonce fault document k)
    | .cleared (.ok ()) =>
      some ({ s with
          doc := none, persistedBlob := none, persistedDocument := none,
          opened := false }.succeed r none)
    | .cleared (.error err) =>
      some ({ s with running := none }, [.rejected r.call r.op (.ofBackend err)])
    | .saving _ _ | .reloading _ | .clearing => none

/-! ### Opening -/

/-- `open()` up to its first `await`. -/
def beginOpen (s : Handle κ ν) : Handle κ ν :=
  if s.opened ∨ s.opening.isSome then s else { s with opening := some .loading }

/-- The assignments at the end of `open()`. -/
def finishOpen (s : Handle κ ν) (document : VaultDocument ν) (blob : Option (SealedBlob κ ν)) :
    Handle κ ν :=
  { s.install document blob with opened := true, opening := none }

/-- The backend answers the `load()` of an `open()`. -/
def openAnswer (s : Handle κ ν) (stored : Option (SealedBlob κ ν)) (fault : Option BackendError) :
    Option (Handle κ ν) :=
  match s.opening with
  | some .loading =>
    let answer : Except BackendError (Option (SealedBlob κ ν)) :=
      match fault with
      | some err => .error err
      | none => .ok stored
    some { s with opening := some (.loaded answer) }
  | _ => none

/-- `open()` resumes after an `await`. -/
def openResume (s : Handle κ ν) : Option (Handle κ ν) :=
  match s.opening with
  | some (.loaded (.error _)) => some { s with opening := none }
  | some (.loaded (.ok none)) => some (s.finishOpen emptyDocument none)
  | some (.loaded (.ok (some blob))) =>
    some { s with
      opening := some (.decoding blob (decodeDocument aead s.masterKey (blob.bytes aead))) }
  | some (.decoding _ (.error _)) => some { s with opening := none }
  | some (.decoding blob (.ok document)) => some (s.finishOpen document (some blob))
  | some .loading | none => none

end Handle

/-! ### The backend -/

/-- `backend.save(blob, { expected })`: the compare-and-swap on the stored bytes. -/
def backendSave (stored : Option (SealedBlob κ ν)) (request : SaveRequest κ ν) :
    Except BackendError Unit :=
  if stored.map (SealedBlob.bytes aead) = request.expected.map (SealedBlob.bytes aead) then
    .ok ()
  else .error .conflict

/-- What one step leaves: the stored blob, the handle, and what became known. -/
structure Outcome (κ ν : Type) where
  stored : Option (SealedBlob κ ν)
  handle : Handle κ ν
  log : List (Event κ ν)

/-- The backend settles the promise that the running write waits for. -/
def Handle.backend (s : Handle κ ν) (stored : Option (SealedBlob κ ν))
    (fault : Option BackendError) : Option (Outcome κ ν) :=
  match s.running with
  | none => none
  | some r =>
    match r.pc with
    | .saving request k =>
      match fault with
      | some err => some ⟨stored, s.suspend r (.answered (.error err) request k), []⟩
      | none =>
        match backendSave aead stored request with
        | .error err => some ⟨stored, s.suspend r (.answered (.error err) request k), []⟩
        | .ok () =>
          some ⟨some request.blob, s.suspend r (.answered (.ok ()) request k),
            [.committed r.call r.op k.before request.blob]⟩
    | .reloading k =>
      match fault with
      | some err => some ⟨stored, s.suspend r (.loaded (.error err) k), []⟩
      | none => some ⟨stored, s.suspend r (.loaded (.ok stored) k), []⟩
    | .clearing =>
      match fault with
      | some err => some ⟨stored, s.suspend r (.cleared (.error err)), []⟩
      | none => some ⟨none, s.suspend r (.cleared (.ok ())), [.wiped r.call]⟩
    | _ => none

/-- One step of a handle. -/
def Handle.step (s : Handle κ ν) (stored : Option (SealedBlob κ ν)) :
    Act κ ν → Option (Outcome κ ν)
  | .open => some ⟨stored, s.beginOpen, []⟩
  | .openAnswer fault => (s.openAnswer stored fault).map fun s' => ⟨stored, s', []⟩
  | .openResume => (s.openResume aead).map fun s' => ⟨stored, s', []⟩
  | .call request => some ⟨stored, (s.call schema request).1, (s.call schema request).2⟩
  | .start nonce fault => (s.start nonce fault).map fun p => ⟨stored, p.1, p.2⟩
  | .backend fault => s.backend aead stored fault
  | .resume nonce fault => (s.resume aead nonce fault).map fun p => ⟨stored, p.1, p.2⟩
  | .close => some ⟨stored, s.close, []⟩
  | .setAutoSave enabled => some ⟨stored, { s with autoSave := enabled }, []⟩

/-! ### The world -/

/-- One backend and the handles over it. -/
structure World (κ ν : Type) where
  stored : Option (SealedBlob κ ν)
  handles : ℕ → Handle κ ν
  log : List (ℕ × Event κ ν)

/-- What became known of one handle, newest first. -/
def World.events (w : World κ ν) (h : ℕ) : List (Event κ ν) :=
  w.log.filterMap fun p => if p.1 = h then some p.2 else none

/-- One step of the world: an action on one handle. -/
def World.step (w : World κ ν) (a : ℕ × Act κ ν) : Option (World κ ν) :=
  ((w.handles a.1).step aead schema w.stored a.2).map fun o =>
    { stored := o.stored,
      handles := Function.update w.handles a.1 o.handle,
      log := o.log.map (fun ev => (a.1, ev)) ++ w.log }

/-- Before anything has happened every handle is as its constructor made it. -/
def World.fresh (key : ℕ → κ) (stored : Option (SealedBlob κ ν)) : World κ ν :=
  { stored := stored, handles := fun h => { masterKey := some (key h) }, log := [] }

variable {aead schema}

omit [DecidableEq ν] [DecidableEq β] in
theorem World.mem_events {w : World κ ν} {h : ℕ} {ev : Event κ ν} :
    ev ∈ w.events h ↔ (h, ev) ∈ w.log := by
  simp [events]

theorem World.step_eq_some {w w' : World κ ν} {h : ℕ} {act : Act κ ν}
    (hstep : w.step aead schema (h, act) = some w') :
    ∃ o, (w.handles h).step aead schema w.stored act = some o ∧
      w' = { stored := o.stored, handles := Function.update w.handles h o.handle,
             log := o.log.map (fun ev => (h, ev)) ++ w.log } := by
  obtain ⟨o, ho, rfl⟩ := Option.map_eq_some_iff.mp hstep
  exact ⟨o, ho, rfl⟩

end Steps

/-- The step of worlds with numbers for keys and for JSON values, over a transparent cipher
and with schemas that refuse nothing. -/
abbrev World.plainStep : World ℕ ℕ → ℕ × Act ℕ ℕ → Option (World ℕ ℕ) :=
  World.step (Aead.transparent ℕ (ParsedDocument ℕ)) Schema.free

end XchainWallet
