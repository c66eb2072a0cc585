import XchainWallet.Vault.Moves

/-!
# The calls of a handle are a queue

`_enqueueWrite` puts every write behind the one before it. So in every run, whatever closes,
fails or conflicts in between, what has settled on a handle, then the write under way and then the
queue are the calls that the handle has taken, in order (`calls_settle_in_order`).
-/

namespace XchainWallet

open Transition Handle

variable {κ ν β : Type} {aead : Aead κ (ParsedDocument ν) β} {schema : Schema ν}

/-- The call that the event made. -/
def Event.made : Event κ ν → Option (ℕ × Op κ ν)
  | called call op => some (call, op)
  | _ => none

/-- The call that the event settled. -/
def Event.settled : Event κ ν → Option (ℕ × Op κ ν)
  | resolved call op _ | rejected call op _ => some (call, op)
  | _ => none

/-- The call under way, and those behind it. -/
def Handle.outstanding (s : Handle κ ν) : List (ℕ × Op κ ν) :=
  (s.running.map fun r => (r.call, r.op)).toList ++ s.queue

/-- What has settled and what has not are the calls, the first one first. -/
structure Handle.Served (s : Handle κ ν) (log : List (Event κ ν)) : Prop where
  served : (log.filterMap Event.settled).reverse ++ s.outstanding =
    (log.filterMap Event.made).reverse
  numbered : (log.filterMap Event.made).reverse.map Prod.fst = List.range s.nextCall

namespace Handle.Served

variable {s s' : Handle κ ν} {stored : Option (SealedBlob κ ν)} {log evs : List (Event κ ν)}

/-- A step that makes no call settles those in front. -/
private theorem advance (hs : s.Served log) (hmade : evs.filterMap Event.made = [])
    (hout : s.outstanding = (evs.filterMap Event.settled).reverse ++ s'.outstanding)
    (hnext : s'.nextCall = s.nextCall) : s'.Served (evs ++ log) := by
  refine ⟨?_, ?_⟩
  · rw [List.filterMap_append, List.filterMap_append, hmade, List.nil_append, List.reverse_append,
      List.append_assoc, ← hout]
    exact hs.served
  · rw [List.filterMap_append, hmade, List.nil_append, hnext]
    exact hs.numbered

/-- A call goes to the end of the queue. -/
private theorem enqueue (hs : s.Served log) {op : Op κ ν}
    (hout : s'.outstanding = s.outstanding ++ [(s.nextCall, op)])
    (hnext : s'.nextCall = s.nextCall + 1) : s'.Served (.called s.nextCall op :: log) := by
  refine ⟨?_, ?_⟩
  · have hserved := congrArg (· ++ [(s.nextCall, op)]) hs.served
    simpa [hout, List.filterMap_cons, Event.settled, Event.made] using hserved
  · rw [hnext, List.range_succ, ← hs.numbered]
    simp [Event.made]

variable [DecidableEq ν]

theorem move {act : Act κ ν} {o : Outcome κ ν} (hs : s.Served log)
    (hmove : Move aead schema s stored act o) : o.handle.Served (o.log ++ log) := by
  cases hmove with
  | idle hlog =>
    -- a refused call, or one that has nothing to do, never reaches the queue
    have hnone : ∀ ev ∈ _, Event.made ev = none ∧ Event.settled ev = none := fun ev hev => by
      obtain rfl | ⟨err, rfl⟩ := hlog ev hev <;> exact ⟨rfl, rfl⟩
    have hsettled := List.filterMap_eq_nil_iff.mpr fun ev hev => (hnone ev hev).2
    refine hs.advance (List.filterMap_eq_nil_iff.mpr fun ev hev => (hnone ev hev).1) ?_ rfl
    simp [hsettled]
  | called => exact hs.enqueue (by simp [outstanding]) rfl
  | beginOpen | openLoaded | openFailed | openDecode | openEmpty | openDecoded | close
  | setAutoSave => exact hs.advance rfl rfl rfl
  | startClear hrun hqueue | startRejected hrun hqueue | startSave hrun hqueue
  | startMutate hrun hqueue | startUnsaved hrun hqueue | startRekey hrun hqueue =>
    -- the front of the queue is under way, or has settled at once
    exact hs.advance rfl
      (by simp [outstanding, place, hrun, hqueue, List.filterMap_cons, Event.settled]) rfl
  | fail hrun =>
    exact hs.advance rfl (by simp [outstanding, hrun, Handle.fail, Event.settled])
      (by simp [Handle.fail])
  | next hrun | commit hrun | wipe hrun | savedClosed hrun | saved hrun | closing hrun
  | reloaded hrun | retry hrun | resolveFirst hrun | resolveRetryClosed hrun | resolveRetry hrun
  | rekeyMissed hrun | rekeySwitch hrun | clearDone hrun | clearFailed hrun =>
    exact hs.advance rfl
      (by simp [outstanding, suspend, install, close, hrun, List.filterMap_cons, Event.settled]) rfl

end Handle.Served

section Runs

variable [DecidableEq ν] [DecidableEq β]

/-- **Every call settles once, in its turn.** On every handle of every run, the calls that have
settled, the one under way and the queue are together the calls it has taken, in order, and these
are numbered from zero on. -/
theorem calls_settle_in_order {key : ℕ → κ} {stored : Option (SealedBlob κ ν)}
    {as : List (ℕ × Act κ ν)} {w : World κ ν}
    (hrun : run (World.step aead schema) (World.fresh key stored) as = some w) (h : ℕ) :
    (w.handles h).Served (w.events h) := by
  have hw : ∀ h, (w.handles h).Served (w.events h) := by
    refine run_invariant (I := fun w => ∀ h, (w.handles h).Served (w.events h))
      (fun w a w' hw hstep => ?_) (fun h => ⟨rfl, rfl⟩) hrun
    exact World.forall_handles_step (fun _ ho hs => hs.move ho) hw hstep
  exact hw h

/-- Two calls at once on one handle: the second waits until the first has settled. -/
theorem calls_settle_in_order_two :
    let calls : List (ℕ × Act ℕ ℕ) :=
      [(0, .call .clear), (0, .call .clear), (0, .start 0 none), (0, .backend none),
        (0, .resume 0 none)]
    ∃ w, run World.plainStep (World.fresh (fun _ => 7) none) calls = some w ∧
      (w.handles 0).Served (w.events 0) ∧ (w.handles 0).outstanding = [(1, .clear)] := by
  intro calls
  obtain ⟨w, hrun⟩ : ∃ w, run World.plainStep (World.fresh (fun _ => 7) none) calls = some w :=
    ⟨_, rfl⟩
  refine ⟨w, hrun, calls_settle_in_order hrun 0, ?_⟩
  obtain rfl := Option.some.inj hrun
  rfl

end Runs

end XchainWallet
