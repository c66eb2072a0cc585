import XchainWallet.Vault.Moves

/-!
# A locked handle holds nothing

`close()` zeroes the key and drops the document. Every assignment that follows an `await`
looks at the key again, except the ones that end `open()`: an `open` that is waiting while
`close` runs puts its document into the locked handle. `lockedEmpty_iff_opensUnlocked` says that this is
the only way: a run keeps every locked handle empty exactly if no `open` finishes on a
handle without a key.
-/

namespace XchainWallet

variable {κ ν β : Type} [DecidableEq ν]
variable {aead : Aead κ (ParsedDocument ν) β} {schema : Schema ν}

/-- Without a key there is no document and no baseline, and the handle is not open. -/
def Handle.LockedEmpty (s : Handle κ ν) : Prop :=
  s.masterKey = none →
    s.doc = none ∧ s.persistedBlob = none ∧ s.persistedDocument = none ∧ s.isOpen = false

/-- The pending `open` is at its last `await`: its next step assigns a document. -/
def Handle.Opens (s : Handle κ ν) : Prop :=
  s.opening = some (.loaded (.ok none)) ∨
    ∃ blob document, s.opening = some (.decoding blob (.ok document))

/-- The action does not finish an `open` on a handle whose key is gone. -/
def OpensUnlocked (w : World κ ν) (a : ℕ × Act κ ν) : Prop :=
  a.2 = .openResume → (w.handles a.1).Opens → (w.handles a.1).masterKey ≠ none

namespace Handle

omit [DecidableEq ν] in
theorem lockedEmpty_of_key {s : Handle κ ν} (h : s.masterKey ≠ none) : s.LockedEmpty :=
  fun hnone => absurd hnone h

omit [DecidableEq ν] in
/-- A locked handle has no document, so a failing write restores nothing. -/
private theorem LockedEmpty.rollback {s : Handle κ ν} (hs : s.LockedEmpty) (k : Cont κ ν) :
    (k.rollback s).LockedEmpty := by
  obtain h | ⟨previous, document, result, -, href, -⟩ := k.rollback_cases s
  · rwa [h]
  · refine lockedEmpty_of_key fun hkey => ?_
    rw [Cont.masterKey_rollback] at hkey
    simp [(hs hkey).1] at href

/-- Every step but the end of an `open` keeps a locked handle empty. -/
private theorem LockedEmpty.move {s : Handle κ ν} {stored : Option (SealedBlob κ ν)}
    {act : Act κ ν} {o : Outcome κ ν} (hs : s.LockedEmpty)
    (hopen : act = .openResume → s.Opens → s.masterKey ≠ none)
    (hmove : Move aead schema s stored act o) : o.handle.LockedEmpty := by
  cases hmove with
  | openEmpty hpc => exact lockedEmpty_of_key (hopen rfl (.inl hpc))
  | openDecoded hpc => exact lockedEmpty_of_key (hopen rfl (.inr ⟨_, _, hpc⟩))
  | startMutate _ _ _ hkey | startUnsaved _ _ _ hkey | saved _ _ hkey | reloaded _ _ hkey
  | resolveRetry _ _ hkey => exact lockedEmpty_of_key hkey
  | rekeySwitch _ _ _ hkey => exact lockedEmpty_of_key (by simp [hkey])
  | fail => exact hs.rollback _
  | close | closing | clearDone => exact fun _ => ⟨rfl, rfl, rfl, rfl⟩
  | _ => exact hs

end Handle

variable [DecidableEq β]

private theorem lockedEmpty_step {w w' : World κ ν} {a : ℕ × Act κ ν}
    (hw : ∀ h, (w.handles h).LockedEmpty) (ha : OpensUnlocked w a)
    (hstep : w.step aead schema a = some w') (h : ℕ) : (w'.handles h).LockedEmpty := by
  exact World.forall_handles_step (I := fun s _ => s.LockedEmpty)
    (fun o ho hs => hs.move ha ho) hw hstep h

/-- An `open` that finishes on a locked handle leaves its document there. -/
private theorem not_lockedEmpty_of_opens {w w' : World κ ν} {a : ℕ × Act κ ν}
    (hstep : w.step aead schema a = some w') (ha : ¬OpensUnlocked w a) :
    ¬∀ h, (w'.handles h).LockedEmpty := by
  obtain ⟨h, act⟩ := a
  simp only [OpensUnlocked, not_forall, not_not] at ha
  obtain ⟨rfl, hopens, hkey⟩ := ha
  obtain ⟨o, ho, rfl⟩ := World.step_eq_some hstep
  intro hw'
  have hempty : o.handle.LockedEmpty := by simpa using hw' h
  obtain ⟨s', hs', rfl⟩ := Option.map_eq_some_iff.mp ho
  rcases hopens with hpc | ⟨blob, document, hpc⟩
  all_goals
    rw [Handle.openResume, hpc] at hs'
    obtain ⟨⟩ := hs'
    exact absurd (hempty hkey).1 (by simp [Handle.finishOpen, Handle.install])

private theorem opensUnlocked_of_disabled {w : World κ ν} {a : ℕ × Act κ ν}
    (hstep : w.step aead schema a = none) : OpensUnlocked w a := by
  rintro hact (hpc | ⟨blob, document, hpc⟩)
  all_goals simp [World.step, hact, Handle.step, Handle.openResume, hpc] at hstep

/-- **A locked handle holds nothing, exactly while no `open` finishes on it.** Every state
that a run passes through keeps its locked handles empty if and only if no action of the run
ends an `open` on a handle whose key a `close` has zeroed. -/
theorem lockedEmpty_iff_opensUnlocked (key : ℕ → κ) (stored : Option (SealedBlob κ ν))
    (as : List (ℕ × Act κ ν)) :
    Transition.Throughout (fun w => ∀ h, (w.handles h).LockedEmpty) (World.step aead schema)
        (World.fresh key stored) as ↔
      Transition.Under OpensUnlocked (World.step aead schema) (World.fresh key stored) as := by
  constructor
  · exact Transition.under_of_throughout (fun _ _ _ _ => not_lockedEmpty_of_opens)
      (fun _ _ => opensUnlocked_of_disabled)
  · exact Transition.throughout_of_under (fun _ _ _ hs ha hstep => lockedEmpty_step hs ha hstep)
      fun _ => Handle.lockedEmpty_of_key (by simp [World.fresh])

/-- A `close` between the load and the decode of an `open` leaves the decrypted document in
the handle. -/
theorem close_during_open_keeps_document :
    let wallet : VaultRecord ℕ := { id := "w1", fields := [("name", 1)] }
    let document := (emptyDocument : VaultDocument ℕ).withCollection .wallets [wallet]
    ∃ w, Transition.run World.plainStep
        (World.fresh (fun _ => 7) (some { key := 7, nonce := 0, document := document }))
        [(0, .open), (0, .openAnswer none), (0, .openResume), (0, .close), (0, .openResume)] =
          some w ∧
      (w.handles 0).masterKey = none ∧
      ((w.handles 0).doc.bind fun o => o.val.find .wallets "w1") = some wallet ∧
      ¬(w.handles 0).LockedEmpty := by
  refine ⟨_, rfl, rfl, rfl, fun h => ?_⟩
  exact absurd (h rfl).1 (by simp [World.fresh, Handle.finishOpen, Handle.install])

end XchainWallet
