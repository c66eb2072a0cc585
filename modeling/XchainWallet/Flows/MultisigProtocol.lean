import XchainWallet.Flows.MultisigSigning
import XchainWallet.Versioned.Serial

/-!
# What holds of a multisig signing session

`MultisigEdit` lists what a change may write over a record. Each change is sound for it, so the
record of an undisturbed run moves along it, and every property of the record is a case analysis on
one edit.
-/

namespace XchainWallet

open Checks Versioned Relation Transition

variable {K : Type} {p : MultisigPlatform K} {sessionId : String}

/-! ### Edits -/

/-- A partial that the chain's SDK verifies in the session. -/
def VerifiedPartial (p : MultisigPlatform K) (s : MultisigSigningSession)
    (entry : SignatureContribution) : Prop :=
  isMusig2PartialOf p true s entry.pubkey entry.sig = .ok true

/-- A signature of the session's hash by the cosigner that it names. -/
def VerifiedSignature (p : MultisigPlatform K) (s : MultisigSigningSession)
    (entry : SignatureContribution) : Prop :=
  p.isEcdsaSignature entry.sig s.msgHash entry.pubkey = true

/-- What a change may write over a record. -/
inductive MultisigEdit (p : MultisigPlatform K) :
    MultisigSigningSession → MultisigSigningSession → Prop
  | nonce {s : MultisigSigningSession} (entry : NonceContribution) :
      s.scheme = .taprootMusig2 → s.status = .collectingNonces →
      entry.pubkey ∈ s.cosignerPubkeys → entry.pubkey ∉ s.nonces.map (·.pubkey) →
      MultisigEdit p s { s with nonces := s.nonces ++ [entry] }
  | aggregateNonces {s : MultisigSigningSession} (aggNonce : HexText) :
      s.scheme = .taprootMusig2 → s.status = .collectingNonces →
      s.threshold ≤ s.nonces.length →
      MultisigEdit p s { s with aggNonce := some aggNonce, status := .collectingSigs }
  | partialSig {s : MultisigSigningSession} (entry : SignatureContribution) :
      s.scheme = .taprootMusig2 → s.status = .collectingSigs →
      entry.pubkey ∈ s.cosignerPubkeys → entry.pubkey ∉ s.partialSigs.map (·.pubkey) →
      VerifiedPartial p s entry →
      MultisigEdit p s { s with partialSigs := s.partialSigs ++ [entry] }
  | aggregateSigs {s : MultisigSigningSession} (schnorr : HexText) :
      s.scheme = .taprootMusig2 → s.status = .collectingSigs →
      s.threshold ≤ s.partialSigs.length →
      MultisigEdit p s { s with aggregatedSchnorrSig := some schnorr, status := .readyToFinalize }
  | signature {s : MultisigSigningSession} (entry : SignatureContribution) :
      s.scheme ≠ .taprootMusig2 → s.status = .collectingSigs →
      entry.pubkey ∈ s.cosignerPubkeys → entry.pubkey ∉ s.signatures.map (·.pubkey) →
      VerifiedSignature p s entry →
      MultisigEdit p s { s with
        signatures := s.signatures ++ [entry],
        status := if s.threshold ≤ (s.signatures ++ [entry]).length then .readyToFinalize
          else s.status }
  | finalize {s : MultisigSigningSession} (txHex : HexText) (txid : Option HexText) :
      s.status = .readyToFinalize →
      MultisigEdit p s { s with
        finalizedTxHex := some txHex, txid := txid, status := .finalized }
  | broadcast {s : MultisigSigningSession} (txid : Option HexText) :
      s.status = .finalized → MultisigEdit p s { s with txid := txid, status := .broadcast }
  | cancel {s : MultisigSigningSession} : s.status ≠ .cancelled → s.status ≠ .broadcast →
      MultisigEdit p s { s with status := .cancelled }

/-- What a call that has resolved tells of the record that it returns. -/
def MultisigCall.Done : MultisigCall → MultisigSigningSession → Prop
  | cancel, r => r.status = .cancelled ∨ r.status = .broadcast
  | contributeNonce pubkey publicNonceHex, r =>
    ⟨lowerHex pubkey, lowerHex publicNonceHex⟩ ∈ r.nonces
  | contributeSignature _ pubkey signatureHex, r =>
    if r.scheme = .taprootMusig2 then
      ⟨lowerHex pubkey, lowerHex signatureHex⟩ ∈ r.partialSigs
    else ⟨lowerHex pubkey, lowerHex signatureHex⟩ ∈ r.signatures
  | aggregate _, _ => True
  | finalize _ _ _, r => r.status = .finalized
  | broadcast _, r => r.status = .broadcast

/-! ### Each change is sound -/

/-- A task behind checks is sound where it is sound for what passes them. -/
theorem sound_checked {Post : MultisigSigningSession → Prop}
    {base : Option MultisigSigningSession} {checks : Except MultisigError MultisigTask}
    (h : ∀ task, checks = .ok task → task.Sound (MultisigEdit p) Post base) :
    (Versioned.Task.checked checks).Sound (MultisigEdit p) Post base := by
  cases checks with
  | error err => trivial
  | ok task => exact h task rfl

theorem sound_persist {Post : MultisigSigningSession → Prop} {s next : MultisigSigningSession}
    (hedit : MultisigEdit p s next) (hpost : Post next) :
    (persist next).Sound (MultisigEdit p) Post (some s) :=
  ⟨⟨s, rfl, hedit⟩, rfl, hpost⟩

variable {s : MultisigSigningSession}

@[simp]
theorem ensureSession_eq_ok {session : Option MultisigSigningSession} :
    ensureSession sessionId session = .ok s ↔ session = some s :=
  orRefuse_eq_ok

@[simp]
theorem assertCosigner_eq_ok {pubkey lower : HexText} : assertCosigner s pubkey = .ok lower ↔
      lowerHex pubkey ∈ s.cosignerPubkeys ∧ lowerHex pubkey = lower := by
  simp only [assertCosigner, bind_eq_ok, refuseIf_eq_ok, pure_eq_ok, exists_const]
  simp

@[simp]
theorem assertStatus_eq_ok {allowed : List MultisigStatus} {u : Unit} :
    assertStatus s allowed = .ok u ↔ s.status ∈ allowed := by
  simp [assertStatus]

theorem sound_cancel (base : Option MultisigSigningSession) :
    (cancelMultisigSigningSession sessionId base).Sound (MultisigEdit p)
      MultisigCall.cancel.Done base := by
  refine sound_checked fun task htask => ?_
  simp only [bind_eq_ok, ensureSession_eq_ok] at htask
  obtain ⟨s, rfl, htask⟩ := htask
  by_cases hended : s.status = .cancelled ∨ s.status = .broadcast
  · rw [if_pos hended] at htask
    cases htask
    exact ⟨rfl, hended⟩
  · rw [if_neg hended] at htask
    cases htask
    rw [not_or] at hended
    exact sound_persist (.cancel hended.1 hended.2) (.inl rfl)

theorem sound_contributeNonce (pubkey publicNonceHex : HexText)
    (base : Option MultisigSigningSession) :
    (contributeMultisigNonce p sessionId pubkey publicNonceHex base).Sound (MultisigEdit p)
      (MultisigCall.contributeNonce pubkey publicNonceHex).Done base := by
  refine sound_checked fun task htask => ?_
  simp only [bind_eq_ok, refuseIf_eq_ok, ensureSession_eq_ok, assertStatus_eq_ok,
    assertCosigner_eq_ok, exists_const] at htask
  obtain ⟨-, s, rfl, hscheme, hstatus, _, ⟨hmem, rfl⟩, hfresh, htask⟩ := htask
  cases hproblem : musig2NonceProblem p s (lowerHex publicNonceHex) with
  | some message =>
    rw [hproblem] at htask
    cases htask
  | none =>
    rw [hproblem] at htask
    cases htask
    refine sound_persist (.nonce _ (by simpa using hscheme) (by simpa using hstatus) hmem ?_) ?_
    · simpa using hfresh
    · simp [MultisigCall.Done]

variable (registry : Bool)

theorem sound_contributeSignature (pubkey signatureHex : HexText)
    (base : Option MultisigSigningSession) :
    (contributeMultisigSignature p sessionId registry pubkey signatureHex base).Sound
      (MultisigEdit p) (MultisigCall.contributeSignature registry pubkey signatureHex).Done
      base := by
  refine sound_checked fun task htask => ?_
  simp only [bind_eq_ok, refuseIf_eq_ok, ensureSession_eq_ok, assertStatus_eq_ok,
    assertCosigner_eq_ok, exists_const] at htask
  obtain ⟨-, s, rfl, hstatus, _, ⟨hmem, rfl⟩, htask⟩ := htask
  have hcollecting : s.status = .collectingSigs := by simpa using hstatus
  by_cases hscheme : s.scheme = .taprootMusig2
  · rw [if_pos hscheme] at htask
    simp only [contributePartialSig, bind_eq_ok, refuseIf_eq_ok, exists_const, pure_eq_ok]
      at htask
    obtain ⟨-, hfresh, verified, hverified, hyes, rfl⟩ := htask
    obtain rfl : verified = true := by simpa using hyes
    refine sound_persist (.partialSig _ hscheme hcollecting hmem (by simpa using hfresh) ?_) ?_
    · cases registry with
      | true => exact hverified
      | false => simp [isMusig2PartialOf, refuseIf, bind, Except.bind] at hverified
    · simp [MultisigCall.Done, hscheme]
  · rw [if_neg hscheme] at htask
    simp only [contributeClassicalSig, bind_eq_ok, refuseIf_eq_ok, exists_const, pure_eq_ok]
      at htask
    obtain ⟨-, hfresh, hverified, rfl⟩ := htask
    refine sound_persist
      (.signature _ hscheme hcollecting hmem (by simpa using hfresh)
        (by simpa [VerifiedSignature] using hverified)) ?_
    simp [MultisigCall.Done, hscheme]

theorem sound_aggregatePartialSigs (musig2 : Musig2 K) (hscheme : s.scheme = .taprootMusig2) :
    (aggregatePartialSigs musig2 s).Sound (MultisigEdit p) (fun _ => True) (some s) := by
  rw [aggregatePartialSigs]
  split
  · rename_i hready
    split
    · trivial
    · dsimp only
      split
      · trivial
      · exact sound_persist (.aggregateSigs _ hscheme hready.1 hready.2) trivial
  · exact ⟨rfl, trivial⟩

theorem sound_aggregate (base : Option MultisigSigningSession) :
    (aggregateMultisigSession p sessionId registry base).Sound (MultisigEdit p)
      (MultisigCall.aggregate registry).Done base := by
  refine sound_checked fun task htask => ?_
  simp only [bind_eq_ok, refuseIf_eq_ok, ensureSession_eq_ok, orRefuse_eq_ok, exists_const]
    at htask
  obtain ⟨-, s, rfl, hscheme, sdk, -, musig2, -, htask⟩ := htask
  have hscheme : s.scheme = .taprootMusig2 := by simpa using hscheme
  split at htask
  · rename_i hready
    split at htask
    · cases htask
    · cases htask
      refine ⟨⟨s, rfl, .aggregateNonces _ hscheme hready.1 hready.2⟩, ?_⟩
      exact sound_aggregatePartialSigs musig2 hscheme
  · cases htask
    exact sound_aggregatePartialSigs musig2 hscheme

theorem sound_finalize (finalizedTxHex txid : Option HexText) (base : Option MultisigSigningSession) :
    (finalizeMultisigSigningSession p sessionId registry finalizedTxHex txid base).Sound
      (MultisigEdit p) (MultisigCall.finalize registry finalizedTxHex txid).Done base := by
  refine sound_checked fun task htask => ?_
  simp only [bind_eq_ok, refuseIf_eq_ok, ensureSession_eq_ok, assertStatus_eq_ok, exists_const]
    at htask
  obtain ⟨-, s, rfl, hstatus, htask⟩ := htask
  have hready : s.status ≠ .finalized → s.status = .readyToFinalize := by
    intro hnot
    simpa [hnot] using hstatus
  cases finalizedTxHex with
  | some txHex =>
    simp only [finalizeSupplied, bind_eq_ok, refuseIf_eq_ok, exists_const] at htask
    obtain ⟨-, htask⟩ := htask
    split at htask
    · rename_i hfinalized
      simp only [bind_eq_ok, refuseIf_eq_ok, exists_const, pure_eq_ok] at htask
      obtain ⟨-, rfl⟩ := htask
      exact ⟨rfl, hfinalized⟩
    · rename_i hnot
      cases htask
      exact sound_persist (.finalize _ _ (hready hnot)) rfl
  | none =>
    simp only at htask
    split at htask
    · rename_i hfinalized
      cases htask
      exact ⟨rfl, hfinalized⟩
    · rename_i hnot
      simp only [bind_eq_ok, refuseIf_eq_ok, orRefuse_eq_ok, exists_const, pure_eq_ok] at htask
      obtain ⟨-, sdk, -, -, rfl⟩ := htask
      intro answer
      cases answer with
      | error refusal => trivial
      | ok reply =>
        rw [recordFinalized]
        split
        · trivial
        · exact sound_persist (.finalize _ _ (hready hnot)) rfl

theorem sound_broadcast (base : Option MultisigSigningSession) :
    (broadcastMultisigSession p sessionId registry base).Sound (MultisigEdit p)
      (MultisigCall.broadcast registry).Done base := by
  refine sound_checked fun task htask => ?_
  simp only [bind_eq_ok, refuseIf_eq_ok, ensureSession_eq_ok, exists_const] at htask
  obtain ⟨-, s, rfl, htask⟩ := htask
  split at htask
  · rename_i hsent
    cases htask
    exact ⟨rfl, hsent⟩
  · simp only [bind_eq_ok, refuseIf_eq_ok, orRefuse_eq_ok, assertStatus_eq_ok, exists_const,
      pure_eq_ok] at htask
    obtain ⟨hstatus, -, sdk, -, -, rfl⟩ := htask
    have hfinalized : s.status = .finalized := by simpa using hstatus
    intro checked
    cases checked with
    | error refusal => trivial
    | ok _ =>
      intro answer
      cases answer with
      | error refusal =>
        rw [recordBroadcast]
        split
        · exact sound_persist (.broadcast s.txid hfinalized) rfl
        · trivial
      | ok reply =>
        rw [recordBroadcast]
        split
        · trivial
        · split
          · trivial
          · exact sound_persist (.broadcast _ hfinalized) rfl

/-- **Every change writes edits, and its result is the record as it then stands.** -/
theorem sound_change (call : MultisigCall) (base : Option MultisigSigningSession) :
    (call.change p sessionId base).Sound (MultisigEdit p) call.Done base := by
  cases call with
  | cancel => exact sound_cancel base
  | contributeNonce pubkey publicNonceHex => exact sound_contributeNonce pubkey publicNonceHex base
  | contributeSignature registry pubkey signatureHex =>
    exact sound_contributeSignature registry pubkey signatureHex base
  | aggregate registry => exact sound_aggregate registry base
  | finalize registry finalizedTxHex txid => exact sound_finalize registry finalizedTxHex txid base
  | broadcast registry => exact sound_broadcast registry base

/-! ### What an edit keeps -/

/-- The order of the protocol: one status forward, or cancelled before the end. -/
inductive MultisigStatus.Next : MultisigStatus → MultisigStatus → Prop
  | nonces : Next .collectingNonces .collectingSigs
  | sigs : Next .collectingSigs .readyToFinalize
  | finalize : Next .readyToFinalize .finalized
  | broadcast : Next .finalized .broadcast
  | cancel {status : MultisigStatus} : status ≠ .cancelled → status ≠ .broadcast →
    Next status .cancelled

namespace MultisigSigningSession

/-- A list of contributions has at most one of each cosigner, and of cosigners only. -/
def OnePerCosigner (s : MultisigSigningSession) (pubkeys : List HexText) : Prop :=
  pubkeys.Nodup ∧ ∀ pubkey ∈ pubkeys, pubkey ∈ s.cosignerPubkeys

/-- The contributions that a finalizer needs. -/
def contributions (s : MultisigSigningSession) : List SignatureContribution :=
  if s.scheme = .taprootMusig2 then s.partialSigs else s.signatures

/-- The contribution verifies in the session. -/
def Verified (p : MultisigPlatform K) (s : MultisigSigningSession)
    (entry : SignatureContribution) : Prop :=
  if s.scheme = .taprootMusig2 then VerifiedPartial p s entry else VerifiedSignature p s entry

/-- The session has been ready to finalize. -/
def IsReady (s : MultisigSigningSession) : Prop :=
  s.status = .readyToFinalize ∨ s.status = .finalized ∨ s.status = .broadcast

/-- The invariant of a record. -/
structure Ok (p : MultisigPlatform K) (s : MultisigSigningSession) : Prop where
  nonces : s.OnePerCosigner (s.nonces.map (·.pubkey))
  partialSigs : s.OnePerCosigner (s.partialSigs.map (·.pubkey))
  signatures : s.OnePerCosigner (s.signatures.map (·.pubkey))
  verified : ∀ entry ∈ s.contributions, s.Verified p entry
  early : s.status = .collectingNonces → s.partialSigs = []
  enough : s.IsReady → s.threshold ≤ s.contributions.length
  unfinalized : s.status = .collectingNonces ∨ s.status = .collectingSigs ∨
    s.status = .readyToFinalize → s.finalizedTxHex = none

/-- What a later record keeps of an earlier one. -/
structure Grows (s s' : MultisigSigningSession) : Prop where
  forward : ReflTransGen MultisigStatus.Next s.status s'.status
  scheme : s'.scheme = s.scheme
  cosigners : s'.cosignerPubkeys = s.cosignerPubkeys
  threshold : s'.threshold = s.threshold
  nonces : s.nonces ⊆ s'.nonces
  partialSigs : s.partialSigs ⊆ s'.partialSigs
  signatures : s.signatures ⊆ s'.signatures
  finalized : ∀ txHex, s.finalizedTxHex = some txHex → s'.finalizedTxHex = some txHex
  ended : s.status = .cancelled ∨ s.status = .broadcast → s' = s

variable {s s' t : MultisigSigningSession}

theorem Grows.refl (s : MultisigSigningSession) : s.Grows s where
  forward := .refl
  scheme := rfl
  cosigners := rfl
  threshold := rfl
  nonces := List.Subset.refl _
  partialSigs := List.Subset.refl _
  signatures := List.Subset.refl _
  finalized := fun _ h => h
  ended := fun _ => rfl

theorem Grows.trans (h : s.Grows s') (h' : s'.Grows t) : s.Grows t where
  forward := h.forward.trans h'.forward
  scheme := h'.scheme.trans h.scheme
  cosigners := h'.cosigners.trans h.cosigners
  threshold := h'.threshold.trans h.threshold
  nonces := List.Subset.trans h.nonces h'.nonces
  partialSigs := List.Subset.trans h.partialSigs h'.partialSigs
  signatures := List.Subset.trans h.signatures h'.signatures
  finalized := fun txHex hs => h'.finalized txHex (h.finalized txHex hs)
  ended := by
    intro hended
    have hsame := h.ended hended
    subst hsame
    exact h'.ended hended

theorem onePerCosigner_nil (s : MultisigSigningSession) : s.OnePerCosigner [] :=
  ⟨.nil, List.forall_mem_nil _⟩

theorem OnePerCosigner.append {pubkeys : List HexText} {pubkey : HexText}
    (h : s.OnePerCosigner pubkeys) (hmem : pubkey ∈ s.cosignerPubkeys)
    (hfresh : pubkey ∉ pubkeys) : s.OnePerCosigner (pubkeys ++ [pubkey]) := by
  refine ⟨?_, ?_⟩
  · refine List.nodup_append.mpr ⟨h.1, List.pairwise_singleton _ _, ?_⟩
    rintro other hother _ hsingle rfl
    rw [List.mem_singleton.mp hsingle] at hother
    exact hfresh hother
  · intro other hother
    rcases List.mem_append.mp hother with hother | hother
    · exact h.2 other hother
    · rw [List.mem_singleton.mp hother]
      exact hmem

/-- A record that is not ended, and what follows it by one edit. -/
private theorem grows_of_edit (h : MultisigEdit p s s') (hok : s.Ok p) : s.Grows s' := by
  have hrefl := Grows.refl s
  have halive : ∀ status, s.status = status → status ≠ .cancelled → status ≠ .broadcast →
      ¬(s.status = .cancelled ∨ s.status = .broadcast) := by
    rintro status rfl hcancelled hbroadcast (hended | hended)
    · exact hcancelled hended
    · exact hbroadcast hended
  cases h with
  | nonce entry hscheme hstatus hmem hfresh =>
    exact { hrefl with
      nonces := List.subset_append_left _ _
      ended := fun hended => absurd hended (halive _ hstatus (by decide) (by decide)) }
  | aggregateNonces aggNonce hscheme hstatus hready =>
    exact { hrefl with
      forward := .single (hstatus ▸ .nonces)
      ended := fun hended => absurd hended (halive _ hstatus (by decide) (by decide)) }
  | partialSig entry hscheme hstatus hmem hfresh hverified =>
    exact { hrefl with
      partialSigs := List.subset_append_left _ _
      ended := fun hended => absurd hended (halive _ hstatus (by decide) (by decide)) }
  | aggregateSigs schnorr hscheme hstatus hready =>
    exact { hrefl with
      forward := .single (hstatus ▸ .sigs)
      ended := fun hended => absurd hended (halive _ hstatus (by decide) (by decide)) }
  | signature entry hscheme hstatus hmem hfresh hverified =>
    refine { hrefl with
      forward := ?_
      signatures := List.subset_append_left _ _
      ended := fun hended => absurd hended (halive _ hstatus (by decide) (by decide)) }
    dsimp only
    split
    · exact .single (hstatus ▸ .sigs)
    · exact .refl
  | finalize txHex txid hstatus =>
    refine { hrefl with
      forward := .single (hstatus ▸ .finalize)
      finalized := ?_
      ended := fun hended => absurd hended (halive _ hstatus (by decide) (by decide)) }
    intro txHex' hset
    rw [hok.unfinalized (.inr (.inr hstatus))] at hset
    cases hset
  | broadcast txid hstatus =>
    exact { hrefl with
      forward := .single (hstatus ▸ .broadcast)
      ended := fun hended => absurd hended (halive _ hstatus (by decide) (by decide)) }
  | cancel hcancelled hbroadcast =>
    exact { hrefl with
      forward := .single (.cancel hcancelled hbroadcast)
      ended := fun hended => absurd hended (halive _ rfl hcancelled hbroadcast) }

/-- The invariant is kept by an edit. -/
private theorem ok_of_edit (h : MultisigEdit p s s') (hok : s.Ok p) : s'.Ok p := by
  cases h with
  | nonce entry hscheme hstatus hmem hfresh =>
    have hempty := hok.early hstatus
    refine { hok with nonces := ?_, verified := ?_, enough := ?_ }
    · rw [List.map_append]
      exact hok.nonces.append hmem hfresh
    · simp [contributions, hscheme, hempty]
    · intro hready
      exact hok.enough hready
  | aggregateNonces aggNonce hscheme hstatus hready =>
    have hempty := hok.early hstatus
    refine { hok with verified := ?_, early := nofun, enough := ?_, unfinalized := ?_ }
    · simp [contributions, hscheme, hempty]
    · rintro (h | h | h) <;> cases h
    · exact fun _ => hok.unfinalized (.inl hstatus)
  | partialSig entry hscheme hstatus hmem hfresh hverified =>
    refine { hok with partialSigs := ?_, verified := ?_, early := ?_, enough := ?_ }
    · rw [List.map_append]
      exact hok.partialSigs.append hmem hfresh
    · intro other hother
      simp only [contributions, if_pos hscheme, List.mem_append, List.mem_singleton] at hother
      have hold := hok.verified other
      simp only [contributions, Verified, if_pos hscheme] at hold ⊢
      rcases hother with hother | rfl
      · exact hold hother
      · exact hverified
    · intro hearly
      rw [hstatus] at hearly
      cases hearly
    · intro hready
      simp [IsReady, hstatus] at hready
  | aggregateSigs schnorr hscheme hstatus hready =>
    refine { hok with early := nofun, enough := ?_, unfinalized := ?_ }
    · intro _
      simpa [contributions, hscheme] using hready
    · exact fun _ => hok.unfinalized (.inr (.inl hstatus))
  | signature entry hscheme hstatus hmem hfresh hverified =>
    refine { hok with signatures := ?_, verified := ?_, early := ?_, enough := ?_, unfinalized := ?_ }
    · rw [List.map_append]
      exact hok.signatures.append hmem hfresh
    · intro other hother
      simp only [contributions, if_neg hscheme, List.mem_append, List.mem_singleton] at hother
      have hold := hok.verified other
      simp only [contributions, Verified, if_neg hscheme] at hold ⊢
      rcases hother with hother | rfl
      · exact hold hother
      · exact hverified
    · intro hearly
      dsimp only at hearly
      split at hearly
      · cases hearly
      · rw [hstatus] at hearly
        cases hearly
    · intro hready
      simp only [contributions, if_neg hscheme]
      by_contra hfew
      simp only [IsReady, if_neg hfew, hstatus] at hready
      rcases hready with hready | hready | hready <;> cases hready
    · exact fun _ => hok.unfinalized (.inr (.inl hstatus))
  | finalize txHex txid hstatus =>
    refine { hok with early := nofun, enough := ?_, unfinalized := ?_ }
    · exact fun _ => hok.enough (.inl hstatus)
    · rintro (h | h | h) <;> cases h
  | broadcast txid hstatus =>
    refine { hok with early := nofun, enough := ?_, unfinalized := ?_ }
    · exact fun _ => hok.enough (.inr (.inl hstatus))
    · rintro (h | h | h) <;> cases h
  | cancel hcancelled hbroadcast =>
    refine { hok with early := nofun, enough := ?_, unfinalized := ?_ }
    · rintro (h | h | h) <;> cases h
    · rintro (h | h | h) <;> cases h

/-- A record that follows by edits, by induction on the edits. -/
theorem of_edits (hok : s.Ok p) (hpath : ReflTransGen (MultisigEdit p) s s') :
    s'.Ok p ∧ s.Grows s' := by
  induction hpath with
  | refl => exact ⟨hok, .refl s⟩
  | tail _ hedit ih => exact ⟨ok_of_edit hedit ih.1, ih.2.trans (grows_of_edit hedit ih.1)⟩

/-- A new session. -/
theorem ok_of_create {id : String} {input : MultisigSessionInput}
    (h : createMultisigSigningSession id input = .ok s) : s.Ok p := by
  simp only [createMultisigSigningSession, bind_eq_ok, pure_eq_ok] at h
  obtain ⟨-, -, -, -, -, -, -, -, -, -, rfl⟩ := h
  have hnone := onePerCosigner_nil
  refine ⟨hnone _, hnone _, hnone _, ?_, fun _ => rfl, ?_, fun _ => rfl⟩
  · simp [contributions]
  · intro hready
    simp only [IsReady] at hready
    split at hready <;> simp at hready

end MultisigSigningSession

/-! ### Runs -/

abbrev MultisigWorld :=
  Versioned.World MultisigSigningSession MultisigCall MultisigError MultisigQuestion SdkAnswer

/-- What a contribution that has resolved put into the record is in it. -/
def MultisigCall.Counted (s : MultisigSigningSession) : MultisigCall → Prop
  | contributeNonce pubkey publicNonceHex =>
    ⟨lowerHex pubkey, lowerHex publicNonceHex⟩ ∈ s.nonces
  | contributeSignature _ pubkey signatureHex =>
    ⟨lowerHex pubkey, lowerHex signatureHex⟩ ∈
      if s.scheme = .taprootMusig2 then s.partialSigs else s.signatures
  | _ => True

theorem MultisigCall.counted_of_done {call : MultisigCall} {r s : MultisigSigningSession}
    (hdone : call.Done r) (hgrows : r.Grows s) : call.Counted s := by
  cases call with
  | contributeNonce pubkey publicNonceHex => exact hgrows.nonces hdone
  | contributeSignature registry pubkey signatureHex =>
    simp only [Counted, hgrows.scheme]
    simp only [Done] at hdone
    split at hdone
    · rename_i hscheme
      rw [if_pos hscheme]
      exact hgrows.partialSigs hdone
    · rename_i hscheme
      rw [if_neg hscheme]
      exact hgrows.signatures hdone
  | cancel | aggregate registry | finalize registry txHex txid | broadcast registry => trivial

/-- What is promised of the stored record `s'`, and of it against an earlier one. -/
def SessionSafe (p : MultisigPlatform K) (earlier later : MultisigWorld) : Prop :=
  ∃ s s', earlier.stored = some s ∧ later.stored = some s' ∧ s'.Ok p ∧ s.Grows s' ∧
    ∀ entry ∈ later.resolved, entry.1.Counted s'

/-- **An undisturbed session moves forward and loses nothing.** -/
theorem sessionSafe_of_undisturbed (p : MultisigPlatform K) (sessionId : String) (home : ℕ → ℕ)
    (webLocks : ℕ → Bool) {id : String} {input : MultisigSessionInput}
    {s₀ : MultisigSigningSession} (hcreate : createMultisigSigningSession id input = .ok s₀)
    {w u v : MultisigWorld} (hfresh : Fresh s₀ w) {as bs : List (Versioned.Act MultisigCall SdkAnswer)}
    (has : run (Versioned.World.step (multisigSystem p sessionId home webLocks)) w as = some u)
    (hbs : run (Versioned.World.step (multisigSystem p sessionId home webLocks)) u bs = some v)
    (hguard : Transition.Under (Undisturbed (multisigSystem p sessionId home webLocks))
      (Versioned.World.step (multisigSystem p sessionId home webLocks)) w as)
    (hguard' : Transition.Under (Undisturbed (multisigSystem p sessionId home webLocks))
      (Versioned.World.step (multisigSystem p sessionId home webLocks)) u bs) :
    SessionSafe p u v := by
  have hinv : Versioned.Inv (multisigSystem p sessionId home webLocks) (MultisigEdit p)
      MultisigCall.Done s₀ w := hfresh.inv
  have hu := inv_of_run (sound_change (p := p)) hinv hguard has
  have hv := inv_of_run (sound_change (p := p)) hu hguard' hbs
  obtain ⟨s, s', hs, hs', hpath⟩ := stored_of_run (sound_change (p := p)) hu hguard' hbs
  have hpast : ReflTransGen (MultisigEdit p) s₀ s := by
    obtain ⟨t, ht, hpast⟩ := hu.stored
    rwa [Option.some.inj (ht.symm.trans hs)] at hpast
  have hok₀ : s₀.Ok p := MultisigSigningSession.ok_of_create hcreate
  obtain ⟨hok, -⟩ := MultisigSigningSession.of_edits hok₀ hpast
  obtain ⟨hok', hgrows⟩ := MultisigSigningSession.of_edits hok hpath
  refine ⟨s, s', hs, hs', hok', hgrows, ?_⟩
  intro entry hentry
  obtain ⟨⟨hbefore, t, ht, hafter⟩, hdone⟩ := hv.resolved entry hentry
  obtain rfl : t = s' := Option.some.inj (ht.symm.trans hs')
  obtain ⟨hok, -⟩ := MultisigSigningSession.of_edits hok₀ hbefore
  exact MultisigCall.counted_of_done hdone (MultisigSigningSession.of_edits hok hafter).2

/-! ### A reload under a change -/

/-- So many bytes of a number, in hex. -/
private def numberHex (bytes n : ℕ) : HexText := Wire.hexOf (Wire.leBytes bytes n).reverse

private def keyA : HexText :=
  numberHex 33 0x0279be667ef9dcbbac55a06295ce870b07029bfcdb2dce28d959f2815b16f81798

private def keyB : HexText :=
  numberHex 33 0x02c6047f9441ed7d6d3045406e95c07cd85c778e4b8cef3ca7abac09b95c709ee5

private def hashToSign : HexText :=
  numberHex 32 0x1111111111111111111111111111111111111111111111111111111111111111

private def sigA : HexText :=
  numberHex 71 0x3045022100e493dbf1c10d80f3581e4904930b1404cc6c13900ee0758474fa94abe8c4cd1302203d693b40b487a4811a4bd68569070945775f492847fc61a56182e96f3e757789

private def sigB : HexText :=
  numberHex 70 0x304402202f8bde4d1a07209355b4a7250a5c5128e88b84bddc619ab7cba8d569b240efe40220166e8f88a76caa0b25b213123ac1f0ad606e6bb5c1f7414cee7a25941783c9c5

/-- No chain has an SDK, and two signatures of the hash verify. -/
private def twoSigners : MultisigPlatform Unit where
  sdks := fun _ => none
  isPoint := fun _ => false
  isEcdsaSignature := fun sig msgHash pubkey =>
    msgHash = hashToSign ∧ (sig = sigA ∧ pubkey = keyA ∨ sig = sigB ∧ pubkey = keyB)

private def twoOfTwo : MultisigSessionInput where
  chainId := "BTC"
  scheme := .p2wshMultisig
  threshold := 2
  cosignerPubkeys := [keyA, keyB]
  msgHash := hashToSign
  psbtHex := []

private def twoOfTwoSession : MultisigSigningSession where
  id := "s"
  chainId := "BTC"
  scheme := .p2wshMultisig
  threshold := 2
  cosignerPubkeys := [keyA, keyB]
  msgHash := hashToSign
  psbtHex := []
  nonces := []
  aggNonce := none
  partialSigs := []
  aggregatedSchnorrSig := none
  signatures := []
  status := .collectingSigs
  finalizedTxHex := none
  txid := none

private theorem created_twoOfTwo :
    createMultisigSigningSession "s" twoOfTwo = .ok twoOfTwoSession := by
  decide

/-- Two windows, each with a handle that has read the session. -/
private def twoWindows : MultisigWorld where
  stored := some twoOfTwoSession
  version := 0
  handles := fun _ => ⟨.opened, some twoOfTwoSession, 0, none⟩
  waiting := fun _ => []
  running := fun _ => none
  holder := none
  resolved := []

private theorem fresh_twoWindows : Fresh twoOfTwoSession twoWindows where
  stored := rfl
  seen_le := fun _ => Nat.le_refl _
  writing := fun _ => rfl
  doc := fun _ _ => rfl
  running := fun _ => rfl
  waiting := fun _ => rfl
  resolved := rfl

/-- A contribution from its call to its end. -/
private def contribution (h : ℕ) (pubkey sig : HexText) : List (Versioned.Act MultisigCall SdkAnswer) :=
  [.request h (.contributeSignature false pubkey sig), .acquire h, .read h, .beginPut h,
    .saved h (.settled .rejects), .settle h]

/-- A second window contributes on the record that it has, while a write of other records is under
way; that write meets the conflict and loads the document anew. -/
private def staleContribution : List (Versioned.Act MultisigCall SdkAnswer) :=
  [.beginOther 0] ++ contribution 1 keyA sigA ++
    [.request 0 (.contributeSignature false keyB sigB), .acquire 0, .read 0,
      .saved 0 (.settled .rejects), .beginPut 0, .saved 0 (.settled .rejects), .settle 0]

private abbrev twoWindowsStep :
    MultisigWorld → Versioned.Act MultisigCall SdkAnswer → Option MultisigWorld :=
  Versioned.World.step (multisigSystem twoSigners "s" (fun h => h) (fun _ => true))

private theorem run_staleContribution : (run twoWindowsStep twoWindows staleContribution).map
        (fun v => (v.stored, v.resolved.map Prod.fst)) =
      some (some { twoOfTwoSession with signatures := [⟨keyB, sigB⟩] },
        [.contributeSignature false keyB sigB, .contributeSignature false keyA sigA]) := by
  decide +kernel

/-- Both windows are told that their signature counts, and the record has one of them. -/
theorem not_sessionSafe_staleContribution :
    ¬∀ v, run twoWindowsStep twoWindows staleContribution = some v →
      SessionSafe twoSigners twoWindows v := by
  intro hsafe
  obtain ⟨v, hv, hends⟩ := Option.map_eq_some_iff.mp run_staleContribution
  obtain ⟨hstored, hresolved⟩ := Prod.mk.inj hends
  obtain ⟨s, s', -, hs', -, -, hcounted⟩ := hsafe v hv
  obtain rfl := Option.some.inj (hs'.symm.trans hstored)
  have hmem : MultisigCall.contributeSignature false keyA sigA ∈ v.resolved.map Prod.fst := by
    rw [hresolved]
    exact List.mem_cons_of_mem _ List.mem_cons_self
  obtain ⟨entry, hentry, hcall⟩ := List.mem_map.mp hmem
  have hlost := hcounted entry hentry
  rw [hcall] at hlost
  exact absurd hlost (by unfold MultisigCall.Counted; decide)

private theorem isSome_contribution :
    (run twoWindowsStep twoWindows (contribution 1 keyA sigA)).isSome := by
  decide +kernel

/-- One window contributes, and the other has nothing under way. -/
theorem sessionSafe_contribution :
    SessionSafe twoSigners twoWindows
      ((run twoWindowsStep twoWindows (contribution 1 keyA sigA)).get
        isSome_contribution) :=
  sessionSafe_of_undisturbed twoSigners "s" (fun h => h) (fun _ => true) created_twoOfTwo
    fresh_twoWindows (run_nil _) (Option.some_get isSome_contribution).symm trivial
    (by decide +kernel)

end XchainWallet
