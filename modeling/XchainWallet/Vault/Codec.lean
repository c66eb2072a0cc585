import XchainWallet.Vault.Document

/-!
# The document codec

`encodeDocument` seals the JSON text of a document under the master key and
`decodeDocument` opens it again. The cipher is a parameter: `Aead` states what the codec
relies on, that the sealing key opens a box again and that no other key opens it. The vault's
additional data is the same for both directions and is part of the parameter.

A `SealedBlob` is a blob that `encodeDocument` made, remembered with what it was made from.
The code only ever sees its `bytes`, and these determine the key and the document
(`SealedBlob.eq_of_bytes_eq`), so equal bytes are equal documents.
-/

namespace XchainWallet

/-- Authenticated encryption, as `crypto/aead.js` presents it. A box is made under a key and
a nonce; opening it under the same key gives the text back, under any other key it fails. -/
structure Aead (κ π β : Type) where
  encrypt : κ → ℕ → π → β
  decrypt : κ → β → Option π
  decrypt_encrypt : ∀ k n p, decrypt k (encrypt k n p) = some p
  key_of_decrypt : ∀ {k k' n p p'}, decrypt k' (encrypt k n p) = some p' → k' = k

/-- The JSON object that a blob decrypts to. A document of an older build may lack
collections. -/
structure ParsedDocument (ν : Type) where
  documentVersion : ℕ
  collection : Collection → Option (List (VaultRecord ν))
  settings : Option ν

instance {ν : Type} [DecidableEq ν] : DecidableEq (ParsedDocument ν) := fun p q =>
  decidable_of_iff
    (p.documentVersion = q.documentVersion ∧
      (∀ c ∈ documentArrayKeys, p.collection c = q.collection c) ∧ p.settings = q.settings)
    ⟨fun ⟨hv, hc, hs⟩ => by
      obtain ⟨v, f, s⟩ := p
      obtain ⟨v', f', s'⟩ := q
      obtain rfl : f = f' := funext fun c => hc c (mem_documentArrayKeys c)
      obtain rfl : v = v' := hv
      obtain rfl : s = s' := hs
      rfl, fun h => h ▸ ⟨rfl, fun _ _ => rfl, rfl⟩⟩

/-- A cipher that keeps the key beside the text satisfies the laws. -/
def Aead.transparent (κ π : Type) [DecidableEq κ] : Aead κ π (κ × ℕ × π) where
  encrypt k n p := (k, n, p)
  decrypt k b := if b.1 = k then some b.2.2 else none
  decrypt_encrypt k n p := if_pos rfl
  key_of_decrypt {k k' n p p'} h := by
    by_contra hne
    rw [if_neg (Ne.symm hne)] at h
    cases h

/-- `DOCUMENT_VERSION`. -/
def documentVersion : ℕ := 1

/-- The ways in which the codec fails. -/
inductive CodecError
  | badKey
  | authentication
  | unsupportedVersion (found : ℕ)
deriving DecidableEq, Repr

def CodecError.message : CodecError → String
  | .badKey => "aead: key must be a 32-byte Uint8Array"
  | .authentication => "aead: authentication failed"
  | .unsupportedVersion found =>
    s!"codec: unsupported documentVersion {found} (expected {documentVersion})"

/-- `JSON.stringify(document)`. -/
def stringify {ν : Type} (document : VaultDocument ν) : ParsedDocument ν :=
  { documentVersion := documentVersion,
    collection := fun c => some (document.collection c),
    settings := document.settings }

/-- What `encodeDocument` made a blob from. -/
structure SealedBlob (κ ν : Type) where
  key : κ
  nonce : ℕ
  document : VaultDocument ν

section Codec

variable {κ ν β : Type} (aead : Aead κ (ParsedDocument ν) β)

/-- The bytes of a blob, all that a backend or another handle sees of it. -/
def SealedBlob.bytes (blob : SealedBlob κ ν) : β :=
  aead.encrypt blob.key blob.nonce (stringify blob.document)

/-- `encodeDocument(masterKey, document)`; a cleared key fails the cipher's key check. -/
def encodeDocument (masterKey : Option κ) (nonce : ℕ) (document : VaultDocument ν) :
    Except CodecError (SealedBlob κ ν) :=
  match masterKey with
  | none => .error .badKey
  | some key => .ok { key := key, nonce := nonce, document := document }

/-- `decodeDocument(masterKey, blob)`. -/
def decodeDocument (masterKey : Option κ) (blob : β) : Except CodecError (VaultDocument ν) :=
  match masterKey with
  | none => .error .badKey
  | some key =>
    match aead.decrypt key blob with
    | none => .error .authentication
    | some parsed =>
      if parsed.documentVersion ≠ documentVersion then
        .error (.unsupportedVersion parsed.documentVersion)
      else .ok
        { collection := fun c => (parsed.collection c).getD (emptyDocument (ν := ν).collection c),
          settings := parsed.settings }

variable {aead}

theorem encodeDocument_eq_ok {masterKey : Option κ} {nonce : ℕ} {document : VaultDocument ν}
    {blob : SealedBlob κ ν} (h : encodeDocument masterKey nonce document = .ok blob) :
    masterKey = some blob.key ∧ blob.document = document := by
  cases masterKey with
  | none => cases h
  | some key => exact Except.ok.inj h ▸ ⟨rfl, rfl⟩

/-- The key that sealed a blob opens it to the document it was made from. -/
theorem decodeDocument_bytes (blob : SealedBlob κ ν) :
    decodeDocument aead (some blob.key) (blob.bytes aead) = .ok blob.document := by
  simp only [decodeDocument, SealedBlob.bytes, aead.decrypt_encrypt, stringify, ne_eq,
    not_true_eq_false, if_false, Option.getD_some]

/-- **Only the key that sealed a blob opens it.** -/
theorem decodeDocument_eq_ok {masterKey : Option κ} {blob : SealedBlob κ ν}
    {document : VaultDocument ν} (h : decodeDocument aead masterKey (blob.bytes aead) = .ok document) :
    masterKey = some blob.key ∧ document = blob.document := by
  have hkey : masterKey = some blob.key := by
    cases masterKey with
    | none => cases h
    | some key =>
      rw [decodeDocument] at h
      split at h
      · cases h
      · next hparsed => rw [aead.key_of_decrypt hparsed]
  subst hkey
  rw [decodeDocument_bytes] at h
  exact ⟨rfl, (Except.ok.inj h).symm⟩

/-- Equal bytes were made under one key from one document. -/
theorem SealedBlob.eq_of_bytes_eq {blob blob' : SealedBlob κ ν}
    (h : blob.bytes aead = blob'.bytes aead) :
    blob.key = blob'.key ∧ blob.document = blob'.document := by
  have hdec : decodeDocument aead (some blob.key) (blob.bytes aead) = .ok blob.document :=
    decodeDocument_bytes blob
  rw [h] at hdec
  obtain ⟨hkey, hdoc⟩ := decodeDocument_eq_ok hdec
  exact ⟨Option.some.inj hkey, hdoc⟩

end Codec

end XchainWallet
