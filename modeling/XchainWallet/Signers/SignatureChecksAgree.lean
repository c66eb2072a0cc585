import XchainWallet.Signers.TxSignatures

/-!
# The two signature checks agree

A device's reply is checked by `assertInputSignaturesVerify`, which goes by the script types of
the PSBT, and a transaction from elsewhere by `assertTxSignaturesVerify`, which goes by the scripts
of the coins. `signature_checks_agree`: what the first accepts of a reply that matches its PSBT,
the second accepts too, and on inputs whose script type is the one of their coin the first accepts
what the second does. The one way out is a redeem script that has the hash of another.
-/

namespace XchainWallet

open Wire Checks

/-! ### Scripts -/

theorem between_eq_some {before after script inner : List UInt8} {n : ℕ} :
    between before n after script = some inner ↔
      script = before ++ (inner ++ after) ∧ inner.length = n := by
  simp only [between]
  constructor
  · intro h
    split_ifs at h with hscript
    obtain ⟨⟩ := h
    exact hscript
  · rintro ⟨rfl, rfl⟩
    simp

/-- Texts of different lengths are of different kinds. -/
theorem between_eq_none {before after script : List UInt8} {n : ℕ}
    (h : script.length ≠ before.length + n + after.length) : between before n after script = none := by
  refine Option.eq_none_iff_forall_not_mem.mpr fun inner hinner => h ?_
  obtain ⟨rfl, rfl⟩ := between_eq_some.mp hinner
  simp only [List.length_append]
  omega

private theorem pushHeader_true {script rest : List UInt8} {size : ℕ}
    (h : pushHeader false script = some (size, rest)) :
    pushHeader true script = some (size, rest) := by
  cases script with
  | nil => cases h
  | cons op tail =>
    by_cases hop : op = 0x00
    · rw [pushHeader, if_pos hop] at h
      cases h
    · rw [pushHeader, if_neg hop] at h ⊢
      exact h

private theorem pushHeader_false {script rest : List UInt8} {size : ℕ}
    (h : pushHeader true script = some (size, rest)) (hsize : size ≠ 0) :
    pushHeader false script = some (size, rest) := by
  cases script with
  | nil => cases h
  | cons op tail =>
    by_cases hop : op = 0x00
    · rw [pushHeader, if_pos hop] at h
      cases h
      exact absurd rfl hsize
    · rw [pushHeader, if_neg hop] at h ⊢
      exact h

private theorem pushes_eq_nil {zeroPush : Bool} {script : List UInt8}
    (h : pushes zeroPush script = some []) : script = [] := by
  by_contra hne
  rw [pushes, if_neg hne] at h
  split at h
  · cases h
  · split_ifs at h
    simp at h

variable {items : List (List UInt8)}

private theorem pushes_eq_cons {zeroPush : Bool} {script item : List UInt8} :
    pushes zeroPush script = some (item :: items) ↔ ∃ size rest,
      pushHeader zeroPush script = some (size, rest) ∧ size ≤ rest.length ∧
        item = rest.take size ∧ pushes zeroPush (rest.drop size) = some items := by
  constructor
  · intro h
    by_cases hnil : script = []
    · rw [pushes, if_pos hnil] at h
      cases h
    · rw [pushes, if_neg hnil] at h
      split at h
      · cases h
      · next size rest hheader =>
        split_ifs at h with hsize
        obtain ⟨more, hmore, heq⟩ := Option.map_eq_some_iff.mp h
        obtain ⟨rfl, rfl⟩ := List.cons.inj heq
        exact ⟨size, rest, hheader, Nat.le_of_not_lt hsize, rfl, hmore⟩
  · rintro ⟨size, rest, hheader, hsize, rfl, hmore⟩
    have hnil : script ≠ [] := by
      rintro rfl
      cases hheader
    rw [pushes, if_neg hnil]
    split
    · next hnone =>
      rw [hheader] at hnone
      cases hnone
    · next size' rest' hheader' =>
      rw [hheader] at hheader'
      cases hheader'
      rw [if_neg (Nat.not_lt.mpr hsize), hmore, Option.map_some]

private theorem pushes_nil (zeroPush : Bool) : pushes zeroPush [] = some [] := by
  rw [pushes, if_pos rfl]

/-- What is made of data pushes alone, both readers take apart alike. -/
theorem pushItems_of_scriptPushes {script : List UInt8} (h : scriptPushes script = some items) :
    pushItems script = some items := by
  unfold scriptPushes at h
  unfold pushItems
  induction items generalizing script with
  | nil => rw [pushes_eq_nil h, pushes_nil]
  | cons item items ih =>
    obtain ⟨size, rest, hheader, hsize, hitem, hmore⟩ := pushes_eq_cons.mp h
    exact pushes_eq_cons.mpr ⟨size, rest, pushHeader_true hheader, hsize, hitem, ih hmore⟩

/-- Where no item is empty, there was no `OP_0`. -/
theorem scriptPushes_of_pushItems {script : List UInt8} (h : pushItems script = some items)
    (hne : ∀ item ∈ items, item ≠ []) :
    scriptPushes script = some items := by
  unfold pushItems at h
  unfold scriptPushes
  induction items generalizing script with
  | nil => rw [pushes_eq_nil h, pushes_nil]
  | cons item items ih =>
    obtain ⟨size, rest, hheader, hsize, hitem, hmore⟩ := pushes_eq_cons.mp h
    have hpositive : size ≠ 0 := by
      rintro rfl
      exact hne item (.head _) hitem
    have hrest := ih hmore fun item hitem => hne item (.tail _ hitem)
    exact pushes_eq_cons.mpr ⟨size, rest, pushHeader_false hheader hpositive, hsize, hitem, hrest⟩

private theorem oneItem_eq_some {item : List UInt8} :
    oneItem items = some item ↔ items = [item] := by
  unfold oneItem
  split <;> simp_all

private theorem twoItems_eq_some {first second : List UInt8} :
    twoItems items = some (first, second) ↔ items = [first, second] := by
  unfold twoItems
  split <;> simp_all

namespace Crypto

variable {crypto : Crypto} {tx : RawTx} {i : ℕ}

/-! ### What the branches check -/

/-- A witness of a signature and a key that spend a p2wpkh program. -/
def KeyWitness (crypto : Crypto) (tx : RawTx) (i : ℕ) (witness : List (List UInt8))
    (value : SatAmount) (sighash : ℕ) (keyHash : List UInt8) : Prop :=
  ∃ sig pubkey amount, witness = [sig, pubkey] ∧ pubkey.length = 33 ∧ isPubkey pubkey ∧
    crypto.hash160 pubkey = keyHash ∧ exactSats? value = some amount ∧
    crypto.checkSignature sig pubkey (crypto.bip143Digest tx i (p2pkhScript keyHash) amount)
      sighash = none

/-- A scriptSig of a signature and a key that spend a p2pkh script, under a reader of pushes. -/
def KeyScriptSig (crypto : Crypto) (readPushes : List UInt8 → Option (List (List UInt8)))
    (tx : RawTx) (i : ℕ) (signature : InputSignature) (script : List UInt8) (sighash : ℕ)
    (keyHash : List UInt8) : Prop :=
  ∃ sig pubkey, readPushes signature.scriptSig = some [sig, pubkey] ∧
    (∀ item ∈ signature.witness, item = []) ∧ isPubkey pubkey ∧ crypto.hash160 pubkey = keyHash ∧
    crypto.checkSignature sig pubkey (crypto.legacyDigest tx i script) sighash = none

theorem throwReason_eq_ok {reason : Option String} :
    throwReason reason = .ok () ↔ reason = none := by
  cases reason <;> simp [throwReason]

theorem checkWitnessKey_eq_ok {witness : List (List UInt8)} {want : Prevout}
    {keyHash : List UInt8} :
    crypto.checkWitnessKey tx i witness want keyHash = .ok () ↔
      crypto.KeyWitness tx i witness want.value (want.sighashType.getD sighashAll) keyHash := by
  simp only [checkWitnessKey, segwitDigest, KeyWitness, bind_eq_ok, orRefuse_eq_ok, refuseIf_eq_ok,
    throwReason_eq_ok, not_or, not_not, Bool.not_eq_true', Bool.not_eq_false]
  constructor
  · rintro ⟨⟨sig, pubkey⟩, hitems, _, ⟨hlength, hkey, hhash⟩, digest, ⟨amount, hamount, hdigest⟩,
      hcheck⟩
    cases hdigest
    exact ⟨sig, pubkey, amount, twoItems_eq_some.mp hitems, hlength, hkey, hhash, hamount, hcheck⟩
  · rintro ⟨sig, pubkey, amount, hitems, hlength, hkey, hhash, hamount, hcheck⟩
    exact ⟨(sig, pubkey), twoItems_eq_some.mpr hitems, (), ⟨hlength, hkey, hhash⟩, _,
      ⟨amount, hamount, rfl⟩, hcheck⟩

variable {signature : InputSignature}

theorem checkP2pkh_eq_ok {want : Prevout} {script keyHash : List UInt8} :
    crypto.checkP2pkh tx i signature want script keyHash = .ok () ↔
      crypto.KeyScriptSig pushItems tx i signature script (want.sighashType.getD sighashAll)
        keyHash := by
  simp only [checkP2pkh, KeyScriptSig, bind_eq_ok, orRefuse_eq_ok, refuseIf_eq_ok,
    throwReason_eq_ok, not_or, not_not, not_exists, not_and, Bool.not_eq_true', Bool.not_eq_false,
    Option.bind_eq_some_iff]
  constructor
  · rintro ⟨⟨sig, pubkey⟩, ⟨items, hitems, htwo⟩, _, hwitness, _, ⟨hkey, hhash⟩, hcheck⟩
    rw [twoItems_eq_some.mp htwo] at hitems
    exact ⟨sig, pubkey, hitems, hwitness, hkey, hhash, hcheck⟩
  · rintro ⟨sig, pubkey, hitems, hwitness, hkey, hhash, hcheck⟩
    exact ⟨(sig, pubkey), ⟨_, hitems, rfl⟩, (), hwitness, (), ⟨hkey, hhash⟩, hcheck⟩

/-- What `checkInput` checks of an input, by the script type that the PSBT gives it. -/
def InputSpends (crypto : Crypto) (tx : RawTx) (i : ℕ) (signature : InputSignature)
    (want : DecomposedPsbtInput) : Prop :=
  let script := scriptBytes (lowerCase want.prevScript)
  let sighash := want.sighashType.getD sighashAll
  match want.scriptType with
  | .p2pkh => ∃ keyHash, p2pkhKeyHash script = some keyHash ∧
      crypto.KeyScriptSig scriptPushes tx i signature script sighash keyHash
  | .p2wpkh => signature.scriptSig = [] ∧ ∃ keyHash, p2wpkhKeyHash script = some keyHash ∧
      crypto.KeyWitness tx i signature.witness want.value sighash keyHash
  | .p2shP2wpkh => ∃ program keyHash, scriptPushes signature.scriptSig = some [program] ∧
      p2shScriptHash script = some (crypto.hash160 program) ∧
      p2wpkhKeyHash program = some keyHash ∧
      crypto.KeyWitness tx i signature.witness want.value sighash keyHash
  | _ => False

private theorem witnessDigest_eq_ok {want : DecomposedPsbtInput} {program : List UInt8}
    {sighash : ℕ} :
    (∃ signed, crypto.witnessDigest tx i signature want program = .ok signed ∧
      crypto.checkSignature signed.sig signed.pubkey signed.digest sighash = none) ↔
      ∃ keyHash, p2wpkhKeyHash program = some keyHash ∧
        crypto.KeyWitness tx i signature.witness want.value sighash keyHash := by
  simp only [witnessDigest, KeyWitness, bind_eq_ok, orRefuse_eq_ok, refuseIf_eq_ok, not_or, not_not,
    Bool.not_eq_true', Bool.not_eq_false]
  constructor
  · rintro ⟨_, ⟨keyHash, hprogram, ⟨sig, pubkey⟩, hitems, _, ⟨hlength, hkey, hhash⟩, amount,
      hamount, hsigned⟩, hcheck⟩
    cases hsigned
    exact ⟨keyHash, hprogram, sig, pubkey, amount, twoItems_eq_some.mp hitems, hlength, hkey, hhash,
      hamount, hcheck⟩
  · rintro ⟨keyHash, hprogram, sig, pubkey, amount, hitems, hlength, hkey, hhash, hamount, hcheck⟩
    exact ⟨_, ⟨keyHash, hprogram, (sig, pubkey), twoItems_eq_some.mpr hitems, (),
      ⟨hlength, hkey, hhash⟩, amount, hamount, rfl⟩, hcheck⟩

private theorem checkInput_iff {want : DecomposedPsbtInput} :
    crypto.checkInput tx i signature want = .ok () ↔
      ∃ signed, crypto.signedDigest tx i signature want = .ok signed ∧
        crypto.checkSignature signed.sig signed.pubkey signed.digest
          (want.sighashType.getD sighashAll) = none := by
  simp only [checkInput, mapError_eq_ok, bind_eq_ok]
  refine exists_congr fun signed => and_congr_right fun _ => ?_
  split
  · next hnone => exact iff_of_true rfl hnone
  · next reason hreason =>
    rw [hreason]
    simp

/-- **What `checkInput` accepts.** -/
theorem checkInput_eq_ok {want : DecomposedPsbtInput} :
    crypto.checkInput tx i signature want = .ok () ↔
      crypto.InputSpends tx i signature want := by
  rw [checkInput_iff]
  cases htype : want.scriptType with
  | p2pkh =>
    simp only [signedDigest, InputSpends, KeyScriptSig, htype, bind_eq_ok, orRefuse_eq_ok,
      refuseIf_eq_ok, not_or, not_not, not_exists, not_and, Bool.not_eq_true', Bool.not_eq_false,
      Option.bind_eq_some_iff]
    constructor
    · rintro ⟨_, ⟨keyHash, hscript, ⟨sig, pubkey⟩, ⟨items, hitems, htwo⟩, _, hwitness, _,
        ⟨hkey, hhash⟩, hsigned⟩, hcheck⟩
      cases hsigned
      rw [twoItems_eq_some.mp htwo] at hitems
      exact ⟨keyHash, hscript, sig, pubkey, hitems, hwitness, hkey, hhash, hcheck⟩
    · rintro ⟨keyHash, hscript, sig, pubkey, hitems, hwitness, hkey, hhash, hcheck⟩
      exact ⟨_, ⟨keyHash, hscript, (sig, pubkey), ⟨_, hitems, rfl⟩, (), hwitness, (),
        ⟨hkey, hhash⟩, rfl⟩, hcheck⟩
  | p2wpkh =>
    simp only [signedDigest, InputSpends, htype, bind_eq_ok, refuseIf_eq_ok, not_not]
    rw [← witnessDigest_eq_ok]
    constructor
    · rintro ⟨signed, ⟨_, hempty, hsigned⟩, hcheck⟩
      exact ⟨hempty, signed, hsigned, hcheck⟩
    · rintro ⟨hempty, signed, hsigned, hcheck⟩
      exact ⟨signed, ⟨(), hempty, hsigned⟩, hcheck⟩
  | p2shP2wpkh =>
    simp only [signedDigest, InputSpends, htype, bind_eq_ok, orRefuse_eq_ok, refuseIf_eq_ok,
      not_not, Option.bind_eq_some_iff]
    constructor
    · rintro ⟨signed, ⟨_, hscript, program, ⟨items, hitems, hone⟩, _, rfl, hsigned⟩, hcheck⟩
      rw [oneItem_eq_some.mp hone] at hitems
      obtain ⟨keyHash, hprogram, hwitness⟩ := witnessDigest_eq_ok.mp ⟨signed, hsigned, hcheck⟩
      exact ⟨program, keyHash, hitems, hscript, hprogram, hwitness⟩
    · rintro ⟨program, keyHash, hitems, hscript, hprogram, hwitness⟩
      obtain ⟨signed, hsigned, hcheck⟩ := witnessDigest_eq_ok.mpr ⟨keyHash, hprogram, hwitness⟩
      exact ⟨signed, ⟨_, hscript, program, ⟨_, hitems, rfl⟩, (), rfl, hsigned⟩, hcheck⟩
  | p2wsh | p2shP2wsh | p2sh | p2tr | unknown =>
    simp [signedDigest, InputSpends, htype]

/-! ### One input -/

/-- The outpoint is the one of the coin. -/
def SpendsOutpoint (got : TxInput) (want : Prevout) : Prop :=
  lowerCase want.prevTxHash = hexText got.prevTxHash ∧ want.prevTxIndex = got.prevTxIndex

section Branches

variable {prevouts : List Prevout} {got : TxInput × InputSignature} (want : Prevout)
  {keyHash scriptHash : List UInt8}

private theorem checkPrevout_p2pkh
    (hscript : p2pkhKeyHash (scriptBytes (lowerCase want.scriptPubKeyHex)) = some keyHash) :
    crypto.checkPrevout tx prevouts i got want = .ok () ↔ SpendsOutpoint got.1 want ∧
      crypto.KeyScriptSig pushItems tx i got.2 (scriptBytes (lowerCase want.scriptPubKeyHex))
        (want.sighashType.getD sighashAll) keyHash := by
  simp only [checkPrevout, bind_eq_ok, refuseIf_eq_ok, not_or, not_not, hscript]
  rw [checkP2pkh_eq_ok]
  constructor
  · rintro ⟨_, h⟩
    exact h
  · intro h
    exact ⟨(), h⟩

private theorem checkPrevout_p2wpkh
    (hscript : p2wpkhKeyHash (scriptBytes (lowerCase want.scriptPubKeyHex)) = some keyHash) :
    crypto.checkPrevout tx prevouts i got want = .ok () ↔ SpendsOutpoint got.1 want ∧
      got.2.scriptSig = [] ∧ crypto.KeyWitness tx i got.2.witness want.value
        (want.sighashType.getD sighashAll) keyHash := by
  have hlength : (scriptBytes (lowerCase want.scriptPubKeyHex)).length = 22 := by
    obtain ⟨hbytes, hhash⟩ := between_eq_some.mp hscript
    rw [hbytes]
    simp [hhash]
  have hother : p2pkhKeyHash (scriptBytes (lowerCase want.scriptPubKeyHex)) = none :=
    between_eq_none (by rw [hlength]; decide)
  simp only [checkPrevout, bind_eq_ok, refuseIf_eq_ok, not_or, not_not, hscript, hother,
    checkWitnessKey_eq_ok]
  constructor
  · rintro ⟨_, hpoint, _, h⟩
    exact ⟨hpoint, h⟩
  · rintro ⟨hpoint, h⟩
    exact ⟨(), hpoint, (), h⟩

private theorem checkPrevout_p2sh
    (hscript : p2shScriptHash (scriptBytes (lowerCase want.scriptPubKeyHex)) = some scriptHash) :
    crypto.checkPrevout tx prevouts i got want = .ok () ↔ SpendsOutpoint got.1 want ∧
      crypto.checkP2sh tx i got.2 want scriptHash = .ok () := by
  have hlength : (scriptBytes (lowerCase want.scriptPubKeyHex)).length = 23 := by
    obtain ⟨hbytes, hhash⟩ := between_eq_some.mp hscript
    rw [hbytes]
    simp [hhash]
  have hp2pkh : p2pkhKeyHash (scriptBytes (lowerCase want.scriptPubKeyHex)) = none :=
    between_eq_none (by rw [hlength]; decide)
  have hp2wpkh : p2wpkhKeyHash (scriptBytes (lowerCase want.scriptPubKeyHex)) = none :=
    between_eq_none (by rw [hlength]; decide)
  have hp2wsh : p2wshScriptHash (scriptBytes (lowerCase want.scriptPubKeyHex)) = none :=
    between_eq_none (by rw [hlength]; decide)
  simp only [checkPrevout, bind_eq_ok, refuseIf_eq_ok, not_or, not_not, hscript, hp2pkh, hp2wpkh,
    hp2wsh]
  constructor
  · rintro ⟨_, h⟩
    exact h
  · intro h
    exact ⟨(), h⟩

/-- A p2sh coin that is spent by a p2wpkh program. -/
private theorem checkP2sh_program {signature : InputSignature} {program : List UInt8}
    (hprogram : p2wpkhKeyHash program = some keyHash) :
    (∃ items, pushItems signature.scriptSig = some items ∧ items.getLast? = some program ∧
        crypto.checkP2sh tx i signature want scriptHash = .ok ()) ↔
      pushItems signature.scriptSig = some [program] ∧ crypto.hash160 program = scriptHash ∧
        crypto.KeyWitness tx i signature.witness want.value (want.sighashType.getD sighashAll)
          keyHash := by
  simp only [checkP2sh, bind_eq_ok, orRefuse_eq_ok, refuseIf_eq_ok, not_not,
    Option.filter_eq_some_iff, decide_eq_true_eq]
  constructor
  · rintro ⟨items, hitems, hlast, _, ⟨hitems', hne⟩, _, hhash, hbranch⟩
    rw [hitems] at hitems'
    obtain ⟨⟩ := hitems'
    have hlast' : items.getLastD [] = program := by
      rw [List.getLastD_eq_getLast?, hlast, Option.getD_some]
    rw [hlast'] at hhash hbranch
    simp only [hprogram, bind_eq_ok, refuseIf_eq_ok, not_not, checkWitnessKey_eq_ok] at hbranch
    obtain ⟨_, hone, hwitness⟩ := hbranch
    obtain ⟨item, rfl⟩ := List.length_eq_one_iff.mp hone
    obtain rfl : item = program := Option.some.inj hlast
    exact ⟨hitems, hhash, hwitness⟩
  · rintro ⟨hitems, hhash, hwitness⟩
    refine ⟨[program], hitems, rfl, [program], ⟨hitems, by simp⟩, (), hhash, ?_⟩
    simp only [List.getLastD_cons, List.getLastD_nil, hprogram, bind_eq_ok, refuseIf_eq_ok, not_not,
      checkWitnessKey_eq_ok]
    exact ⟨(), rfl, hwitness⟩

private theorem redeem_of_checkP2sh {signature : InputSignature}
    (h : crypto.checkP2sh tx i signature want scriptHash = .ok ()) :
    ∃ items redeem, pushItems signature.scriptSig = some items ∧ items.getLast? = some redeem ∧
      crypto.hash160 redeem = scriptHash := by
  simp only [checkP2sh, bind_eq_ok, orRefuse_eq_ok, refuseIf_eq_ok, not_not,
    Option.filter_eq_some_iff, decide_eq_true_eq] at h
  obtain ⟨items, ⟨hitems, hne⟩, _, hhash, -⟩ := h
  refine ⟨items, items.getLastD [], hitems, ?_, hhash⟩
  rw [List.getLastD_eq_getLast?, List.getLast?_eq_some_getLast hne, Option.getD_some]

end Branches

/-- The script type that the PSBT gives an input is the one of its coin: for a p2wpkh program behind
a script hash, `program` is the one that the coin commits to. -/
def DeclaredTypeMatches (crypto : Crypto) (want : DecomposedPsbtInput) (program : List UInt8) :
    Prop :=
  let script := scriptBytes (lowerCase want.prevScript)
  match want.scriptType with
  | .p2pkh => (p2pkhKeyHash script).isSome
  | .p2wpkh => (p2wpkhKeyHash script).isSome
  | .p2shP2wpkh => (p2wpkhKeyHash program).isSome ∧
      p2shScriptHash script = some (crypto.hash160 program)
  | _ => False

/-- The scriptSig ends in a redeem script that is not the program of its coin, and has its hash. -/
def SecondPreimage (crypto : Crypto) (signature : InputSignature) (want : DecomposedPsbtInput)
    (program : List UInt8) : Prop :=
  want.scriptType = .p2shP2wpkh ∧ ∃ items redeem, pushItems signature.scriptSig = some items ∧ items.getLast? = some redeem ∧
    redeem ≠ program ∧ crypto.hash160 redeem = crypto.hash160 program

/-- **One input, from the check of a reply**: what it accepts, the other accepts. -/
theorem checkPrevout_of_inputSpends {prevouts : List Prevout} {got : TxInput × InputSignature}
    {want : DecomposedPsbtInput} (hpoint : SpendsOutpoint got.1 want.prevout)
    (h : crypto.InputSpends tx i got.2 want) :
    crypto.checkPrevout tx prevouts i got want.prevout = .ok () := by
  cases htype : want.scriptType with
  | p2pkh =>
    simp only [InputSpends, htype] at h
    obtain ⟨keyHash, hscript, sig, pubkey, hitems, hspends⟩ := h
    exact (checkPrevout_p2pkh want.prevout hscript).mpr
      ⟨hpoint, sig, pubkey, pushItems_of_scriptPushes hitems, hspends⟩
  | p2wpkh =>
    simp only [InputSpends, htype] at h
    obtain ⟨hempty, keyHash, hscript, hwitness⟩ := h
    exact (checkPrevout_p2wpkh want.prevout hscript).mpr ⟨hpoint, hempty, hwitness⟩
  | p2shP2wpkh =>
    simp only [InputSpends, htype] at h
    obtain ⟨program, keyHash, hitems, hscript, hprogram, hwitness⟩ := h
    obtain ⟨_, _, _, hcheck⟩ := (checkP2sh_program want.prevout hprogram).mpr
      ⟨pushItems_of_scriptPushes hitems, rfl, hwitness⟩
    exact (checkPrevout_p2sh want.prevout hscript).mpr ⟨hpoint, hcheck⟩
  | p2wsh | p2shP2wsh | p2sh | p2tr | unknown => simp [InputSpends, htype] at h

/-- A signature that a check passes is not empty. -/
private theorem sig_ne_nil {sig pubkey digest : List UInt8} {sighash : ℕ}
    (h : crypto.checkSignature sig pubkey digest sighash = none) : sig ≠ [] := by
  rintro rfl
  rw [checkSignature, if_pos (by decide)] at h
  cases h

private theorem pubkey_ne_nil {pubkey : List UInt8} (h : isPubkey pubkey) : pubkey ≠ [] := by
  rintro rfl
  revert h
  decide

/-- **One input, to the check of a reply**: on an input whose script type is the one of its coin,
what the other accepts, it accepts, unless the redeem script is a second one of its hash. -/
theorem inputSpends_of_checkPrevout {prevouts : List Prevout} {got : TxInput × InputSignature}
    {want : DecomposedPsbtInput} {program : List UInt8}
    (hdeclared : crypto.DeclaredTypeMatches want program)
    (h : crypto.checkPrevout tx prevouts i got want.prevout = .ok ()) :
    crypto.InputSpends tx i got.2 want ∨ crypto.SecondPreimage got.2 want program := by
  cases htype : want.scriptType with
  | p2pkh =>
    simp only [DeclaredTypeMatches, htype] at hdeclared
    obtain ⟨keyHash, hscript⟩ := Option.isSome_iff_exists.mp hdeclared
    obtain ⟨-, sig, pubkey, hitems, hwitness, hkey, hhash, hcheck⟩ :=
      (checkPrevout_p2pkh want.prevout hscript).mp h
    have hne : ∀ item ∈ [sig, pubkey], item ≠ [] := by
      intro item hitem
      rcases List.mem_pair.mp hitem with rfl | rfl
      · exact sig_ne_nil hcheck
      · exact pubkey_ne_nil hkey
    left
    simp only [InputSpends, htype]
    exact ⟨keyHash, hscript, sig, pubkey, scriptPushes_of_pushItems hitems hne, hwitness, hkey, hhash,
      hcheck⟩
  | p2wpkh =>
    simp only [DeclaredTypeMatches, htype] at hdeclared
    obtain ⟨keyHash, hscript⟩ := Option.isSome_iff_exists.mp hdeclared
    obtain ⟨-, hempty, hwitness⟩ := (checkPrevout_p2wpkh want.prevout hscript).mp h
    left
    simp only [InputSpends, htype]
    exact ⟨hempty, keyHash, hscript, hwitness⟩
  | p2shP2wpkh =>
    simp only [DeclaredTypeMatches, htype] at hdeclared
    obtain ⟨hprogram, hscript⟩ := hdeclared
    obtain ⟨keyHash, hprogram⟩ := Option.isSome_iff_exists.mp hprogram
    obtain ⟨-, hcheck⟩ := (checkPrevout_p2sh want.prevout hscript).mp h
    obtain ⟨items, redeem, hitems, hlast, hhash⟩ := redeem_of_checkP2sh want.prevout hcheck
    by_cases hredeem : redeem = program
    · subst hredeem
      obtain ⟨hone, -, hwitness⟩ :=
        (checkP2sh_program want.prevout hprogram).mp ⟨items, hitems, hlast, hcheck⟩
      have hne : ∀ item ∈ [redeem], item ≠ [] := by
        intro item hitem
        rw [List.mem_singleton.mp hitem]
        rintro rfl
        cases hprogram
      left
      simp only [InputSpends, htype]
      exact ⟨redeem, keyHash, scriptPushes_of_pushItems hone hne, hscript, hprogram, hwitness⟩
    · exact .inr ⟨htype, items, redeem, hitems, hlast, hredeem, hhash⟩
  | p2wsh | p2shP2wsh | p2sh | p2tr | unknown => simp [DeclaredTypeMatches, htype] at hdeclared

/-! ### Whole transactions -/

private theorem assertInput_iff {txHex signerId : String} {psbt : DecomposedPsbt} :
    crypto.assertInputSignaturesVerify txHex (some psbt) signerId = .ok () ↔
      ∃ tx signatures, readSignedRawTx txHex = .ok (tx, signatures) ∧
        psbt.inputs.length = tx.inputs.length ∧ ∀ (i : ℕ) signature want,
          signatures[i]? = some signature → psbt.inputs[i]? = some want →
          crypto.InputSpends tx i signature want := by
  simp only [assertInputSignaturesVerify, mapError_eq_ok, bind_eq_ok, orRefuse_eq_ok, Option.map_some,
    Option.filter_eq_some_iff, decide_eq_true_eq, checkEach_eq_ok_iff, Nat.zero_add, checkInput_eq_ok]
  constructor
  · rintro ⟨⟨tx, signatures⟩, hread, inputs, ⟨hinputs, hlength⟩, hspends⟩
    obtain ⟨⟩ := hinputs
    exact ⟨tx, signatures, hread, hlength, hspends⟩
  · rintro ⟨tx, signatures, hread, hlength, hspends⟩
    exact ⟨(tx, signatures), hread, psbt.inputs, ⟨rfl, hlength⟩, hspends⟩

private theorem assertTx_iff {txHex signerId : String} {psbt : DecomposedPsbt} :
    crypto.assertTxSignaturesVerify txHex (some (prevoutsFromPsbt psbt)) signerId = .ok () ↔
      ∃ tx signatures, readSignedRawTx txHex = .ok (tx, signatures) ∧
        psbt.inputs.length = tx.inputs.length ∧ ∀ (i : ℕ) got want,
          (tx.inputs.zip signatures)[i]? = some got → psbt.inputs[i]? = some want →
          crypto.checkPrevout tx (prevoutsFromPsbt psbt) i got want.prevout = .ok () := by
  simp only [assertTxSignaturesVerify, mapError_eq_ok, bind_eq_ok, orRefuse_eq_ok,
    Option.filter_eq_some_iff, decide_eq_true_eq, checkEach_eq_ok_iff, Nat.zero_add]
  constructor
  · rintro ⟨⟨tx, signatures⟩, hread, prevouts, ⟨hprevouts, hlength⟩, hspends⟩
    obtain ⟨⟩ := hprevouts
    rw [prevoutsFromPsbt, List.length_map] at hlength
    refine ⟨tx, signatures, hread, hlength, fun i got want hgot hwant => ?_⟩
    refine hspends i got want.prevout hgot ?_
    rw [prevoutsFromPsbt, List.getElem?_map, hwant, Option.map_some]
  · rintro ⟨tx, signatures, hread, hlength, hspends⟩
    refine ⟨(tx, signatures), hread, prevoutsFromPsbt psbt, ⟨rfl, ?_⟩, ?_⟩
    · rw [prevoutsFromPsbt, List.length_map]
      exact hlength
    · intro i got want hgot hwant
      rw [prevoutsFromPsbt, List.getElem?_map, Option.map_eq_some_iff] at hwant
      obtain ⟨input, hinput, rfl⟩ := hwant
      exact hspends i got input hgot hinput

private theorem spendsOutpoint_of_matches {psbt : DecomposedPsbt} {signatures : List InputSignature}
    (h : SignedTxMatches tx signatures psbt) {got : TxInput × InputSignature}
    {want : DecomposedPsbtInput} (hgot : (tx.inputs.zip signatures)[i]? = some got)
    (hwant : psbt.inputs[i]? = some want) : SpendsOutpoint got.1 want.prevout := by
  obtain ⟨hi, rfl⟩ := List.getElem?_eq_some_iff.mp hgot
  obtain ⟨hi', rfl⟩ := List.getElem?_eq_some_iff.mp hwant
  have hmatch := (List.forall₂_iff_get.mp h.inputs).2 i hi hi'
  exact pointText_inj hmatch.point

/-- **The two signature checks agree.** Where `assertSignedTxMatchesPsbt` and
`assertInputSignaturesVerify` accept a reply to a PSBT, `assertTxSignaturesVerify` accepts it over
the coins of the PSBT. Where each input is of one of the three types that devices sign, and its
coin is of that type, `assertInputSignaturesVerify` accepts what `assertTxSignaturesVerify` does,
unless the reply has a redeem script that is not the program of its coin and has its hash; and so
for each such input among others. -/
theorem signature_checks_agree (crypto : Crypto) (psbt : DecomposedPsbt)
    (txHex signerId : String) :
    (assertSignedTxMatchesPsbt txHex (some psbt) signerId = .ok () →
      crypto.assertInputSignaturesVerify txHex (some psbt) signerId = .ok () →
      crypto.assertTxSignaturesVerify txHex (some (prevoutsFromPsbt psbt)) signerId = .ok ()) ∧
    (∀ program : DecomposedPsbtInput → List UInt8,
      (∀ want ∈ psbt.inputs, crypto.DeclaredTypeMatches want (program want)) →
      crypto.assertTxSignaturesVerify txHex (some (prevoutsFromPsbt psbt)) signerId = .ok () →
      crypto.assertInputSignaturesVerify txHex (some psbt) signerId = .ok () ∨
        ∃ tx signatures, readSignedRawTx txHex = .ok (tx, signatures) ∧ ∃ signature ∈ signatures,
          ∃ want ∈ psbt.inputs, crypto.SecondPreimage signature want (program want)) ∧
    (∀ (tx : RawTx) (i : ℕ) (got : TxInput × InputSignature) (want : DecomposedPsbtInput)
      (program : List UInt8), crypto.DeclaredTypeMatches want program →
      crypto.checkPrevout tx (prevoutsFromPsbt psbt) i got want.prevout = .ok () →
      crypto.checkInput tx i got.2 want = .ok () ∨ crypto.SecondPreimage got.2 want program) := by
  refine ⟨?_, ?_, ?_⟩
  · intro hsigned hinput
    obtain ⟨_, tx, signatures, hpsbt, hread, hmatch⟩ := assertSignedTxMatchesPsbt_iff.mp hsigned
    obtain ⟨⟩ := hpsbt
    obtain ⟨_, _, hread', hlength, hspends⟩ := assertInput_iff.mp hinput
    rw [hread] at hread'
    cases hread'
    refine assertTx_iff.mpr ⟨tx, signatures, hread, hlength, fun i got want hgot hwant => ?_⟩
    have hsignature : signatures[i]? = some got.2 := (List.getElem?_zip_eq_some.mp hgot).2
    exact checkPrevout_of_inputSpends (spendsOutpoint_of_matches hmatch hgot hwant)
      (hspends i got.2 want hsignature hwant)
  · intro program hdeclared htx
    obtain ⟨tx, signatures, hread, hlength, hspends⟩ := assertTx_iff.mp htx
    by_cases hcollide : ∃ signature ∈ signatures, ∃ want ∈ psbt.inputs,
        crypto.SecondPreimage signature want (program want)
    · exact .inr ⟨tx, signatures, hread, hcollide⟩
    · left
      refine assertInput_iff.mpr ⟨tx, signatures, hread, hlength, ?_⟩
      intro i signature want hsignature hwant
      obtain ⟨hi, -⟩ := List.getElem?_eq_some_iff.mp hwant
      have hi' : i < tx.inputs.length := by omega
      have hinput : tx.inputs[i]? = some tx.inputs[i] := List.getElem?_eq_getElem hi'
      have hgot := List.getElem?_zip_eq_some (z := (_, signature)).mpr ⟨hinput, hsignature⟩
      have hmem := List.mem_of_getElem? hwant
      have hcheck := hspends i _ want hgot hwant
      refine (inputSpends_of_checkPrevout (hdeclared want hmem) hcheck).resolve_right ?_
      exact fun hsecond => hcollide ⟨signature, List.mem_of_getElem? hsignature, want, hmem, hsecond⟩
  · intro tx i got want program hdeclared hcheck
    rw [checkInput_eq_ok]
    exact inputSpends_of_checkPrevout hdeclared hcheck

end Crypto

end XchainWallet
