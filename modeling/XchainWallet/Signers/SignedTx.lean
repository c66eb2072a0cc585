import XchainWallet.Js.Text
import XchainWallet.Decimal.Plain
import XchainWallet.Checks.Refuse
import XchainWallet.Signers.RawTxRoundTrip

/-!
# The reply of a device against the approved PSBT

`assertSignedTxMatchesPsbt` reads the transaction that a device sends back and compares it with
the decomposition of the PSBT that the user approved. `assertSignedTxMatchesPsbt_iff` says what it
accepts (`SignedTxMatches`), and `accepted_replies_agree` that this leaves a device no choice: of
one PSBT, all accepted replies spend the same coins and pay the same outputs, whatever bytes they
are made of.
-/

namespace XchainWallet

open Wire Checks

/-! ### The decomposed PSBT -/

/-- A field that should be a number: its value, `none` where it is no finite number, and what
`String` shows of it. -/
structure NumberField where
  value : JsNumber
  shown : String

/-- A satoshi amount as the decomposition gives it. -/
inductive SatAmount
  | bigint (n : ℤ)
  | text (s : String)
  | number (field : NumberField)
  | other (shown : String)

/-- `String(value)`. -/
def SatAmount.shown : SatAmount → String
  | bigint n => toString n
  | text s => s
  | number field => field.shown
  | other shown => shown

/-- The amount as an integer, where it is an exact one: a bigint, a text of digits, or a safe
integer that is not negative. -/
def SatAmount.exactSats? : SatAmount → Option ℤ
  | bigint n => some n
  | text s => if Decimal.Digits s.toList then some (Decimal.digitsValue s.toList) else none
  | number field => field.value.bind fun q =>
      if q.den = 1 ∧ 0 ≤ q.num ∧ q.num ≤ TxCursor.maxSafeInteger then some q.num else none
  | other _ => none

inductive ScriptType
  | p2wpkh
  | p2wsh
  | p2pkh
  | p2shP2wpkh
  | p2shP2wsh
  | p2sh
  | p2tr
  | unknown
deriving DecidableEq

/-- The text of a script type. -/
def ScriptType.text : ScriptType → String
  | p2wpkh => "p2wpkh"
  | p2wsh => "p2wsh"
  | p2pkh => "p2pkh"
  | p2shP2wpkh => "p2sh-p2wpkh"
  | p2shP2wsh => "p2sh-p2wsh"
  | p2sh => "p2sh"
  | p2tr => "p2tr"
  | unknown => "unknown"

/-- `SEGWIT_SCRIPT_TYPES`. -/
def ScriptType.isSegwit (scriptType : ScriptType) : Bool :=
  scriptType ∈ [ScriptType.p2wpkh, .p2shP2wpkh, .p2wsh, .p2shP2wsh]

structure DecomposedPsbtInput where
  prevTxHash : String
  prevTxIndex : ℕ
  sequence : NumberField
  value : SatAmount
  scriptPubKeyHex : String
  scriptType : ScriptType
  sighashType : Option ℕ
  witnessUtxoScriptHex : Option String

structure DecomposedPsbtOutput where
  scriptPubKeyHex : String
  value : SatAmount

/-- `decomposePsbt(approved PSBT)`. The locktime is `none` where it is falsy. -/
structure DecomposedPsbt where
  txVersion : NumberField
  locktime : Option NumberField
  inputs : List DecomposedPsbtInput
  outputs : List DecomposedPsbtOutput

/-! ### The comparison -/

/-- An error with the status of the signer. -/
structure SignerStatusError where
  signerId : String
  status : String
  detail : String
deriving DecidableEq

def SignerStatusError.message (e : SignerStatusError) : String :=
  "Signer \"" ++ e.signerId ++ "\" is in status \"" ++ e.status ++ "\"" ++
    (if e.detail = "" then "" else ": " ++ e.detail)

/-- `refusal(detail)`. -/
def refusal (signerId detail : String) : SignerStatusError where
  signerId := signerId
  status := "error"
  detail := "the signed transaction does not match the approved PSBT: " ++ detail ++
    ". Nothing was broadcast."

/-- `exactSats(value, what)`. -/
def exactSats (value : SatAmount) (what : String) : Except String ℤ :=
  orRefuse value.exactSats? (what ++ " is not an exact satoshi amount: " ++ value.shown)

/-- `isValidSequence(sequence)`, with the number that it then is. -/
def validSequence? (sequence : NumberField) : Option ℕ :=
  sequence.value.bind fun q =>
    if q.den = 1 ∧ 0 ≤ q.num ∧ q.num ≤ 0xffffffff then some q.num.toNat else none

/-- `enablesRelativeLock(sequence)`. -/
def enablesRelativeLock (sequence : ℕ) : Bool := sequence < 0x80000000

/-- `isDeviceTxVersion(version)`. -/
def isDeviceTxVersion (version : ℤ) : Bool := version = 1 ∨ version = 2

/-- `n.toString(16)`. -/
def hexNumber (n : ℕ) : String := String.ofList (Nat.toDigits 16 n)

/-- The text of an outpoint, `txid:vout`. -/
def pointText (hash : String) (index : ℕ) : String := hash ++ ":" ++ toString index

/-- The comparison of output `i`. -/
def matchOutput (i : ℕ) (got : TxOutput) (want : DecomposedPsbtOutput) : Except String Unit := do
  let wantScript := lowerCase want.scriptPubKeyHex
  refuseIf (wantScript ≠ hexText got.scriptPubKey)
    ("output " ++ toString i ++ " pays script " ++ hexText got.scriptPubKey ++ ", the PSBT paid " ++
      wantScript)
  let wantSats ← exactSats want.value ("output " ++ toString i)
  refuseIf (wantSats ≠ got.valueSat)
    ("output " ++ toString i ++ " pays " ++ toString got.valueSat ++ " sat, the PSBT paid " ++
      toString wantSats ++ " sat")

/-- The comparison of input `i`, with its signature material. -/
def matchInput (i : ℕ) (got : TxInput × InputSignature) (want : DecomposedPsbtInput) :
    Except String Unit := do
  let wantPoint := pointText (lowerCase want.prevTxHash) want.prevTxIndex
  let gotPoint := pointText (hexText got.1.prevTxHash) got.1.prevTxIndex
  refuseIf (wantPoint ≠ gotPoint)
    ("input " ++ toString i ++ " spends " ++ gotPoint ++ ", the PSBT spent " ++ wantPoint)
  let wantSequence ← orRefuse (validSequence? want.sequence)
    ("the PSBT's input " ++ toString i ++ " sequence " ++ want.sequence.shown ++
      " is not a valid nSequence")
  refuseIf (got.1.sequence ≠ wantSequence)
    ("input " ++ toString i ++ " has sequence 0x" ++ hexNumber got.1.sequence ++
      ", the PSBT asked for 0x" ++ hexNumber wantSequence)
  refuseIf (got.2.scriptSig = [] ∧ got.2.witnessItems = 0)
    ("input " ++ toString i ++ " carries no signature")
  refuseIf (want.scriptType.isSegwit ∧ got.2.witnessItems = 0)
    ("input " ++ toString i ++ " is " ++ want.scriptType.text ++ " and carries no witness signature")

/-- `Number(decomposed.locktime || 0)`, where that is finite. -/
def wantLocktime (locktime : Option NumberField) : Except String (ℚ × String) :=
  match locktime with
  | none => .ok (0, "0")
  | some field => do
    let value ← orRefuse field.value ("the PSBT's locktime " ++ field.shown ++ " is not a number")
    pure (value, field.shown)

/-- The comparison of the versions, once all sequences are the PSBT's. -/
def matchVersion (version : ℤ) (txVersion : NumberField) (inputs : List DecomposedPsbtInput) :
    Except String Unit := do
  let wantVersion ← orRefuse (txVersion.value.filter (·.den = 1))
    ("the PSBT's version " ++ txVersion.shown ++ " is not a number")
  if version ≠ wantVersion.num then
    let differs := "it has version " ++ toString version ++ ", the PSBT asked for " ++ txVersion.shown
    refuseIf (!isDeviceTxVersion wantVersion.num || !isDeviceTxVersion version) differs
    match inputs.findIdx? fun input => (validSequence? input.sequence).any enablesRelativeLock with
    | none => pure ()
    | some locked => .error (differs ++ ", and input " ++ toString locked ++
        "'s relative timelock depends on the version")

/-- `assertSignedTxMatchesPsbt`, down to the detail of its refusal. The decomposition is `none`
where its inputs or its outputs are no array. -/
def matchSignedTx (txHex : String) (decomposed : Option DecomposedPsbt) : Except String Unit := do
  let decomposed ← orRefuse decomposed
    "the approved PSBT could not be decomposed, so there is nothing to compare against"
  let (tx, signatures) ← (readSignedRawTx txHex).mapError fun e =>
    "it could not be decoded (" ++ e.message ++ ")"
  refuseIf (tx.outputs.length ≠ decomposed.outputs.length)
    ("it pays " ++ toString tx.outputs.length ++ " output(s), the PSBT paid " ++
      toString decomposed.outputs.length)
  checkEach matchOutput 0 tx.outputs decomposed.outputs
  refuseIf (tx.inputs.length ≠ decomposed.inputs.length)
    ("it spends " ++ toString tx.inputs.length ++ " input(s), the PSBT spent " ++
      toString decomposed.inputs.length)
  checkEach matchInput 0 (tx.inputs.zip signatures) decomposed.inputs
  let (locktime, shown) ← wantLocktime decomposed.locktime
  refuseIf ((tx.locktime : ℚ) ≠ locktime)
    ("it has locktime " ++ toString tx.locktime ++ ", the PSBT asked for " ++ shown)
  matchVersion tx.version decomposed.txVersion decomposed.inputs

/-- `assertSignedTxMatchesPsbt`. -/
def assertSignedTxMatchesPsbt (txHex : String) (decomposed : Option DecomposedPsbt)
    (signerId : String) : Except SignerStatusError Unit :=
  (matchSignedTx txHex decomposed).mapError (refusal signerId)

/-! ### What is accepted -/

/-- An output is the one that the PSBT asks for. -/
structure OutputMatches (got : TxOutput) (want : DecomposedPsbtOutput) : Prop where
  script : lowerCase want.scriptPubKeyHex = hexText got.scriptPubKey
  value : want.value.exactSats? = some (got.valueSat : ℤ)

/-- An input is the one that the PSBT asks for, and it is signed. -/
structure InputMatches (got : TxInput × InputSignature) (want : DecomposedPsbtInput) : Prop where
  point : pointText (lowerCase want.prevTxHash) want.prevTxIndex =
    pointText (hexText got.1.prevTxHash) got.1.prevTxIndex
  sequence : validSequence? want.sequence = some got.1.sequence
  signed : got.2.scriptSig = [] → got.2.witnessItems ≠ 0
  witness : want.scriptType.isSegwit → got.2.witnessItems ≠ 0

/-- No input has a relative lock. -/
def NoRelativeLock (inputs : List TxInput) : Prop :=
  ∀ input ∈ inputs, enablesRelativeLock input.sequence = false

/-- The version is the one that the PSBT asks for, or one stands for the other of the two that
devices emit, where no input has a relative lock. -/
def VersionMatches (tx : RawTx) (wantVersion : ℤ) : Prop :=
  tx.version = wantVersion ∨
    isDeviceTxVersion wantVersion ∧ isDeviceTxVersion tx.version ∧ NoRelativeLock tx.inputs

/-- A signed transaction is the one that the PSBT describes. -/
structure SignedTxMatches (tx : RawTx) (signatures : List InputSignature)
    (decomposed : DecomposedPsbt) : Prop where
  outputs : List.Forall₂ OutputMatches tx.outputs decomposed.outputs
  inputs : List.Forall₂ InputMatches (tx.inputs.zip signatures) decomposed.inputs
  locktime : (decomposed.locktime.elim (some 0) NumberField.value) = some (tx.locktime : ℚ)
  version : ∃ v : ℤ, decomposed.txVersion.value = some (v : ℚ) ∧ VersionMatches tx v

theorem matchOutput_eq_ok (i : ℕ) (got : TxOutput) (want : DecomposedPsbtOutput) :
    matchOutput i got want = .ok () ↔ OutputMatches got want := by
  simp only [matchOutput, exactSats, bind_eq_ok, refuseIf_eq_ok, orRefuse_eq_ok, not_not]
  constructor
  · rintro ⟨_, hscript, sats, hvalue, rfl⟩
    exact ⟨hscript, hvalue⟩
  · rintro ⟨hscript, hvalue⟩
    exact ⟨(), hscript, _, hvalue, rfl⟩

theorem matchInput_eq_ok (i : ℕ) (got : TxInput × InputSignature) (want : DecomposedPsbtInput) :
    matchInput i got want = .ok () ↔ InputMatches got want := by
  simp only [matchInput, bind_eq_ok, refuseIf_eq_ok, orRefuse_eq_ok, not_not, not_and]
  constructor
  · rintro ⟨_, hpoint, sequence, hvalid, _, rfl, _, hsigned, hwitness⟩
    exact ⟨hpoint, hvalid, hsigned, hwitness⟩
  · rintro ⟨hpoint, hvalid, hsigned, hwitness⟩
    exact ⟨(), hpoint, _, hvalid, (), rfl, (), hsigned, hwitness⟩

/-- The sequences of the PSBT are those of the transaction. -/
private theorem any_relativeLock {gots : List (TxInput × InputSignature)}
    {wants : List DecomposedPsbtInput} (h : List.Forall₂ InputMatches gots wants) :
    (∀ want ∈ wants, (validSequence? want.sequence).any enablesRelativeLock = false) ↔
      ∀ got ∈ gots, enablesRelativeLock got.1.sequence = false := by
  induction h with
  | nil => simp
  | cons hhead _ ih => rw [List.forall_mem_cons, List.forall_mem_cons, ih, hhead.sequence,
      Option.any_some]

variable {signatures : List InputSignature}

private theorem forall_mem_zip {tx : RawTx} (h : signatures.length = tx.inputs.length) :
    (∀ got ∈ tx.inputs.zip signatures, enablesRelativeLock got.1.sequence = false) ↔
      NoRelativeLock tx.inputs := by
  have hfst : (tx.inputs.zip signatures).map Prod.fst = tx.inputs :=
    List.map_fst_zip (by rw [h])
  unfold NoRelativeLock
  conv_rhs => rw [← hfst]
  rw [List.forall_mem_map]

private theorem matchVersion_eq_ok {tx : RawTx} {txVersion : NumberField}
    {inputs : List DecomposedPsbtInput} (hlength : signatures.length = tx.inputs.length)
    (hinputs : List.Forall₂ InputMatches (tx.inputs.zip signatures) inputs) :
    matchVersion tx.version txVersion inputs = .ok () ↔
      ∃ v : ℤ, txVersion.value = some (v : ℚ) ∧ VersionMatches tx v := by
  have hlocks := (any_relativeLock hinputs).trans (forall_mem_zip hlength)
  have hinteger : ∀ q : ℚ, txVersion.value.filter (·.den = 1) = some q ↔
      q.den = 1 ∧ txVersion.value = some q := by
    intro q
    rw [Option.filter_eq_some_iff, decide_eq_true_iff, and_comm]
  simp only [matchVersion, bind_eq_ok, orRefuse_eq_ok, hinteger]
  constructor
  · rintro ⟨q, ⟨hden, hvalue⟩, hmatch⟩
    have hq : ((q.num : ℤ) : ℚ) = q := Rat.coe_int_num_of_den_eq_one hden
    refine ⟨q.num, by rw [hvalue, hq], ?_⟩
    by_cases heq : tx.version = q.num
    · exact .inl heq
    · rw [if_pos heq] at hmatch
      simp only [bind_eq_ok, refuseIf_eq_ok, Bool.or_eq_true, Bool.not_eq_true', not_or,
        Bool.not_eq_false] at hmatch
      obtain ⟨_, ⟨hwant, hgot⟩, hlocked⟩ := hmatch
      refine .inr ⟨hwant, hgot, hlocks.mp ?_⟩
      cases hfind : inputs.findIdx? fun input =>
          (validSequence? input.sequence).any enablesRelativeLock with
      | none => exact List.findIdx?_eq_none_iff.mp hfind
      | some locked =>
        rw [hfind] at hlocked
        cases hlocked
  · rintro ⟨v, hvalue, hmatch⟩
    refine ⟨v, ⟨rfl, hvalue⟩, ?_⟩
    rcases hmatch with rfl | ⟨hwant, hgot, hfree⟩
    · rw [Rat.num_intCast, if_neg (by simp)]
      rfl
    · rw [Rat.num_intCast]
      by_cases heq : tx.version = v
      · rw [if_neg (not_not.mpr heq)]
        rfl
      · rw [if_pos heq, List.findIdx?_eq_none_iff.mpr (hlocks.mpr hfree)]
        simp only [hwant, hgot, Bool.not_true, Bool.or_self]
        rfl

/-- What is read has signature material for each input. -/
theorem length_of_readSignedRawTx {txHex : String} {tx : RawTx}
    (h : readSignedRawTx txHex = .ok (tx, signatures)) :
    signatures.length = tx.inputs.length := by
  simp only [readSignedRawTx, bind_eq_ok] at h
  obtain ⟨walked, hwalk, heq⟩ := h
  cases heq
  obtain ⟨_, _, -, -, hlength, -⟩ := walkRawTx_iff.mp hwalk
  exact hlength

private theorem wantLocktime_eq_ok {locktime : Option NumberField} {n : ℕ} :
    (∃ r, wantLocktime locktime = .ok r ∧ (n : ℚ) = r.1) ↔
      locktime.elim (some 0) NumberField.value = some (n : ℚ) := by
  cases locktime with
  | none => simp [wantLocktime, eq_comm]
  | some field =>
    cases hvalue : field.value with
    | none => simp [wantLocktime, hvalue, orRefuse, bind, Except.bind]
    | some value =>
      simp [wantLocktime, hvalue, orRefuse, bind, Except.bind, pure, Except.pure, eq_comm]

/-- **What `assertSignedTxMatchesPsbt` accepts**: the transactions that the PSBT describes. -/
theorem assertSignedTxMatchesPsbt_iff {txHex : String} {decomposed : Option DecomposedPsbt}
    {signerId : String} :
    assertSignedTxMatchesPsbt txHex decomposed signerId = .ok () ↔
      ∃ psbt tx signatures, decomposed = some psbt ∧
        readSignedRawTx txHex = .ok (tx, signatures) ∧ SignedTxMatches tx signatures psbt := by
  simp only [assertSignedTxMatchesPsbt, matchSignedTx, mapError_eq_ok, bind_eq_ok, orRefuse_eq_ok,
    refuseIf_eq_ok, not_not]
  constructor
  · rintro ⟨psbt, rfl, ⟨tx, signatures⟩, hread, _, houtputs, _, houtput, _, hinputs, _, hinput, r,
      hlocktime, _, hlock, hversion⟩
    have hlength := length_of_readSignedRawTx hread
    have hinput' := (checkEach_eq_ok matchInput_eq_ok 0 (by
      rw [List.length_zip, hlength, min_self, hinputs])).mp hinput
    exact ⟨psbt, tx, signatures, rfl, hread,
      (checkEach_eq_ok matchOutput_eq_ok 0 houtputs).mp houtput, hinput',
      wantLocktime_eq_ok.mp ⟨r, hlocktime, hlock⟩, (matchVersion_eq_ok hlength hinput').mp hversion⟩
  · rintro ⟨psbt, tx, signatures, rfl, hread, houtput, hinput, hlocktime, hversion⟩
    have hlength := length_of_readSignedRawTx hread
    have hinputs : tx.inputs.length = psbt.inputs.length := by
      rw [← hinput.length_eq, List.length_zip, hlength, min_self]
    obtain ⟨r, hwant, hlock⟩ := wantLocktime_eq_ok.mpr hlocktime
    refine ⟨psbt, rfl, (tx, signatures), hread, (), houtput.length_eq, (),
      (checkEach_eq_ok matchOutput_eq_ok 0 houtput.length_eq).mpr houtput, (), hinputs, (),
      (checkEach_eq_ok matchInput_eq_ok 0 hinput.length_eq).mpr hinput, r, hwant, (), hlock,
      (matchVersion_eq_ok hlength hinput).mpr hversion⟩

/-! ### Two replies -/

/-- The first place of a character splits a text one way. -/
private theorem split_at_first {c : Char} {x y a b : List Char} (hx : c ∉ x) (hy : c ∉ y)
    (h : x ++ c :: a = y ++ c :: b) : x = y ∧ a = b := by
  have htake : ∀ {z : List Char} (d : List Char), c ∉ z →
      (z ++ c :: d).takeWhile (fun e => decide (e ≠ c)) = z := by
    intro z d hz
    rw [List.takeWhile_append_of_pos fun e he => decide_eq_true (ne_of_mem_of_not_mem he hz)]
    simp
  have hxy : x = y := by rw [← htake a hx, h, htake b hy]
  subst hxy
  exact ⟨rfl, (List.cons.inj (List.append_cancel_left h)).2⟩

private theorem colon_not_mem (n : ℕ) : ':' ∉ n.repr.toList := by
  intro hmem
  have hdigit := List.all_eq_true.mp (Decimal.digits_repr n).2 ':' hmem
  revert hdigit
  decide

/-- The text of an outpoint says which it is: the index has no colon. -/
theorem pointText_inj {hash hash' : String} {index index' : ℕ}
    (h : pointText hash index = pointText hash' index') : hash = hash' ∧ index = index' := by
  have hlist := congrArg (fun s : String => s.toList.reverse) h
  have hpoint : ∀ (hash : String) (index : ℕ), (pointText hash index).toList.reverse =
      index.repr.toList.reverse ++ ':' :: hash.toList.reverse := by
    intro hash index
    have htext : (pointText hash index).toList = hash.toList ++ [':'] ++ index.repr.toList := by
      rw [pointText, String.toList_append, String.toList_append]
      rfl
    rw [htext, List.reverse_append, List.reverse_append]
    rfl
  have hno : ∀ n : ℕ, ':' ∉ n.repr.toList.reverse := fun n hmem =>
    colon_not_mem n (List.mem_reverse.mp hmem)
  rw [hpoint, hpoint] at hlist
  obtain ⟨hindex, hhash⟩ := split_at_first (hno index) (hno index') hlist
  have hvalue := congrArg Decimal.digitsValue (List.reverse_injective hindex)
  rw [Decimal.digitsValue_repr, Decimal.digitsValue_repr] at hvalue
  exact ⟨String.toList_injective (List.reverse_injective hhash), hvalue⟩

private theorem output_unique {got got' : TxOutput} {want : DecomposedPsbtOutput}
    (h : OutputMatches got want) (h' : OutputMatches got' want) : got = got' := by
  obtain ⟨value, script⟩ := got
  obtain ⟨value', script'⟩ := got'
  have hscript : script = script' := hexText_injective (h.script.symm.trans h'.script)
  have hvalue : some (value : ℤ) = some (value' : ℤ) := h.value.symm.trans h'.value
  have hvalue' : value = value' := by exact_mod_cast Option.some.inj hvalue
  rw [hscript, hvalue']

private theorem input_unique {got got' : TxInput × InputSignature} {want : DecomposedPsbtInput}
    (h : InputMatches got want) (h' : InputMatches got' want) : got.1 = got'.1 := by
  obtain ⟨⟨hash, index, sequence⟩, _⟩ := got
  obtain ⟨⟨hash', index', sequence'⟩, _⟩ := got'
  obtain ⟨hhash, rfl⟩ : hexText hash = hexText hash' ∧ index = index' :=
    pointText_inj (h.point.symm.trans h'.point)
  obtain rfl := hexText_injective hhash
  obtain rfl : sequence = sequence' := Option.some.inj (h.sequence.symm.trans h'.sequence)
  rfl

/-- Two transactions that a PSBT describes. -/
private theorem SignedTxMatches.agree {psbt : DecomposedPsbt} {tx tx' : RawTx}
    {signatures signatures' : List InputSignature}
    (hlength : signatures.length = tx.inputs.length)
    (hlength' : signatures'.length = tx'.inputs.length)
    (h : SignedTxMatches tx signatures psbt) (h' : SignedTxMatches tx' signatures' psbt) :
    tx.inputs = tx'.inputs ∧ tx.outputs = tx'.outputs ∧ tx.locktime = tx'.locktime := by
  have houtputs := map_eq_of_forall₂ (f := id) h.outputs h'.outputs
    fun _ _ _ _ _ hgot hgot' => output_unique hgot hgot'
  have hinputs := map_eq_of_forall₂ (f := Prod.fst) h.inputs h'.inputs
    fun _ _ _ _ _ hgot hgot' => input_unique hgot hgot'
  rw [List.map_fst_zip (by rw [hlength]), List.map_fst_zip (by rw [hlength'])] at hinputs
  rw [List.map_id, List.map_id] at houtputs
  have hlocktime : some (tx.locktime : ℚ) = some (tx'.locktime : ℚ) :=
    h.locktime.symm.trans h'.locktime
  exact ⟨hinputs, houtputs, by exact_mod_cast Option.some.inj hlocktime⟩

/-- **All accepted replies agree**: of one PSBT, two signed transactions that are accepted spend
the same coins, in the same order and with the same sequences, pay the same amounts to the same
scripts, and have the same locktime; their versions are the same, or one and two, with no relative
lock. They are what the PSBT asks for. -/
theorem accepted_replies_agree {psbt : DecomposedPsbt} {txHex txHex' signerId signerId' : String}
    (h : assertSignedTxMatchesPsbt txHex (some psbt) signerId = .ok ())
    (h' : assertSignedTxMatchesPsbt txHex' (some psbt) signerId' = .ok ()) :
    ∃ tx tx' signatures signatures', readSignedRawTx txHex = .ok (tx, signatures) ∧
      readSignedRawTx txHex' = .ok (tx', signatures') ∧
      tx.inputs = tx'.inputs ∧ tx.outputs = tx'.outputs ∧ tx.locktime = tx'.locktime ∧
      (tx.version = tx'.version ∨ isDeviceTxVersion tx.version ∧ isDeviceTxVersion tx'.version ∧
        NoRelativeLock tx.inputs) ∧
      SignedTxMatches tx signatures psbt ∧ SignedTxMatches tx' signatures' psbt := by
  obtain ⟨_, tx, signatures, hpsbt, hread, hmatch⟩ := assertSignedTxMatchesPsbt_iff.mp h
  obtain ⟨⟩ := hpsbt
  obtain ⟨_, tx', signatures', hpsbt', hread', hmatch'⟩ := assertSignedTxMatchesPsbt_iff.mp h'
  obtain ⟨⟩ := hpsbt'
  have hlength := length_of_readSignedRawTx hread
  have hlength' := length_of_readSignedRawTx hread'
  obtain ⟨hinputs, houtputs, hlocktime⟩ := hmatch.agree hlength hlength' hmatch'
  refine ⟨tx, tx', signatures, signatures', hread, hread', hinputs, houtputs, hlocktime, ?_,
    hmatch, hmatch'⟩
  obtain ⟨v, hv, hversion⟩ := hmatch.version
  obtain ⟨v', hv', hversion'⟩ := hmatch'.version
  obtain rfl : v = v' := by exact_mod_cast Option.some.inj (hv.symm.trans hv')
  rcases hversion with heq | ⟨hwant, hgot, hfree⟩
  · rcases hversion' with heq' | ⟨hwant', hgot', hfree'⟩
    · exact .inl (heq.trans heq'.symm)
    · rw [← hinputs] at hfree'
      exact .inr ⟨by rw [heq]; exact hwant', hgot', hfree'⟩
  · rcases hversion' with heq' | ⟨-, hgot', -⟩
    · exact .inr ⟨hgot, by rw [heq']; exact hwant, hfree⟩
    · exact .inr ⟨hgot, hgot', hfree⟩

/-- The PSBT of `sampleTx`, with the numbers of a decomposition. -/
def samplePsbt : DecomposedPsbt where
  txVersion := ⟨some 2, "2"⟩
  locktime := none
  inputs := [{
    prevTxHash := hexText (List.replicate 32 0xab)
    prevTxIndex := 1
    sequence := ⟨some 0xffffffff, "4294967295"⟩
    value := .number ⟨some 6000, "6000"⟩
    scriptPubKeyHex := "0014" ++ hexText (List.replicate 20 0x07)
    scriptType := .p2wpkh
    sighashType := none
    witnessUtxoScriptHex := none }]
  outputs := [{ scriptPubKeyHex := "51", value := .text "5000" }]

private theorem sampleTx_matches : SignedTxMatches sampleTx sampleSignatures samplePsbt where
  outputs := .cons ⟨by decide, by decide⟩ .nil
  inputs := .cons ⟨by decide, by decide, by decide, by decide⟩ .nil
  locktime := by simp [samplePsbt, sampleTx]
  version := ⟨2, rfl, .inl rfl⟩

theorem accepted_replies_agree_sample :
    ∃ tx tx' signatures signatures',
      readSignedRawTx (hexText (serializeTx true sampleTx sampleSignatures)) =
        .ok (tx, signatures) ∧
      readSignedRawTx (hexText overlongSample) = .ok (tx', signatures') ∧
      tx.inputs = tx'.inputs ∧ tx.outputs = tx'.outputs := by
  have haccept : ∀ txHex, readSignedRawTx txHex = .ok (sampleTx, sampleSignatures) →
      assertSignedTxMatchesPsbt txHex (some samplePsbt) "device" = .ok () := fun txHex hread =>
    assertSignedTxMatchesPsbt_iff.mpr ⟨samplePsbt, _, _, rfl, hread, sampleTx_matches⟩
  obtain ⟨tx, tx', signatures, signatures', hread, hread', hinputs, houtputs, -⟩ :=
    accepted_replies_agree (haccept _ read_sample) (haccept _ read_overlongSample)
  exact ⟨tx, tx', signatures, signatures', hread, hread', hinputs, houtputs⟩

end XchainWallet
