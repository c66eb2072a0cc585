import XchainWallet.Signers.RawTx

/-!
# The texts of a transaction

`Serialized` says what a text of a transaction is: version, marker, inputs, outputs, witness
stacks, locktime. It is stated over the texts of a count, so that one definition serves the four
forms of a count that the decoder takes (`Varint`) and the one that is standard (`varint`).
`walk_iff`: the decoder accepts exactly the texts over `Varint`, and gives back what they say.
-/

namespace XchainWallet

open Wire TxCursor

/-- The bounds that the fields of an input have. -/
structure TxInput.Fits (input : TxInput) : Prop where
  hash : input.prevTxHash.length = 32
  index : input.prevTxIndex < 2 ^ 32
  sequence : input.sequence < 2 ^ 32

/-- The bounds that version and locktime have. -/
structure RawTx.Fits (tx : RawTx) : Prop where
  version_ge : -2 ^ 31 ≤ tx.version
  version_lt : tx.version < 2 ^ 31
  locktime : tx.locktime < 2 ^ 32

theorem hexText_injective {a b : List UInt8} (h : hexText a = hexText b) : a = b :=
  hexOf_injective (String.ofList_injective h)

/-! ### The texts -/

/-- A count in any of its four forms. -/
inductive Varint : ℕ → List UInt8 → Prop
  | byte {n : ℕ} (h : n < 0xfd) : Varint n (uintLE n 1)
  | word {n : ℕ} (h : n < 256 ^ 2) : Varint n (0xfd :: uintLE n 2)
  | dword {n : ℕ} (h : n < 256 ^ 4) : Varint n (0xfe :: uintLE n 4)
  | qword {n : ℕ} (h : n ≤ maxSafeInteger) : Varint n (0xff :: uintLE n 8)

section Texts

variable (V : ℕ → List UInt8 → Prop)

/-- The text of some bytes under their length. -/
def VarSlice (bytes used : List UInt8) : Prop :=
  ∃ count, V bytes.length count ∧ used = count ++ bytes

/-- The texts of some values under their number. -/
def Counted {α : Type} (R : α → List UInt8 → Prop) (as : List α) (used : List UInt8) : Prop :=
  ∃ count texts, V as.length count ∧ Texts R as texts ∧ used = count ++ texts

/-- The text of an input and its scriptSig. -/
def InputText (i : TxInput × List UInt8) (used : List UInt8) : Prop :=
  i.1.Fits ∧ ∃ script, VarSlice V i.2 script ∧
    used = outpoint i.1 ++ (script ++ uintLE i.1.sequence 4)

def OutputText (o : TxOutput) (used : List UInt8) : Prop :=
  o.valueSat < 2 ^ 64 ∧ ∃ script, VarSlice V o.scriptPubKey script ∧
    used = uintLE o.valueSat 8 ++ script

/-- The text of the inputs and the outputs. -/
def BodyText (body : List (TxInput × List UInt8) × List TxOutput) (used : List UInt8) : Prop :=
  body.1 ≠ [] ∧ ∃ inputs outputs, Counted V (InputText V) body.1 inputs ∧
    Counted V (OutputText V) body.2 outputs ∧ used = inputs ++ outputs

/-- The text of the witness stacks. The legacy serialization has none. -/
def WitnessText (segwit : Bool) (inputCount : ℕ) (witnesses : List (List (List UInt8)))
    (used : List UInt8) : Prop :=
  if segwit then witnesses.length = inputCount ∧ Texts (Counted V (VarSlice V)) witnesses used
  else witnesses = List.replicate inputCount [] ∧ used = []

/-- The marker and the flag. -/
def markerOf (segwit : Bool) : List UInt8 := if segwit then [0x00, 0x01] else []

/-- The bytes of the version. -/
def versionBytes (tx : RawTx) : List UInt8 := uintLE (toUint32 tx.version) 4

/-- The inputs of a transaction with their scriptSigs. -/
def WalkedTx.body (walked : WalkedTx) : List (TxInput × List UInt8) × List TxOutput :=
  (walked.tx.inputs.zip (walked.signatures.map InputSignature.scriptSig), walked.tx.outputs)

/-- **The texts of a transaction**, legacy or segwit, over the texts `V` of a count. -/
def Serialized (segwit : Bool) (walked : WalkedTx) (bytes : List UInt8) : Prop :=
  walked.tx.Fits ∧ walked.signatures.length = walked.tx.inputs.length ∧
    ∃ body witness, BodyText V walked.body body ∧ WitnessText V segwit walked.tx.inputs.length
        (walked.signatures.map InputSignature.witness) witness ∧
      walked.legacy = versionBytes walked.tx ++ (body ++ uintLE walked.tx.locktime 4) ∧
      bytes = versionBytes walked.tx ++
        (markerOf segwit ++ (body ++ (witness ++ uintLE walked.tx.locktime 4)))

theorem WitnessText.length {V : ℕ → List UInt8 → Prop} {segwit : Bool} {inputCount : ℕ}
    {witnesses : List (List (List UInt8))} {used : List UInt8}
    (h : WitnessText V segwit inputCount witnesses used) : witnesses.length = inputCount := by
  cases segwit with
  | false =>
    rw [h.1, List.length_replicate]
  | true => exact h.1

end Texts

/-! ### What the reader reads -/

theorem reads_uintLE (k : ℕ) :
    Reads (TxCursor.uintLE k) fun n used => n < 256 ^ k ∧ used = uintLE n k := by
  refine ((reads_take RawTxError.truncated k).map leNat).congr fun n used => ?_
  constructor
  · rintro ⟨bytes, ⟨rfl, hlen⟩, rfl⟩
    exact exists_leBytes hlen
  · rintro ⟨hn, rfl⟩
    exact ⟨uintLE n k, ⟨rfl, length_leBytes k n⟩, (leNat_leBytes_of_lt hn).symm⟩

/-- What follows the first byte of a count. -/
private def AfterFirst (first n : ℕ) (used : List UInt8) : Prop :=
  if first < 0xfd then n = first ∧ used = []
  else if first = 0xfd then n < 256 ^ 2 ∧ used = uintLE n 2
  else if first = 0xfe then n < 256 ^ 4 ∧ used = uintLE n 4
  else n ≤ maxSafeInteger ∧ used = uintLE n 8

private theorem reads_qword : Reads (do
      let v ← TxCursor.uintLE 8
      refuseIf (TxCursor.maxSafeInteger < v) RawTxError.absurdVarint
      pure v) fun n used => n ≤ TxCursor.maxSafeInteger ∧ used = uintLE n 8 := by
  refine ((reads_uintLE 8).bind fun v => (reads_refuseIf _ _).bind fun _ =>
    reads_pure v).congr fun n used => ?_
  constructor
  · rintro ⟨v, first, second, ⟨hv, rfl⟩, ⟨_, third, fourth, ⟨hsafe, rfl⟩, ⟨rfl, rfl⟩, rfl⟩, rfl⟩
    exact ⟨Nat.le_of_not_lt hsafe, List.append_nil _⟩
  · rintro ⟨hsafe, rfl⟩
    have hn : n < 256 ^ 8 := Nat.lt_of_le_of_lt hsafe (by decide)
    exact ⟨n, uintLE n 8, [], ⟨hn, rfl⟩, ⟨(), [], [], ⟨Nat.not_lt.mpr hsafe, rfl⟩, ⟨rfl, rfl⟩, rfl⟩,
      (List.append_nil _).symm⟩

theorem reads_varint : Reads TxCursor.varint Varint := by
  have hafter : ∀ first, Reads (σ := UInt8) (ε := RawTxError)
      (if first < 0xfd then pure first
       else if first = 0xfd then TxCursor.uintLE 2
       else if first = 0xfe then TxCursor.uintLE 4
       else do
        let v ← TxCursor.uintLE 8
        refuseIf (TxCursor.maxSafeInteger < v) .absurdVarint
        pure v) (AfterFirst first) := by
    intro first
    unfold AfterFirst
    split_ifs
    · exact reads_pure first
    · exact reads_uintLE 2
    · exact reads_uintLE 4
    · exact reads_qword
  refine ((reads_uintLE 1).bind hafter).congr fun n used => ?_
  constructor
  · rintro ⟨first, text, rest, ⟨hfirst, rfl⟩, hrest, rfl⟩
    unfold AfterFirst at hrest
    split_ifs at hrest with hbyte hword hdword
    · obtain ⟨rfl, rfl⟩ := hrest
      rw [List.append_nil]
      exact .byte hbyte
    · obtain ⟨hn, rfl⟩ := hrest
      rw [hword]
      exact .word hn
    · obtain ⟨hn, rfl⟩ := hrest
      rw [hdword]
      exact .dword hn
    · obtain ⟨hn, rfl⟩ := hrest
      have hlast : first = 0xff := by omega
      rw [hlast]
      exact .qword hn
  · intro h
    cases h with
    | byte h =>
      exact ⟨n, uintLE n 1, [], ⟨by omega, rfl⟩, by rw [AfterFirst, if_pos h]; exact ⟨rfl, rfl⟩,
        (List.append_nil _).symm⟩
    | word h => exact ⟨0xfd, [0xfd], uintLE n 2, ⟨by decide, rfl⟩, ⟨h, rfl⟩, rfl⟩
    | dword h => exact ⟨0xfe, [0xfe], uintLE n 4, ⟨by decide, rfl⟩, ⟨h, rfl⟩, rfl⟩
    | qword h => exact ⟨0xff, [0xff], uintLE n 8, ⟨by decide, rfl⟩, ⟨h, rfl⟩, rfl⟩

theorem reads_varSlice : Reads TxCursor.varSlice (VarSlice Varint) := by
  refine (Reads.bind reads_varint fun n => reads_take RawTxError.truncated n).congr fun bytes used => ?_
  constructor
  · rintro ⟨n, count, text, hcount, ⟨rfl, rfl⟩, rfl⟩
    exact ⟨count, hcount, rfl⟩
  · rintro ⟨count, hcount, rfl⟩
    exact ⟨_, count, bytes, hcount, ⟨rfl, rfl⟩, rfl⟩

theorem reads_input : Reads TxCursor.input (InputText Varint) := by
  refine ((reads_take RawTxError.truncated 32).bind fun hash => (reads_uintLE 4).bind fun index =>
    Reads.bind reads_varSlice fun script => (reads_uintLE 4).bind fun sequence =>
    reads_pure (TxInput.mk hash.reverse index sequence, script)).congr fun i used => ?_
  constructor
  · rintro ⟨hash, _, _, ⟨rfl, hhash⟩, ⟨index, _, _, ⟨hindex, rfl⟩, ⟨script, text, _, hscript,
      ⟨sequence, _, _, ⟨hsequence, rfl⟩, ⟨rfl, rfl⟩, rfl⟩, rfl⟩, rfl⟩, rfl⟩
    refine ⟨⟨by rwa [List.length_reverse], hindex, hsequence⟩, text, hscript, ?_⟩
    simp only [outpoint, List.reverse_reverse, List.append_nil, List.append_assoc]
  · rintro ⟨⟨hhash, hindex, hsequence⟩, text, hscript, rfl⟩
    refine ⟨i.1.prevTxHash.reverse, _, uintLE i.1.prevTxIndex 4 ++ (text ++ uintLE i.1.sequence 4),
      ⟨rfl, by rwa [List.length_reverse]⟩, ⟨_, _, _, ⟨hindex, rfl⟩, ⟨i.2, text, _, hscript,
      ⟨_, _, [], ⟨hsequence, rfl⟩, ⟨?_, rfl⟩, rfl⟩, rfl⟩, ?_⟩, ?_⟩
    · rw [List.reverse_reverse]
    · rw [List.append_nil]
    · rw [outpoint, List.append_assoc]

theorem reads_output : Reads TxCursor.output (OutputText Varint) := by
  refine ((reads_uintLE 8).bind fun value => Reads.bind reads_varSlice fun script =>
    reads_pure (TxOutput.mk value script)).congr fun o used => ?_
  constructor
  · rintro ⟨value, _, _, ⟨hvalue, rfl⟩, ⟨script, text, _, hscript, ⟨rfl, rfl⟩, rfl⟩, rfl⟩
    exact ⟨hvalue, text, hscript, by rw [List.append_nil]⟩
  · rintro ⟨hvalue, text, hscript, rfl⟩
    exact ⟨_, _, text, ⟨hvalue, rfl⟩, ⟨_, text, [], hscript, ⟨rfl, rfl⟩, (List.append_nil _).symm⟩,
      rfl⟩

/-- A count, and so many values after it. -/
theorem reads_counted {α : Type} {p : TxCursor.TxReader α} {R : α → List UInt8 → Prop}
    (hp : Reads p R) : Reads (TxCursor.varint >>= many p) (Counted Varint R) := by
  refine (Reads.bind reads_varint fun n => reads_many hp n).congr fun as used => ?_
  constructor
  · rintro ⟨n, count, texts, hcount, ⟨rfl, htexts⟩, rfl⟩
    exact ⟨count, texts, hcount, htexts, rfl⟩
  · rintro ⟨count, texts, hcount, htexts, rfl⟩
    exact ⟨_, count, texts, hcount, ⟨rfl, htexts⟩, rfl⟩

theorem reads_body : Reads TxCursor.body (BodyText Varint) := by
  refine (Reads.bind reads_varint fun n => (reads_refuseIf (n = 0) RawTxError.noInputs).bind fun _ =>
    (reads_many reads_input n).bind fun inputs => Reads.bind reads_varint fun m =>
    (reads_many reads_output m).bind fun outputs => reads_pure (inputs, outputs)).congr
    fun body used => ?_
  constructor
  · rintro ⟨n, inCount, _, hin, ⟨_, _, _, ⟨hn, rfl⟩, ⟨inputs, inTexts, _, ⟨rfl, hinputs⟩,
      ⟨m, outCount, _, hout, ⟨outputs, outTexts, _, ⟨rfl, houtputs⟩, ⟨rfl, rfl⟩, rfl⟩, rfl⟩,
      rfl⟩, rfl⟩, rfl⟩
    refine ⟨fun hnil => hn (congrArg List.length hnil), _, _, ⟨inCount, inTexts, hin, hinputs, rfl⟩,
      ⟨outCount, outTexts, hout, houtputs, rfl⟩, ?_⟩
    simp only [List.nil_append, List.append_nil, List.append_assoc]
  · rintro ⟨hne, _, _, ⟨inCount, inTexts, hin, hinputs, rfl⟩,
      ⟨outCount, outTexts, hout, houtputs, rfl⟩, rfl⟩
    refine ⟨_, inCount, _, hin, ⟨(), [], _, ⟨fun h => hne (List.length_eq_zero_iff.mp h), rfl⟩,
      ⟨_, inTexts, _, ⟨rfl, hinputs⟩, ⟨_, outCount, _, hout, ⟨_, outTexts, [], ⟨rfl, houtputs⟩,
      ⟨rfl, rfl⟩, rfl⟩, rfl⟩, rfl⟩, rfl⟩, ?_⟩
    simp only [List.nil_append, List.append_nil, List.append_assoc]

theorem reads_witnessStacks (segwit : Bool) (inputCount : ℕ) :
    Reads (TxCursor.witnessStacks segwit inputCount) (WitnessText Varint segwit inputCount) := by
  cases segwit with
  | false => exact reads_pure _
  | true => exact reads_many (reads_counted reads_varSlice) inputCount

/-! ### The decoder -/

private theorem toUint32_bmod {n : ℕ} (h : n < 256 ^ 4) : toUint32 ((n : ℤ).bmod (2 ^ 32)) = n := by
  have hmod : (n : ℤ).bmod (2 ^ 32) % ((2 ^ 32 : ℕ) : ℤ) = n := by
    rw [Int.bmod_emod]
    exact Int.emod_eq_of_lt (by omega) (by omega)
  have hbase : ((2 ^ 32 : ℕ) : ℤ) = 2 ^ 32 := by norm_num
  rw [toUint32, ← hbase, hmod, Int.toNat_natCast]

private theorem bmod_toUint32 {version : ℤ} (hge : -2 ^ 31 ≤ version) (hlt : version < 2 ^ 31) :
    (toUint32 version : ℤ).bmod (2 ^ 32) = version := by
  have hnonneg : 0 ≤ version % 2 ^ 32 := Int.emod_nonneg _ (by decide)
  rw [toUint32, Int.toNat_of_nonneg hnonneg]
  simp only [Int.bmod_def]
  split_ifs <;> omega

private theorem toUint32_lt (version : ℤ) : toUint32 version < 256 ^ 4 := by
  have hlt : version % 2 ^ 32 < 2 ^ 32 := Int.emod_lt_of_pos _ (by decide)
  rw [toUint32]
  omega

variable {bytes : List UInt8}

/-- The version that is read is the one whose bytes these are. -/
theorem versionBytes_eq_iff (h : bytes.length = 4) (tx : RawTx) :
    tx.version = (leNat bytes : ℤ).bmod (2 ^ 32) ↔
      (-2 ^ 31 ≤ tx.version ∧ tx.version < 2 ^ 31) ∧ versionBytes tx = bytes := by
  obtain ⟨hlt, hbytes⟩ := exists_leBytes h
  constructor
  · intro hversion
    refine ⟨⟨?_, ?_⟩, ?_⟩
    · rw [hversion]
      exact Int.le_bmod (by decide)
    · rw [hversion]
      exact Int.bmod_lt (by decide)
    · rw [versionBytes, hversion, toUint32_bmod hlt]
      exact hbytes.symm
  · rintro ⟨⟨hge, hlt'⟩, rfl⟩
    rw [versionBytes, uintLE, leNat_leBytes_of_lt (toUint32_lt _), bmod_toUint32 hge hlt']

private theorem zip_scriptSigs {inputs : List (TxInput × List UInt8)}
    {witnesses : List (List (List UInt8))} (h : witnesses.length = inputs.length) :
    (inputs.map Prod.fst).zip ((inputs.zipWith (fun i witness => InputSignature.mk i.2 witness)
      witnesses).map InputSignature.scriptSig) = inputs := by
  induction inputs generalizing witnesses with
  | nil => rfl
  | cons i inputs ih =>
    cases witnesses with
    | nil => cases h
    | cons w witnesses =>
      have htail := ih (Nat.succ.inj h)
      exact congrArg (i :: ·) htail

private theorem witnesses_of_zipWith {inputs : List (TxInput × List UInt8)}
    {witnesses : List (List (List UInt8))} (h : witnesses.length = inputs.length) :
    (inputs.zipWith (fun i witness => InputSignature.mk i.2 witness)
      witnesses).map InputSignature.witness = witnesses := by
  induction inputs generalizing witnesses with
  | nil => exact (List.length_eq_zero_iff.mp h).symm
  | cons i inputs ih =>
    cases witnesses with
    | nil => rfl
    | cons w witnesses =>
      have htail := ih (Nat.succ.inj h)
      exact congrArg (w :: ·) htail

private theorem zipWith_signatures {inputs : List TxInput} {signatures : List InputSignature}
    (h : signatures.length = inputs.length) :
    (inputs.zip (signatures.map InputSignature.scriptSig)).zipWith
      (fun i witness => InputSignature.mk i.2 witness)
      (signatures.map InputSignature.witness) = signatures := by
  induction inputs generalizing signatures with
  | nil => exact (List.length_eq_zero_iff.mp h).symm
  | cons i inputs ih =>
    cases signatures with
    | nil => rfl
    | cons s signatures =>
      have htail := ih (Nat.succ.inj h)
      exact congrArg (s :: ·) htail

/-- The reader after the marker. -/
theorem reads_afterMarker (h : bytes.length = 4) (segwit : Bool) :
    Reads (afterMarker bytes segwit) fun walked used =>
      ∃ text, Serialized Varint segwit walked text ∧ versionBytes walked.tx = bytes ∧
        text = bytes ++ (markerOf segwit ++ used) := by
  have hreads := reads_body.captured.bind fun r => (reads_witnessStacks segwit r.1.1.length).bind
    fun witnesses => (reads_take RawTxError.truncated 4).bind fun lockBytes =>
    reads_pure (WalkedTx.mk ⟨(leNat bytes : ℤ).bmod (2 ^ 32), leNat lockBytes, r.1.1.map Prod.fst,
      r.1.2⟩ (bytes ++ r.2 ++ lockBytes)
      (r.1.1.zipWith (fun i witness => ⟨i.2, witness⟩) witnesses))
  refine Reads.congr hreads fun walked used => ?_
  constructor
  · rintro ⟨⟨⟨inputs, outputs⟩, body⟩, _, _, ⟨hbody, rfl⟩, ⟨witnesses, witness, _, hwitness,
      ⟨lockBytes, _, _, ⟨rfl, hlock⟩, ⟨rfl, rfl⟩, rfl⟩, rfl⟩, rfl⟩
    have hcount : witnesses.length = inputs.length := hwitness.length
    obtain ⟨hlt, hlockBytes⟩ := exists_leBytes hlock
    generalize hv : (leNat bytes : ℤ).bmod (2 ^ 32) = version
    obtain ⟨⟨hge, hlt'⟩, hversion⟩ := (versionBytes_eq_iff h
      ⟨version, leNat lockBytes, inputs.map Prod.fst, outputs⟩).mp hv.symm
    refine ⟨_, ⟨⟨hge, hlt', hlt⟩, ?_, body, witness, ?_, ?_, ?_, rfl⟩, hversion, ?_⟩
    · rw [List.length_zipWith, List.length_map, hcount, min_self]
    · rw [WalkedTx.body, zip_scriptSigs hcount]
      exact hbody
    · rw [witnesses_of_zipWith hcount, List.length_map]
      exact hwitness
    · rw [hversion, List.append_assoc, uintLE, ← hlockBytes]
    · rw [hversion, uintLE, ← hlockBytes, List.append_nil]
  · rintro ⟨_, ⟨⟨hge, hlt, hlock⟩, hlength, body, witness, hbody, hwitness, hlegacy, rfl⟩, hversion,
      heq⟩
    obtain rfl : used = body ++ (witness ++ uintLE walked.tx.locktime 4) := by
      rw [hversion] at heq
      exact (List.append_cancel_left (List.append_cancel_left heq)).symm
    have hinputs : walked.body.1.length = walked.tx.inputs.length := by
      rw [WalkedTx.body, List.length_zip, List.length_map, hlength, min_self]
    have hversion' := (versionBytes_eq_iff h walked.tx).mpr ⟨⟨hge, hlt⟩, hversion⟩
    have hlocktime : leNat (uintLE walked.tx.locktime 4) = walked.tx.locktime :=
      leNat_leBytes_of_lt (by omega)
    have hfst : (walked.tx.inputs.zip (walked.signatures.map InputSignature.scriptSig)).map
        Prod.fst = walked.tx.inputs := List.map_fst_zip (by rw [List.length_map, hlength])
    refine ⟨(walked.body, body), body, _, ⟨hbody, rfl⟩,
      ⟨walked.signatures.map InputSignature.witness, witness, _, ?_, ⟨uintLE walked.tx.locktime 4, _, [], ⟨rfl, length_leBytes _ _⟩, ⟨?_, rfl⟩,
      (List.append_nil _).symm⟩, rfl⟩, rfl⟩
    · rw [hinputs]
      exact hwitness
    · obtain ⟨⟨version, locktime, inputs, outputs⟩, legacy, signatures⟩ := walked
      rw [WalkedTx.body, zipWith_signatures hlength, hlocktime, hfst, ← hversion', ← hversion]
      exact congrArg (fun legacy => WalkedTx.mk _ legacy _)
        (hlegacy.trans (List.append_assoc _ _ _).symm)

/-- The text of a nonzero count begins with a nonzero byte. -/
theorem Varint.head_ne_zero {n : ℕ} {used : List UInt8} (h : Varint n used) (hn : n ≠ 0) :
    ∃ b rest, used = b :: rest ∧ b ≠ 0 := by
  cases h with
  | byte h =>
    refine ⟨UInt8.ofNat n, [], rfl, fun hzero => hn ?_⟩
    have hvalue : (UInt8.ofNat n).toNat = n % 256 := UInt8.toNat_ofNat'
    rw [hzero, UInt8.toNat_zero] at hvalue
    omega
  | word => exact ⟨0xfd, _, rfl, by decide⟩
  | dword => exact ⟨0xfe, _, rfl, by decide⟩
  | qword => exact ⟨0xff, _, rfl, by decide⟩

/-- No text of inputs and outputs can be taken for a marker. -/
theorem not_marker_of_bodyText {body : List (TxInput × List UInt8) × List TxOutput}
    {used : List UInt8} (h : BodyText Varint body used) (rest : List UInt8) :
    [0x00, 0x01].isPrefixOf (used ++ rest) = false := by
  obtain ⟨hne, _, outputs, ⟨count, texts, hcount, -, rfl⟩, -, rfl⟩ := h
  obtain ⟨b, tail, rfl, hb⟩ := hcount.head_ne_zero fun hlen => hne (List.length_eq_zero_iff.mp hlen)
  have hbeq : ((0x00 : UInt8) == b) = false := beq_false_of_ne hb.symm
  rw [List.cons_append, List.cons_append, List.cons_append, List.isPrefixOf, hbeq, Bool.false_and]

private theorem marker_eq_ok {c c' : Cursor UInt8} {segwit : Bool}
    (h : marker c = .ok (segwit, c')) : c.rest = markerOf segwit ++ c'.rest := by
  unfold marker at h
  split_ifs at h with hmarker
  · cases h
    obtain ⟨rest, hrest⟩ := List.isPrefixOf_iff_prefix.mp hmarker
    rw [← hrest]
    rfl
  · cases h
    rfl

private theorem marker_segwit (pos : ℕ) (rest : List UInt8) :
    marker ⟨pos, markerOf true ++ rest⟩ = .ok (true, ⟨pos + 2, rest⟩) := rfl

private theorem marker_legacy {pos : ℕ} {rest : List UInt8}
    (h : [0x00, 0x01].isPrefixOf rest = false) :
    marker ⟨pos, rest⟩ = .ok (false, ⟨pos, rest⟩) := by
  unfold marker
  rw [if_neg (by rw [h]; exact Bool.false_ne_true)]

/-- **What the decoder accepts**, to the end of the bytes: the texts of a transaction. -/
theorem walk_iff {walked : WalkedTx} : (∃ pos, walk.run ⟨0, bytes⟩ = .ok (walked, ⟨pos, []⟩)) ↔
      ∃ segwit, Serialized Varint segwit walked bytes := by
  have htake := reads_take (σ := UInt8) RawTxError.truncated 4
  constructor
  · rintro ⟨pos, hrun⟩
    rw [walk, StateT.run_bind] at hrun
    cases hversion : (take 4).run ⟨0, bytes⟩ with
    | error e =>
      rw [hversion] at hrun
      cases hrun
    | ok r =>
      obtain ⟨version, c⟩ := r
      obtain ⟨_, ⟨rfl, hlength⟩, hbytes, -⟩ := (htake _ version c).mp hversion
      rw [hversion] at hrun
      change (marker c >>= fun r => (afterMarker version r.1).run r.2) = _ at hrun
      cases hmarker : marker c with
      | error e =>
        rw [hmarker] at hrun
        cases hrun
      | ok r =>
        obtain ⟨segwit, c'⟩ := r
        rw [hmarker] at hrun
        obtain ⟨used, ⟨text, htext, -, rfl⟩, hused, -⟩ :=
          (reads_afterMarker hlength segwit c' walked ⟨pos, []⟩).mp hrun
        refine ⟨segwit, ?_⟩
        dsimp only at hbytes hused
        rw [hbytes, marker_eq_ok hmarker, hused, List.append_nil]
        exact htext
  · rintro ⟨segwit, h⟩
    obtain ⟨-, -, body, witness, hbody, -, -, hbytes⟩ := id h
    have hlength : (versionBytes walked.tx).length = 4 := length_leBytes 4 _
    have hversion : (take 4).run ⟨0, bytes⟩ = .ok (versionBytes walked.tx,
        ⟨4, markerOf segwit ++ (body ++ (witness ++ uintLE walked.tx.locktime 4))⟩) :=
      (htake _ _ _).mpr ⟨_, ⟨rfl, hlength⟩, hbytes, by rw [hlength]⟩
    have hafter := fun pos => (reads_afterMarker hlength segwit
      ⟨pos, body ++ (witness ++ uintLE walked.tx.locktime 4)⟩ walked ⟨_, []⟩).mpr
      ⟨_, ⟨bytes, h, rfl, hbytes⟩, (List.append_nil _).symm, rfl⟩
    have hmarker : ∃ pos, marker
        ⟨4, markerOf segwit ++ (body ++ (witness ++ uintLE walked.tx.locktime 4))⟩ =
        .ok (segwit, ⟨pos, body ++ (witness ++ uintLE walked.tx.locktime 4)⟩) := by
      cases segwit with
      | true => exact ⟨_, marker_segwit 4 _⟩
      | false => exact ⟨_, marker_legacy (not_marker_of_bodyText hbody _)⟩
    obtain ⟨pos, hmarker⟩ := hmarker
    refine ⟨pos + (body ++ (witness ++ uintLE walked.tx.locktime 4)).length, ?_⟩
    rw [walk, StateT.run_bind, hversion]
    change (marker _ >>= fun r =>
      (afterMarker (versionBytes walked.tx) r.1).run r.2) = _
    rw [hmarker]
    exact hafter pos

theorem Serialized.ne_nil {V : ℕ → List UInt8 → Prop} {segwit : Bool} {walked : WalkedTx}
    (h : Serialized V segwit walked bytes) : bytes ≠ [] := by
  obtain ⟨-, -, body, witness, -, -, -, rfl⟩ := h
  exact List.cons_ne_nil _ _

theorem txBytes_eq_ok {txHex : String} :
    txBytes txHex = .ok bytes ↔ txHex ≠ "" ∧ ofHex txHex.toList = some bytes := by
  unfold txBytes
  by_cases hempty : txHex = ""
  · simp [hempty]
  · cases hbytes : ofHex txHex.toList with
    | none | some bytes' => simp [hempty]

/-- **The texts of the decoder**: hex texts, in letters of either case, of the texts of a
transaction. -/
theorem walkRawTx_iff {txHex : String} {walked : WalkedTx} :
    walkRawTx txHex = .ok walked ↔ ∃ bytes segwit, ofHex txHex.toList = some bytes ∧
      Serialized Varint segwit walked bytes := by
  have hsteps : walkRawTx txHex = .ok walked ↔ ∃ bytes, txBytes txHex = .ok bytes ∧
      ∃ pos, walk.run ⟨0, bytes⟩ = .ok (walked, ⟨pos, []⟩) := by
    unfold walkRawTx
    cases hbytes : txBytes txHex with
    | error e => simp [bind, Except.bind]
    | ok bytes =>
      cases hrun : walk.run ⟨0, bytes⟩ with
      | error e => simp [bind, Except.bind, hrun]
      | ok r =>
        obtain ⟨found, pos, rest⟩ := r
        by_cases hrest : rest = [] <;>
          simp [bind, Except.bind, hrun, hrest, pure, Except.pure, throw, throwThe,
            MonadExceptOf.throw]
  rw [hsteps]
  constructor
  · rintro ⟨bytes, hbytes, hwalk⟩
    obtain ⟨segwit, h⟩ := walk_iff.mp hwalk
    exact ⟨bytes, segwit, (txBytes_eq_ok.mp hbytes).2, h⟩
  · rintro ⟨bytes, segwit, hbytes, h⟩
    refine ⟨bytes, txBytes_eq_ok.mpr ⟨?_, hbytes⟩, walk_iff.mpr ⟨segwit, h⟩⟩
    rintro rfl
    exact h.ne_nil (Option.some.inj hbytes).symm

end XchainWallet
