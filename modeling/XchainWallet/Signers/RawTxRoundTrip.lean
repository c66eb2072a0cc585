import XchainWallet.Signers.RawTxText

/-!
# The round trip of a raw transaction

`serializeTx` writes a transaction with each count in its shortest form, legacy or segwit. The
decoder reads back what is written so (`readSignedRawTx_serializeTx`), and what it accepts is
written so except for counts in a longer form and for the case of letters
(`readSignedRawTx_canonical`). Both compare the texts over two forms of a count, by
`Serialized.transfer`.
-/

namespace XchainWallet

open Wire

/-! ### Texts over two forms of a count -/

section Transfer

variable {V W : ℕ → List UInt8 → Prop} {P : List UInt8 → List UInt8 → Prop}

theorem VarSlice.transfer (hP : KeptByAppend P)
    (hVW : ∀ n used, V n used → ∃ text, W n text ∧ P text used) {bytes used : List UInt8}
    (h : VarSlice V bytes used) : ∃ text, VarSlice W bytes text ∧ P text used := by
  obtain ⟨count, hcount, rfl⟩ := h
  obtain ⟨text, htext, hPtext⟩ := hVW _ _ hcount
  exact ⟨text ++ bytes, ⟨text, htext, rfl⟩, hP.append hPtext (hP.refl bytes)⟩

variable {used : List UInt8}

theorem Counted.transfer (hP : KeptByAppend P)
    (hVW : ∀ n used, V n used → ∃ text, W n text ∧ P text used) {α : Type}
    {R S : α → List UInt8 → Prop} (hRS : ∀ a used, R a used → ∃ text, S a text ∧ P text used)
    {as : List α} (h : Counted V R as used) :
    ∃ text, Counted W S as text ∧ P text used := by
  obtain ⟨count, texts, hcount, htexts, rfl⟩ := h
  obtain ⟨count', hcount', hPcount⟩ := hVW _ _ hcount
  obtain ⟨texts', htexts', hPtexts⟩ := htexts.transfer hP fun a used _ => hRS a used
  exact ⟨count' ++ texts', ⟨count', texts', hcount', htexts', rfl⟩, hP.append hPcount hPtexts⟩

theorem InputText.transfer (hP : KeptByAppend P)
    (hVW : ∀ n used, V n used → ∃ text, W n text ∧ P text used) {i : TxInput × List UInt8}
    (h : InputText V i used) : ∃ text, InputText W i text ∧ P text used := by
  obtain ⟨hfits, script, hscript, rfl⟩ := h
  obtain ⟨text, htext, hPtext⟩ := hscript.transfer hP hVW
  exact ⟨_, ⟨hfits, text, htext, rfl⟩, hP.append (hP.refl _) (hP.append hPtext (hP.refl _))⟩

theorem OutputText.transfer (hP : KeptByAppend P)
    (hVW : ∀ n used, V n used → ∃ text, W n text ∧ P text used) {o : TxOutput}
    (h : OutputText V o used) : ∃ text, OutputText W o text ∧ P text used := by
  obtain ⟨hvalue, script, hscript, rfl⟩ := h
  obtain ⟨text, htext, hPtext⟩ := hscript.transfer hP hVW
  exact ⟨_, ⟨hvalue, text, htext, rfl⟩, hP.append (hP.refl _) hPtext⟩

theorem BodyText.transfer (hP : KeptByAppend P)
    (hVW : ∀ n used, V n used → ∃ text, W n text ∧ P text used)
    {body : List (TxInput × List UInt8) × List TxOutput} (h : BodyText V body used) :
    ∃ text, BodyText W body text ∧ P text used := by
  obtain ⟨hne, inputs, outputs, hinputs, houtputs, rfl⟩ := h
  obtain ⟨inputs', hinputs', hPinputs⟩ :=
    hinputs.transfer hP hVW fun i used hi => hi.transfer hP hVW
  obtain ⟨outputs', houtputs', hPoutputs⟩ :=
    houtputs.transfer hP hVW fun o used ho => ho.transfer hP hVW
  exact ⟨_, ⟨hne, inputs', outputs', hinputs', houtputs', rfl⟩, hP.append hPinputs hPoutputs⟩

theorem WitnessText.transfer (hP : KeptByAppend P)
    (hVW : ∀ n used, V n used → ∃ text, W n text ∧ P text used) {segwit : Bool} {inputCount : ℕ}
    {witnesses : List (List (List UInt8))} (h : WitnessText V segwit inputCount witnesses used) :
    ∃ text, WitnessText W segwit inputCount witnesses text ∧ P text used := by
  cases segwit with
  | false => exact ⟨used, h, hP.refl used⟩
  | true =>
    obtain ⟨hlength, htexts⟩ := h
    obtain ⟨text, htext, hPtext⟩ := htexts.transfer hP fun stack used _ hstack =>
      hstack.transfer hP hVW fun item used hitem => hitem.transfer hP hVW
    exact ⟨text, ⟨hlength, htext⟩, hPtext⟩

/-- **Texts over two forms of a count.** Where each text of a count has a related one of another
form, each text of a transaction has a related one over that form. -/
theorem Serialized.transfer (hP : KeptByAppend P)
    (hVW : ∀ n used, V n used → ∃ text, W n text ∧ P text used) {segwit : Bool} {tx : RawTx}
    {legacy bytes : List UInt8} {signatures : List InputSignature}
    (h : Serialized V segwit ⟨tx, legacy, signatures⟩ bytes) :
    ∃ legacy' text, Serialized W segwit ⟨tx, legacy', signatures⟩ text ∧
      P legacy' legacy ∧ P text bytes := by
  obtain ⟨hfits, hlength, body, witness, hbody, hwitness, hlegacy, rfl⟩ := h
  obtain rfl : legacy = versionBytes tx ++ (body ++ uintLE tx.locktime 4) := hlegacy
  obtain ⟨body', hbody', hPbody⟩ := hbody.transfer hP hVW
  obtain ⟨witness', hwitness', hPwitness⟩ := hwitness.transfer hP hVW
  exact ⟨versionBytes tx ++ (body' ++ uintLE tx.locktime 4), _,
    ⟨hfits, hlength, body', witness', hbody', hwitness', rfl, rfl⟩,
    hP.append (hP.refl _) (hP.append hPbody (hP.refl _)),
    hP.append (hP.refl _) (hP.append (hP.refl _) (hP.append hPbody
      (hP.append hPwitness (hP.refl _))))⟩

end Transfer

/-! ### The standard serialization -/

/-- An input and its scriptSig. -/
def serializeInput (i : TxInput × List UInt8) : List UInt8 :=
  outpoint i.1 ++ (varSlice i.2 ++ uintLE i.1.sequence 4)

/-- One output, as in `serializeOutputs`. -/
def serializeOutput (o : TxOutput) : List UInt8 := uintLE o.valueSat 8 ++ varSlice o.scriptPubKey

/-- The witness stack of an input. -/
def serializeStack (stack : List (List UInt8)) : List UInt8 :=
  varint stack.length ++ stack.flatMap varSlice

/-- The inputs and the outputs. -/
def serializeBody (tx : RawTx) (signatures : List InputSignature) : List UInt8 :=
  varint tx.inputs.length ++
    (tx.inputs.zip (signatures.map InputSignature.scriptSig)).flatMap serializeInput ++
    (varint tx.outputs.length ++ serializeOutputs tx.outputs)

/-- A transaction with its signature material, in its legacy or its segwit serialization. -/
def serializeTx (segwit : Bool) (tx : RawTx) (signatures : List InputSignature) : List UInt8 :=
  versionBytes tx ++ (markerOf segwit ++ (serializeBody tx signatures ++
    ((if segwit then signatures.flatMap fun s => serializeStack s.witness else []) ++
      uintLE tx.locktime 4)))

theorem serializeTx_false (tx : RawTx) (signatures : List InputSignature) :
    serializeTx false tx signatures =
      versionBytes tx ++ (serializeBody tx signatures ++ uintLE tx.locktime 4) := by
  simp [serializeTx, markerOf]

/-- A count in its shortest form. -/
def Standard (n : ℕ) (used : List UInt8) : Prop :=
  n ≤ TxCursor.maxSafeInteger ∧ used = varint n

variable {used : List UInt8}

theorem varint_of_standard {n : ℕ} (h : Standard n used) : Varint n used := by
  obtain ⟨hsafe, rfl⟩ := h
  unfold varint
  split_ifs with hbyte hword hdword
  · exact .byte hbyte
  · exact .word (by omega)
  · exact .dword (by omega)
  · exact .qword hsafe

/-- No form of a count is shorter than the standard one. -/
theorem standard_of_varint {n : ℕ} (h : Varint n used) :
    ∃ text, Standard n text ∧ EqOrLonger text used := by
  have hsafe : n ≤ TxCursor.maxSafeInteger := by
    unfold TxCursor.maxSafeInteger
    cases h with
    | qword h => exact h
    | byte h | word h | dword h => omega
  refine ⟨varint n, ⟨hsafe, rfl⟩, ?_⟩
  unfold varint EqOrLonger
  cases h with
  | byte h =>
    left
    rw [if_pos h]
  | word h =>
    split_ifs
    · right
      simp [uintLE]
    · exact .inl rfl
    · omega
    · omega
  | dword h =>
    split_ifs
    · right
      simp [uintLE]
    · right
      simp [uintLE]
    · exact .inl rfl
    · omega
  | qword h =>
    split_ifs
    · right
      simp [uintLE]
    · right
      simp [uintLE]
    · right
      simp [uintLE]
    · exact .inl rfl

/-- What a transaction and its signature material are in the program: fields of their widths, a
first input, and lengths of texts and arrays, which are safe integers. -/
structure Serializable (tx : RawTx) (signatures : List InputSignature) : Prop where
  fits : tx.Fits
  inputs_ne_nil : tx.inputs ≠ []
  input_fits : ∀ i ∈ tx.inputs, i.Fits
  value_lt : ∀ o ∈ tx.outputs, o.valueSat < 2 ^ 64
  signatures_length : signatures.length = tx.inputs.length
  inputs_length : tx.inputs.length ≤ TxCursor.maxSafeInteger
  outputs_length : tx.outputs.length ≤ TxCursor.maxSafeInteger
  scriptPubKey_length : ∀ o ∈ tx.outputs, o.scriptPubKey.length ≤ TxCursor.maxSafeInteger
  scriptSig_length : ∀ s ∈ signatures, s.scriptSig.length ≤ TxCursor.maxSafeInteger
  witness_length : ∀ s ∈ signatures, s.witness.length ≤ TxCursor.maxSafeInteger
  item_length : ∀ s ∈ signatures, ∀ item ∈ s.witness, item.length ≤ TxCursor.maxSafeInteger

/-! ### The standard text of a transaction -/

private theorem varSlice_of_standard {bytes used : List UInt8} (h : VarSlice Standard bytes used) :
    used = varSlice bytes := by
  obtain ⟨count, ⟨-, rfl⟩, rfl⟩ := h
  rfl

private theorem counted_of_standard {α : Type} {R : α → List UInt8 → Prop} {f : α → List UInt8}
    (hR : ∀ a used, R a used → used = f a) {as : List α} (h : Counted Standard R as used) :
    used = varint as.length ++ as.flatMap f := by
  obtain ⟨count, texts, ⟨-, rfl⟩, htexts, rfl⟩ := h
  rw [htexts.eq_flatMap hR]

private theorem input_of_standard {i : TxInput × List UInt8} (h : InputText Standard i used) :
    used = serializeInput i := by
  obtain ⟨-, script, hscript, rfl⟩ := h
  rw [varSlice_of_standard hscript, serializeInput]

private theorem output_of_standard {o : TxOutput} (h : OutputText Standard o used) :
    used = serializeOutput o := by
  obtain ⟨-, script, hscript, rfl⟩ := h
  rw [varSlice_of_standard hscript, serializeOutput]

variable {tx : RawTx} {signatures : List InputSignature}

private theorem body_of_standard {legacy used : List UInt8}
    (hlength : signatures.length = tx.inputs.length)
    (h : BodyText Standard (WalkedTx.body ⟨tx, legacy, signatures⟩) used) :
    used = serializeBody tx signatures := by
  obtain ⟨-, inputs, outputs, hinputs, houtputs, rfl⟩ := h
  have hinputs' := counted_of_standard (f := serializeInput) (fun _ _ => input_of_standard) hinputs
  have houtputs' :=
    counted_of_standard (f := serializeOutput) (fun _ _ => output_of_standard) houtputs
  have hzip : (tx.inputs.zip (signatures.map InputSignature.scriptSig)).length =
      tx.inputs.length := by
    rw [List.length_zip, List.length_map, hlength, min_self]
  rw [hinputs', houtputs', WalkedTx.body, hzip]
  rfl

variable {segwit : Bool}

/-- The text with each count in its shortest form is the standard serialization. -/
theorem Serialized.eq_serializeTx {legacy bytes : List UInt8}
    (h : Serialized Standard segwit ⟨tx, legacy, signatures⟩ bytes) :
    bytes = serializeTx segwit tx signatures ∧ legacy = serializeTx false tx signatures := by
  obtain ⟨-, hlength, body, witness, hbody, hwitness, hlegacy, rfl⟩ := h
  have hbody' := body_of_standard hlength hbody
  have hwitness' : witness =
      if segwit then signatures.flatMap fun s => serializeStack s.witness else [] := by
    cases segwit with
    | false => exact hwitness.2
    | true =>
      have hstacks := hwitness.2.eq_flatMap (f := serializeStack) fun stack used hstack =>
        counted_of_standard (f := varSlice) (fun _ _ => varSlice_of_standard) hstack
      rw [hstacks, List.flatMap_map]
      rfl
  constructor
  · rw [hbody', hwitness', serializeTx]
  · rw [hbody'] at hlegacy
    exact hlegacy.trans (serializeTx_false tx signatures).symm

private theorem texts_of_mem {α : Type} {R : α → List UInt8 → Prop} {f : α → List UInt8}
    {as : List α} (h : ∀ a ∈ as, R a (f a)) : Texts R as (as.flatMap f) := by
  induction as with
  | nil => exact .nil
  | cons a as ih =>
    exact .cons (h a (.head _)) (ih fun b hb => h b (.tail _ hb))

private theorem bodyText_serializeBody (h : Serializable tx signatures) (legacy : List UInt8) :
    BodyText Standard (WalkedTx.body ⟨tx, legacy, signatures⟩) (serializeBody tx signatures) := by
  have hzip : (tx.inputs.zip (signatures.map InputSignature.scriptSig)).length =
      tx.inputs.length := by
    rw [List.length_zip, List.length_map, h.signatures_length, min_self]
  have hinput : ∀ i ∈ tx.inputs.zip (signatures.map InputSignature.scriptSig),
      InputText Standard i (serializeInput i) := by
    intro i hi
    obtain ⟨hin, hsig⟩ := List.of_mem_zip hi
    obtain ⟨s, hs, hscript⟩ := List.mem_map.mp hsig
    have hlength : i.2.length ≤ TxCursor.maxSafeInteger := by
      rw [← hscript]
      exact h.scriptSig_length s hs
    exact ⟨h.input_fits _ hin, varSlice i.2, ⟨_, ⟨hlength, rfl⟩, rfl⟩, rfl⟩
  have houtput : ∀ o ∈ tx.outputs, OutputText Standard o (serializeOutput o) := fun o ho =>
    ⟨h.value_lt o ho, varSlice o.scriptPubKey, ⟨_, ⟨h.scriptPubKey_length o ho, rfl⟩, rfl⟩, rfl⟩
  have hinputs : Counted Standard (InputText Standard)
      (tx.inputs.zip (signatures.map InputSignature.scriptSig)) (varint tx.inputs.length ++
        (tx.inputs.zip (signatures.map InputSignature.scriptSig)).flatMap serializeInput) := by
    refine ⟨_, _, ⟨?_, ?_⟩, texts_of_mem hinput, rfl⟩
    · rw [hzip]
      exact h.inputs_length
    · rw [hzip]
  have houtputs : Counted Standard (OutputText Standard) tx.outputs
      (varint tx.outputs.length ++ serializeOutputs tx.outputs) :=
    ⟨_, _, ⟨h.outputs_length, rfl⟩, texts_of_mem houtput, rfl⟩
  refine ⟨fun hnil => h.inputs_ne_nil (List.length_eq_zero_iff.mp ?_), _, _, hinputs, houtputs, rfl⟩
  rw [← hzip]
  exact congrArg List.length hnil

private theorem witnessText_serializeStack (h : Serializable tx signatures) :
    WitnessText Standard true tx.inputs.length (signatures.map InputSignature.witness)
      (signatures.flatMap fun s => serializeStack s.witness) := by
  refine ⟨by rw [List.length_map, h.signatures_length], ?_⟩
  have hstack : ∀ stack ∈ signatures.map InputSignature.witness,
      Counted Standard (VarSlice Standard) stack (serializeStack stack) := by
    intro stack hstack
    obtain ⟨s, hs, rfl⟩ := List.mem_map.mp hstack
    exact ⟨_, _, ⟨h.witness_length s hs, rfl⟩, texts_of_mem (f := varSlice) fun item hitem =>
      ⟨_, ⟨h.item_length s hs item hitem, rfl⟩, rfl⟩, rfl⟩
  have htexts := texts_of_mem hstack
  rw [List.flatMap_map] at htexts
  exact htexts

/-- **The standard serialization is a text** of the transaction. -/
theorem serialized_serializeTx (h : Serializable tx signatures)
    (hlegacy : segwit = false → ∀ s ∈ signatures, s.witness = []) :
    Serialized Standard segwit ⟨tx, serializeTx false tx signatures, signatures⟩
      (serializeTx segwit tx signatures) := by
  refine ⟨h.fits, h.signatures_length, serializeBody tx signatures,
    if segwit then signatures.flatMap fun s => serializeStack s.witness else [],
    bodyText_serializeBody h _, ?_, serializeTx_false tx signatures, by rw [serializeTx]⟩
  cases segwit with
  | false =>
    refine ⟨?_, rfl⟩
    rw [List.eq_replicate_iff, List.length_map]
    refine ⟨h.signatures_length, ?_⟩
    intro stack hstack
    obtain ⟨s, hs, rfl⟩ := List.mem_map.mp hstack
    exact hlegacy rfl s hs
  | true => exact witnessText_serializeStack h

/-! ### What is written is read back -/

private theorem walkRawTx_serializeTx (h : Serializable tx signatures)
    (hlegacy : segwit = false → ∀ s ∈ signatures, s.witness = []) :
    walkRawTx (hexText (serializeTx segwit tx signatures)) =
      .ok ⟨tx, serializeTx false tx signatures, signatures⟩ := by
  obtain ⟨legacy, bytes, htext, hlegacyEq, hbytes⟩ :=
    (serialized_serializeTx h hlegacy).transfer keptByAppend_eq
      fun n used hn => ⟨used, varint_of_standard hn, rfl⟩
  rw [hlegacyEq, hbytes] at htext
  refine walkRawTx_iff.mpr ⟨_, segwit, ?_, htext⟩
  rw [hexText, String.toList_ofList, ofHex_hexOf]

/-- The signature material without the witness stacks, as the legacy serialization has it. -/
def withoutWitness (signatures : List InputSignature) : List InputSignature :=
  signatures.map fun s => { s with witness := [] }

private theorem Serializable.withoutWitness (h : Serializable tx signatures) :
    Serializable tx (withoutWitness signatures) where
  fits := h.fits
  inputs_ne_nil := h.inputs_ne_nil
  input_fits := h.input_fits
  value_lt := h.value_lt
  signatures_length := (List.length_map _).trans h.signatures_length
  inputs_length := h.inputs_length
  outputs_length := h.outputs_length
  scriptPubKey_length := h.scriptPubKey_length
  scriptSig_length s hs := by
    obtain ⟨s', hs', rfl⟩ := List.mem_map.mp hs
    exact h.scriptSig_length s' hs'
  witness_length s hs := by
    obtain ⟨s', -, rfl⟩ := List.mem_map.mp hs
    exact Nat.zero_le _
  item_length s hs item hitem := by
    obtain ⟨s', -, rfl⟩ := List.mem_map.mp hs
    cases hitem

private theorem serializeTx_withoutWitness (tx : RawTx) (signatures : List InputSignature) :
    serializeTx false tx (withoutWitness signatures) = serializeTx false tx signatures := by
  have hscripts : (withoutWitness signatures).map InputSignature.scriptSig =
      signatures.map InputSignature.scriptSig := by
    rw [withoutWitness, List.map_map]
    rfl
  rw [serializeTx_false, serializeTx_false, serializeBody, serializeBody, hscripts]

/-- **The round trip of a raw transaction**: the decoder reads a transaction and its signature
material off either serialization, the legacy one without the witness stacks, and the txid of
both is the same. -/
theorem readSignedRawTx_serializeTx (sha256 : List UInt8 → List UInt8) {tx : RawTx}
    {signatures : List InputSignature} (h : Serializable tx signatures) :
    readSignedRawTx (hexText (serializeTx false tx signatures)) =
        .ok (tx, withoutWitness signatures) ∧
      readSignedRawTx (hexText (serializeTx true tx signatures)) = .ok (tx, signatures) ∧
      parseRawTx (hexText (serializeTx false tx signatures)) = .ok tx ∧
      parseRawTx (hexText (serializeTx true tx signatures)) = .ok tx ∧
      rawTxid sha256 (hexText (serializeTx true tx signatures)) =
        rawTxid sha256 (hexText (serializeTx false tx signatures)) ∧
      rawTxid sha256 (hexText (serializeTx false tx signatures)) =
        .ok (sha256 (sha256 (serializeTx false tx signatures))).reverse := by
  have hsegwit : walkRawTx (hexText (serializeTx true tx signatures)) =
      .ok ⟨tx, serializeTx false tx signatures, signatures⟩ :=
    walkRawTx_serializeTx h fun hfalse => by cases hfalse
  have hlegacy : walkRawTx (hexText (serializeTx false tx signatures)) =
      .ok ⟨tx, serializeTx false tx signatures, withoutWitness signatures⟩ := by
    have hstripped : ∀ s ∈ withoutWitness signatures, s.witness = [] := by
      intro s hs
      obtain ⟨s', -, rfl⟩ := List.mem_map.mp hs
      rfl
    have hwalk := walkRawTx_serializeTx h.withoutWitness fun _ : false = false => hstripped
    rwa [serializeTx_withoutWitness] at hwalk
  refine ⟨?_, ?_, ?_, ?_, ?_, ?_⟩
  · rw [readSignedRawTx, hlegacy]
    rfl
  · rw [readSignedRawTx, hsegwit]
    rfl
  · rw [parseRawTx, hlegacy]
    rfl
  · rw [parseRawTx, hsegwit]
    rfl
  · rw [rawTxid, rawTxid, hsegwit, hlegacy]
    rfl
  · rw [rawTxid, hlegacy]
    rfl

/-- A transaction with one input and one output, and its signature material. -/
def sampleTx : RawTx :=
  ⟨2, 0, [⟨List.replicate 32 0xab, 1, 0xffffffff⟩], [⟨5000, [0x51]⟩]⟩

def sampleSignatures : List InputSignature := [⟨[], [[], [0x30, 0x02]]⟩]

private theorem serializable_sample : Serializable sampleTx sampleSignatures where
  fits := ⟨by decide, by decide, by decide⟩
  inputs_ne_nil := by decide
  input_fits := by
    intro i hi
    obtain rfl := List.mem_singleton.mp hi
    exact ⟨by decide, by decide, by decide⟩
  value_lt := by decide
  signatures_length := by decide
  inputs_length := by decide
  outputs_length := by decide
  scriptPubKey_length := by decide
  scriptSig_length := by decide
  witness_length := by decide
  item_length := by decide

theorem readSignedRawTx_serializeTx_sample :
    readSignedRawTx (hexText (serializeTx true sampleTx sampleSignatures)) =
      .ok (sampleTx, sampleSignatures) :=
  (readSignedRawTx_serializeTx id serializable_sample).2.1

/-! ### What is read was written, up to the form of counts -/

/-- The two bytes after the version are marker and flag. -/
def hasMarker (bytes : List UInt8) : Bool := [0x00, 0x01].isPrefixOf (bytes.drop 4)

/-- A text is of the serialization that its marker says. -/
theorem Serialized.hasMarker {walked : WalkedTx} {bytes : List UInt8}
    (h : Serialized Varint segwit walked bytes) : hasMarker bytes = segwit := by
  obtain ⟨-, -, body, witness, hbody, -, -, rfl⟩ := h
  have hlength : (versionBytes walked.tx).length = 4 := length_leBytes 4 _
  rw [XchainWallet.hasMarker, ← hlength, List.drop_left]
  cases segwit with
  | true => rfl
  | false => exact not_marker_of_bodyText hbody _

private theorem readSignedRawTx_eq_ok {txHex : String}
    (h : readSignedRawTx txHex = .ok (tx, signatures)) :
    ∃ legacy, walkRawTx txHex = .ok ⟨tx, legacy, signatures⟩ := by
  unfold readSignedRawTx at h
  cases hwalk : walkRawTx txHex with
  | error e =>
    rw [hwalk] at h
    cases h
  | ok walked =>
    rw [hwalk] at h
    cases h
    exact ⟨walked.legacy, rfl⟩

/-- The bytes that an accepted text spells. -/
private theorem accepted_bytes {txHex : String} {walked : WalkedTx}
    (h : walkRawTx txHex = .ok walked) :
    ∃ bytes, txHex.toList.map Char.toLower = hexOf bytes ∧
      Serialized Varint (hasMarker bytes) walked bytes ∧ ∀ walked',
        Serialized Varint (hasMarker bytes) walked' bytes → walked' = walked := by
  obtain ⟨bytes, segwit, hbytes, htext⟩ := walkRawTx_iff.mp h
  rw [← htext.hasMarker] at htext
  refine ⟨bytes, (hexOf_of_ofHex hbytes).symm, htext, ?_⟩
  intro walked' htext'
  have hwalk := walkRawTx_iff.mpr ⟨bytes, _, hbytes, htext'⟩
  rw [h] at hwalk
  exact (Except.ok.inj hwalk).symm

/-- The standard text of what an accepted text says. -/
private theorem standard_of_serialized {legacy bytes : List UInt8}
    (h : Serialized Varint segwit ⟨tx, legacy, signatures⟩ bytes) :
    EqOrLonger (serializeTx segwit tx signatures) bytes ∧
      (serializeTx segwit tx signatures = bytes →
        Serialized Varint segwit ⟨tx, serializeTx false tx signatures, signatures⟩ bytes) := by
  obtain ⟨legacy', text, htext, -, hlonger⟩ :=
    h.transfer keptByAppend_eqOrLonger fun n used hn => standard_of_varint hn
  obtain ⟨rfl, rfl⟩ := htext.eq_serializeTx
  refine ⟨hlonger, ?_⟩
  rintro rfl
  obtain ⟨legacy', text', htext', rfl, rfl⟩ := htext.transfer keptByAppend_eq
    fun n used hn => ⟨used, varint_of_standard hn, rfl⟩
  exact htext'

/-- **What the decoder accepts is a serialization**, up to the form of its counts and the case of
its letters. A text that is accepted spells, in letters of either case, the bytes of a
serialization of what is read, legacy or segwit by its marker, with each count in one of its four
forms; no such text is shorter than the standard serialization, and one as long is the standard
serialization. So two such texts of one transaction and witness, with the same marker, differ at
most in the case of letters. The txid is that of the bytes without marker, flag and witness. -/
theorem readSignedRawTx_canonical (sha256 : List UInt8 → List UInt8) {txHex : String} {tx : RawTx}
    {signatures : List InputSignature} (h : readSignedRawTx txHex = .ok (tx, signatures)) :
    ∃ bytes legacy, txHex.toList.map Char.toLower = hexOf bytes ∧
      Serialized Varint (hasMarker bytes) ⟨tx, legacy, signatures⟩ bytes ∧
      rawTxid sha256 txHex = .ok (sha256 (sha256 legacy)).reverse ∧
      (serializeTx (hasMarker bytes) tx signatures).length ≤ bytes.length ∧
      (bytes.length = (serializeTx (hasMarker bytes) tx signatures).length →
        bytes = serializeTx (hasMarker bytes) tx signatures ∧
        legacy = serializeTx false tx signatures ∧
        ∀ other bytes', readSignedRawTx other = .ok (tx, signatures) →
          other.toList.map Char.toLower = hexOf bytes' → hasMarker bytes' = hasMarker bytes →
          bytes'.length = bytes.length →
          other.toList.map Char.toLower = txHex.toList.map Char.toLower) := by
  obtain ⟨legacy, hwalk⟩ := readSignedRawTx_eq_ok h
  obtain ⟨bytes, hhex, htext, hunique⟩ := accepted_bytes hwalk
  obtain ⟨hlonger, hstandard⟩ := standard_of_serialized htext
  refine ⟨bytes, legacy, hhex, htext, ?_, hlonger.elim (fun h => by rw [h]) Nat.le_of_lt, ?_⟩
  · rw [rawTxid, hwalk]
    rfl
  · intro hlength
    have heq := hlonger.eq_of_length hlength
    have hlegacy := hunique _ (hstandard heq)
    refine ⟨heq.symm, (congrArg WalkedTx.legacy hlegacy).symm, ?_⟩
    intro other bytes' hother hhex' hmarker hlength'
    obtain ⟨legacy', hwalk'⟩ := readSignedRawTx_eq_ok hother
    obtain ⟨bytes'', hhex'', htext', -⟩ := accepted_bytes hwalk'
    obtain rfl : bytes' = bytes'' := hexOf_injective (hhex'.symm.trans hhex'')
    obtain ⟨hlonger', -⟩ := standard_of_serialized htext'
    rw [hmarker] at hlonger'
    have heq' := hlonger'.eq_of_length (hlength'.trans hlength)
    rw [hhex', hhex, ← heq', heq]

/-- The sample in its segwit serialization, with the number of its inputs in three bytes. -/
def overlongSample : List UInt8 :=
  (serializeTx true sampleTx sampleSignatures).take 6 ++ [0xfd, 0x01, 0x00] ++
    (serializeTx true sampleTx sampleSignatures).drop 7

private theorem readSignedRawTx_of_walk {bytes legacy : List UInt8} {pos : ℕ}
    (h : TxCursor.walk.run ⟨0, bytes⟩ = .ok (⟨tx, legacy, signatures⟩, ⟨pos, []⟩)) :
    readSignedRawTx (hexText bytes) = .ok (tx, signatures) := by
  obtain ⟨segwit, htext⟩ := walk_iff.mp ⟨pos, h⟩
  have hbytes : ofHex (hexText bytes).toList = some bytes := by
    rw [hexText, String.toList_ofList, ofHex_hexOf]
  have hwalk := walkRawTx_iff.mpr ⟨bytes, segwit, hbytes, htext⟩
  rw [readSignedRawTx, hwalk]
  rfl

theorem read_overlongSample :
    readSignedRawTx (hexText overlongSample) = .ok (sampleTx, sampleSignatures) := by
  have hwalk : TxCursor.walk.run ⟨0, overlongSample⟩ =
      .ok (⟨sampleTx, (serializeTx false sampleTx sampleSignatures).take 4 ++ [0xfd, 0x01, 0x00] ++
        (serializeTx false sampleTx sampleSignatures).drop 5, sampleSignatures⟩, ⟨70, []⟩) := by
    decide +kernel
  exact readSignedRawTx_of_walk hwalk

theorem read_sample : readSignedRawTx (hexText (serializeTx true sampleTx
    sampleSignatures)) = .ok (sampleTx, sampleSignatures) := by
  have hwalk : TxCursor.walk.run ⟨0, serializeTx true sampleTx sampleSignatures⟩ =
      .ok (⟨sampleTx, serializeTx false sampleTx sampleSignatures, sampleSignatures⟩,
        ⟨68, []⟩) := by
    decide +kernel
  exact readSignedRawTx_of_walk hwalk

/-- A count may be written in a longer form, so that a text that is accepted need not be the
serialization of what is read, and two such texts may say the same. -/
theorem overlong_count_accepted :
    readSignedRawTx (hexText overlongSample) = .ok (sampleTx, sampleSignatures) ∧
      readSignedRawTx (hexText (serializeTx true sampleTx sampleSignatures)) =
        .ok (sampleTx, sampleSignatures) ∧
      hexText overlongSample ≠ hexText (serializeTx true sampleTx sampleSignatures) ∧
      hexText overlongSample ≠ hexText (serializeTx false sampleTx sampleSignatures) := by
  refine ⟨read_overlongSample, read_sample, ?_, ?_⟩
  all_goals exact fun h => absurd (hexText_injective h) (by decide +kernel)

theorem readSignedRawTx_canonical_sample :
    ∃ bytes legacy, (hexText overlongSample).toList.map Char.toLower = hexOf bytes ∧
      Serialized Varint (hasMarker bytes) ⟨sampleTx, legacy, sampleSignatures⟩ bytes := by
  obtain ⟨bytes, legacy, hhex, htext, -⟩ := readSignedRawTx_canonical id read_overlongSample
  exact ⟨bytes, legacy, hhex, htext⟩

end XchainWallet
