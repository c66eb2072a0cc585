import XchainWallet.Uri.Bbqr

/-!
# The round trip of BBQr frames

The slots that `decodeBbqrFrames` has filled after some frames are those of their indexes
(`Collected`, kept by each turn of the loop), whatever order the frames came in. So what was encoded
comes back from its frames, scanned in any order and however often, and frames that leave out an
index give no result (`bbqr_round_trip`).
-/

namespace XchainWallet

open Wire Checks Chunks

/-! ### The loop over the frames -/

/-- Some frame has the payload at the index. -/
def Carries (frames : List String) (i : ℕ) (payload : List Char) : Prop :=
  ∃ raw ∈ frames, ∃ parsed, parseBbqrFrame raw = .ok parsed ∧ parsed.index = i ∧
    parsed.payload = payload

/-- The frame has the header of the slots. -/
def SharesHeader (st : BbqrSlots) (parsed : BbqrFrame) : Prop :=
  parsed.total = st.total ∧ parsed.encoding = st.encoding ∧ parsed.fileType = st.fileType

/-- The slots are filled by the frames, which share a header. -/
structure Collected (frames : List String) (st : BbqrSlots) : Prop where
  holds : Holds st.total (Carries frames) st.slots
  header : ∀ raw ∈ frames, ∃ parsed, parseBbqrFrame raw = .ok parsed ∧ SharesHeader st parsed

/-- What the loop has after some frames: nothing where there was none. -/
def CollectedSoFar (frames : List String) : Option BbqrSlots → Prop
  | none => frames = []
  | some st => frames ≠ [] ∧ Collected frames st

variable {parsed : BbqrFrame}

theorem index_lt_of_parse {raw : String} (h : parseBbqrFrame raw = .ok parsed) :
    parsed.index < parsed.total := by
  simp only [parseBbqrFrame, bind_eq_ok, refuseIf_eq_ok, orRefuse_eq_ok] at h
  obtain ⟨_, -, _, -, encoding, -, fileType, -, total, -, index, -, _, -, _, hindex, heq⟩ := h
  cases heq
  exact Nat.lt_of_not_le hindex

variable {frames : List String}

private theorem carries_append {raw : String} (h : parseBbqrFrame raw = .ok parsed) (i : ℕ)
    (payload : List Char) :
    Carries (frames ++ [raw]) i payload ↔
      Carries frames i payload ∨ i = parsed.index ∧ payload = parsed.payload := by
  constructor
  · rintro ⟨other, hother, parsed', hparsed', rfl, rfl⟩
    rcases List.mem_append.mp hother with hother | hother
    · exact .inl ⟨other, hother, parsed', hparsed', rfl, rfl⟩
    · rw [List.mem_singleton.mp hother, h] at hparsed'
      obtain rfl := Except.ok.inj hparsed'
      exact .inr ⟨rfl, rfl⟩
  · rintro (⟨other, hother, hcarries⟩ | ⟨rfl, rfl⟩)
    · exact ⟨other, List.mem_append_left _ hother, hcarries⟩
    · exact ⟨raw, List.mem_append_right _ (List.mem_singleton.mpr rfl), parsed, h, rfl, rfl⟩

/-- The slots that a frame meets, before it fills its own. -/
private theorem collected_slotsFor {collected : Option BbqrSlots} {st : BbqrSlots}
    (h : CollectedSoFar frames collected) (hslots : slotsFor parsed collected = .ok st) :
    Collected frames st ∧ SharesHeader st parsed := by
  cases collected with
  | none =>
    obtain rfl : frames = [] := h
    cases hslots
    refine ⟨⟨(holds_empty parsed.total).congr fun i a => ?_, by simp⟩, rfl, rfl, rfl⟩
    simp [Carries]
  | some st' =>
    simp only [slotsFor, bind_eq_ok, refuseIf_eq_ok, not_not] at hslots
    obtain ⟨_, htotal, _, hencoding, _, hfileType, heq⟩ := hslots
    cases heq
    exact ⟨h.2, htotal, hencoding, hfileType⟩

/-- **One turn of the loop** keeps that the slots are filled by the frames. -/
theorem collected_step {collected collected' : Option BbqrSlots} {raw : String}
    (h : CollectedSoFar frames collected) (hstep : collectBbqrFrame collected raw = .ok collected') :
    CollectedSoFar (frames ++ [raw]) collected' := by
  simp only [collectBbqrFrame, bind_eq_ok, refuseIf_eq_ok] at hstep
  obtain ⟨parsed, hparsed, st, hslots, _, hsame, heq⟩ := hstep
  cases heq
  obtain ⟨⟨hholds, hheader⟩, hshares⟩ := collected_slotsFor h hslots
  have hindex : parsed.index < st.total := by
    rw [← hshares.1]
    exact index_lt_of_parse hparsed
  have hpayload : ∀ payload, Carries frames parsed.index payload → payload = parsed.payload := by
    intro payload hcarries
    rw [(hholds.filled _ _).mpr hcarries] at hsame
    simpa using hsame
  refine ⟨by simp, (hholds.fill hindex hpayload).congr fun i payload => ?_, ?_⟩
  · exact (carries_append hparsed i payload).symm
  · intro other hother
    rcases List.mem_append.mp hother with hother | hother
    · exact hheader other hother
    · rw [List.mem_singleton.mp hother]
      exact ⟨parsed, hparsed, hshares⟩

/-- A frame that agrees with those before it is taken. -/
theorem exists_collectBbqrFrame {collected : Option BbqrSlots} {raw : String}
    (h : CollectedSoFar frames collected) (hparsed : parseBbqrFrame raw = .ok parsed)
    (hheader : ∀ other ∈ frames, ∀ parsed', parseBbqrFrame other = .ok parsed' →
      parsed.total = parsed'.total ∧ parsed.encoding = parsed'.encoding ∧
        parsed.fileType = parsed'.fileType)
    (hpayload : ∀ payload, Carries frames parsed.index payload → payload = parsed.payload) :
    ∃ st, collectBbqrFrame collected raw = .ok (some st) := by
  have hslots : ∃ st, slotsFor parsed collected = .ok st := by
    cases collected with
    | none => exact ⟨_, rfl⟩
    | some st =>
      obtain ⟨hne, -, hshares⟩ := h
      obtain ⟨other, hother⟩ := List.exists_mem_of_ne_nil frames hne
      obtain ⟨parsed', hparsed', htotal, hencoding, hfileType⟩ := hshares other hother
      obtain ⟨htotal', hencoding', hfileType'⟩ := hheader other hother parsed' hparsed'
      refine ⟨st, ?_⟩
      simp only [slotsFor, bind_eq_ok, refuseIf_eq_ok, not_not]
      exact ⟨(), htotal'.trans htotal, (), hencoding'.trans hencoding, (),
        hfileType'.trans hfileType, rfl⟩
  obtain ⟨st, hslots⟩ := hslots
  obtain ⟨⟨hholds, -⟩, -⟩ := collected_slotsFor h hslots
  have hsame : ¬(st.slots[parsed.index]?.join.any (· ≠ parsed.payload)) := by
    cases hslot : st.slots[parsed.index]?.join with
    | none => simp
    | some payload =>
      have hcarries := (hholds.filled _ _).mp (Option.join_eq_some_iff.mp hslot)
      simp [hpayload payload hcarries]
  refine ⟨{ st with slots := st.slots.set parsed.index (some parsed.payload) }, ?_⟩
  simp only [collectBbqrFrame, bind_eq_ok, refuseIf_eq_ok]
  exact ⟨parsed, hparsed, st, hslots, (), hsame, rfl⟩

/-- **The whole loop**: the slots are filled by the frames. -/
theorem collected_foldlM {frames rest : List String} {collected collected' : Option BbqrSlots}
    (h : CollectedSoFar frames collected)
    (hrun : rest.foldlM collectBbqrFrame collected = .ok collected') :
    CollectedSoFar (frames ++ rest) collected' := by
  induction rest generalizing frames collected with
  | nil =>
    cases hrun
    rwa [List.append_nil]
  | cons raw rest ih =>
    rw [List.foldlM_cons, bind_eq_ok] at hrun
    obtain ⟨mid, hstep, hrest⟩ := hrun
    have hmid := ih (collected_step h hstep) hrest
    rwa [List.append_assoc] at hmid

/-- Frames that agree with each other are all taken. -/
theorem exists_foldlM (header : BbqrFrame) (payloadOf : ℕ → List Char) {rest : List String}
    (hall : ∀ raw ∈ rest, ∃ i, parseBbqrFrame raw = .ok { header with
      index := i
      payload := payloadOf i }) {frames : List String}
    (hframes : ∀ raw ∈ frames, ∃ i, parseBbqrFrame raw = .ok { header with
      index := i
      payload := payloadOf i }) {collected : Option BbqrSlots}
    (h : CollectedSoFar frames collected) :
    ∃ collected', rest.foldlM collectBbqrFrame collected = .ok collected' := by
  induction rest generalizing frames collected with
  | nil => exact ⟨collected, rfl⟩
  | cons raw rest ih =>
    obtain ⟨i, hparsed⟩ := hall raw (.head _)
    have hstep : ∃ st, collectBbqrFrame collected raw = .ok (some st) := by
      refine exists_collectBbqrFrame h hparsed ?_ ?_
      · intro other hother parsed' hparsed'
        obtain ⟨j, hother'⟩ := hframes other hother
        rw [hother'] at hparsed'
        obtain rfl := Except.ok.inj hparsed'
        exact ⟨rfl, rfl, rfl⟩
      · rintro payload ⟨other, hother, parsed', hparsed', hindex, rfl⟩
        obtain ⟨j, hother'⟩ := hframes other hother
        rw [hother'] at hparsed'
        obtain rfl := Except.ok.inj hparsed'
        exact congrArg payloadOf hindex
    obtain ⟨st, hstep⟩ := hstep
    have hframes' : ∀ other ∈ frames ++ [raw], ∃ i, parseBbqrFrame other = .ok { header with
        index := i
        payload := payloadOf i } := by
      intro other hother
      rcases List.mem_append.mp hother with hother | hother
      · exact hframes other hother
      · rw [List.mem_singleton.mp hother]
        exact ⟨i, hparsed⟩
    obtain ⟨collected', hrest⟩ := ih (fun raw hraw => hall raw (.tail _ hraw))
      hframes' (collected_step h hstep)
    refine ⟨collected', ?_⟩
    rw [List.foldlM_cons, bind_eq_ok]
    exact ⟨some st, hstep, hrest⟩

/-! ### What a result needs -/

/-- A result comes only of frames that share a total and leave no index below it out. -/
theorem complete_of_decodeBbqrFrames {codecs : BbqrCodecs}
    {r : List UInt8 × BbqrFileType × BbqrEncoding} (h : codecs.decodeBbqrFrames frames = .ok r) :
    ∃ st, Collected frames st ∧ ∀ i, i < st.total → ∃ payload, Carries frames i payload := by
  simp only [BbqrCodecs.decodeBbqrFrames, bind_eq_ok, orRefuse_eq_ok] at h
  obtain ⟨collected, hrun, st, rfl, hslots⟩ := h
  have hstart : CollectedSoFar [] none := rfl
  obtain ⟨-, hholds, hheader⟩ := collected_foldlM hstart hrun
  refine ⟨st, ⟨hholds, hheader⟩, hholds.all_filled_iff.mp ?_⟩
  cases hfind : st.slots.findIdx? Option.isNone with
  | some i =>
    rw [hfind] at hslots
    cases hslots
  | none =>
    rw [List.all_eq_true]
    intro slot hslot
    have hnone := List.findIdx?_eq_none_iff.mp hfind slot hslot
    rwa [Option.isNone_eq_false_iff] at hnone

/-! ### The frames of the encoder -/

private theorem base36_digit (k : Fin 36) :
    indexOf (jsUpper (base36Alphabet.getD k '0')) base36Alphabet = some k.val ∧
      isJsSpace (base36Alphabet.getD k '0') = false := by
  revert k
  decide

theorem formatBase36_eq_ok {n : ℕ} {digits : List Char} (h : formatBase36 n = .ok digits) :
    n ≤ bbqrMaxFrames ∧ digits = [base36Alphabet.getD (n / 36 % 36) '0',
      base36Alphabet.getD (n % 36) '0'] := by
  simp only [formatBase36, bind_eq_ok, refuseIf_eq_ok, Nat.not_lt] at h
  obtain ⟨_, hn, heq⟩ := h
  cases heq
  exact ⟨hn, rfl⟩

theorem exists_formatBase36 {n : ℕ} (h : n ≤ bbqrMaxFrames) :
    ∃ digits, formatBase36 n = .ok digits := by
  rw [formatBase36, refuseIf, if_neg (Nat.not_lt.mpr h)]
  exact ⟨_, rfl⟩

/-- Two digits of base 36 are read back. -/
theorem parseBase36_formatBase36 {n : ℕ} {digits : List Char} (h : formatBase36 n = .ok digits) :
    parseBase36 digits = .ok n := by
  obtain ⟨hn, rfl⟩ := formatBase36_eq_ok h
  have hhigh := (base36_digit ⟨n / 36 % 36, Nat.mod_lt _ (by decide)⟩).1
  have hlow := (base36_digit ⟨n % 36, Nat.mod_lt _ (by decide)⟩).1
  have hvalue : (0 * 36 + n / 36 % 36) * 36 + n % 36 = n := by
    unfold bbqrMaxFrames at hn
    omega
  simp only [parseBase36, List.foldlM_cons, List.foldlM_nil, bind_eq_ok, refuseIf_eq_ok,
    orRefuse_eq_ok, not_not]
  refine ⟨(), rfl, _, ⟨_, hhigh, rfl⟩, _, ⟨_, hlow, rfl⟩, ?_⟩
  exact congrArg Except.ok hvalue

private theorem hexUpperDigits : "0123456789ABCDEF".toList =
    ['0', '1', '2', '3', '4', '5', '6', '7', '8', '9', 'A', 'B', 'C', 'D', 'E', 'F'] := by
  simp

variable {bytes : List UInt8}

private theorem hexUpper_char {c : Char} (h : c ∈ bytesToHexUpper bytes) :
    c ∈ "0123456789ABCDEF".toList ∧ jsUpper c = [c] ∧ isJsSpace c = false := by
  obtain ⟨d, hd, rfl⟩ := List.mem_map.mp h
  have hall : hexDigits.all fun d => d.toUpper ∈
      ['0', '1', '2', '3', '4', '5', '6', '7', '8', '9', 'A', 'B', 'C', 'D', 'E', 'F'] ∧
      d.toUpper.toNat < 128 ∧ d.toUpper.toUpper = d.toUpper ∧ isJsSpace d.toUpper = false := by
    decide
  have hdigit := List.all_eq_true.mp hall d (mem_hexDigits_of_mem_hexOf hd)
  obtain ⟨hmem, hlt, hupper, hspace⟩ := of_decide_eq_true hdigit
  refine ⟨?_, ?_, hspace⟩
  · rwa [hexUpperDigits]
  · rw [jsUpper_of_ascii hlt, hupper]

/-- Upper-case digits are read back. -/
theorem decodeHexUpper_bytesToHexUpper (bytes : List UInt8) :
    decodeHexUpper (bytesToHexUpper bytes) = .ok bytes := by
  have hclean : ∀ text : List Char, (∀ c ∈ text, jsUpper c = [c]) → text.flatMap jsUpper = text := by
    intro text htext
    induction text with
    | nil => rfl
    | cons c text ih =>
      rw [List.flatMap_cons, htext c (.head _),
        ih fun d hd => htext d (.tail _ hd)]
      rfl
  have hall : (bytesToHexUpper bytes).all (· ∈ "0123456789ABCDEF".toList) :=
    List.all_eq_true.mpr fun c hc => decide_eq_true (hexUpper_char hc).1
  simp only [decodeHexUpper, hclean _ fun c hc => (hexUpper_char hc).2.1, hall, if_true,
    orRefuse_eq_ok]
  exact ofHex_map_toUpper bytes

theorem bytesToHexUpper_flatten (pieces : List (List UInt8)) :
    bytesToHexUpper pieces.flatten = pieces.flatMap bytesToHexUpper := by
  induction pieces with
  | nil => rfl
  | cons p pieces ih =>
    rw [List.flatten_cons, List.flatMap_cons, ← ih, bytesToHexUpper, hexOf_append, List.map_append]
    rfl

/-- **A frame of the encoder is parsed** as what it was made of. -/
theorem parse_bbqrFrameText {total index : ℕ} {totalStr indexStr : List Char}
    (htotal : formatBase36 total = .ok totalStr) (hindex : formatBase36 index = .ok indexStr)
    (hlt : index < total) :
    parseBbqrFrame (bbqrFrameText totalStr indexStr (bytesToHexUpper bytes)) =
      .ok ⟨.hex, .psbt, total, index, bytesToHexUpper bytes⟩ := by
  have hparseTotal := parseBase36_formatBase36 htotal
  have hparseIndex := parseBase36_formatBase36 hindex
  obtain ⟨hmax, rfl⟩ := formatBase36_eq_ok htotal
  obtain ⟨-, rfl⟩ := formatBase36_eq_ok hindex
  have hspace : ∀ n : ℕ, isJsSpace (base36Alphabet.getD (n % 36) '0') = false := fun n =>
    (base36_digit ⟨n % 36, Nat.mod_lt _ (by decide)⟩).2
  have htext : (bbqrFrameText [base36Alphabet.getD (total / 36 % 36) '0',
      base36Alphabet.getD (total % 36) '0'] [base36Alphabet.getD (index / 36 % 36) '0',
      base36Alphabet.getD (index % 36) '0'] (bytesToHexUpper bytes)).toList =
      'B' :: '$' :: 'H' :: 'P' :: base36Alphabet.getD (total / 36 % 36) '0' ::
        base36Alphabet.getD (total % 36) '0' :: base36Alphabet.getD (index / 36 % 36) '0' ::
        base36Alphabet.getD (index % 36) '0' :: bytesToHexUpper bytes := by
    rw [bbqrFrameText, String.toList_ofList]
    rfl
  have htrim := jsTrim_eq_self ('B' :: '$' :: 'H' :: 'P' ::
      base36Alphabet.getD (total / 36 % 36) '0' :: base36Alphabet.getD (total % 36) '0' ::
      base36Alphabet.getD (index / 36 % 36) '0' :: base36Alphabet.getD (index % 36) '0' ::
      bytesToHexUpper bytes) (by
    simp only [List.forall_mem_cons, hspace, true_and]
    exact ⟨by decide, by decide, by decide, by decide, fun c hc => (hexUpper_char hc).2.2⟩)
  simp only [parseBbqrFrame, htext, htrim, bind_eq_ok, refuseIf_eq_ok, orRefuse_eq_ok]
  refine ⟨(), by simp, (), by simp, .hex, rfl, .psbt, rfl, total, hparseTotal, index,
    hparseIndex, (), by omega, (), by omega, rfl⟩

/-- What the encoder gives: a frame for each piece. -/
theorem encodeBbqrPsbtFrames_eq_ok {psbt : PsbtInput} {payloadBytes : Option JsNumber}
    (h : encodeBbqrPsbtFrames psbt payloadBytes = .ok frames) :
    ∃ bytes size, normalizePsbtBytes psbt = .ok bytes ∧ bytes ≠ [] ∧ 0 < size ∧
      pieceCount size bytes.length ≤ bbqrMaxFrames ∧
      ∀ frame, frame ∈ frames ↔ ∃ i, i < pieceCount size bytes.length ∧ ∃ totalStr indexStr,
        formatBase36 (pieceCount size bytes.length) = .ok totalStr ∧
        formatBase36 i = .ok indexStr ∧
        frame = bbqrFrameText totalStr indexStr (bytesToHexUpper (piece size bytes i)) := by
  simp only [encodeBbqrPsbtFrames, bind_eq_ok, refuseIf_eq_ok, orRefuse_eq_ok] at h
  obtain ⟨bytes, hbytes, _, hne, size, hsize, _, hfits, hframes⟩ := h
  refine ⟨bytes, size, hbytes, hne, positiveInteger_pos hsize, Nat.le_of_not_lt hfits,
    fun frame => ?_⟩
  rw [mem_of_mapM_eq_ok hframes]
  simp only [List.mem_range, bind_eq_ok]
  refine exists_congr fun i => and_congr_right fun _ => ?_
  constructor
  · rintro ⟨totalStr, htotal, indexStr, hindex, heq⟩
    cases heq
    exact ⟨totalStr, indexStr, htotal, hindex, rfl⟩
  · rintro ⟨totalStr, indexStr, htotal, hindex, rfl⟩
    exact ⟨totalStr, htotal, indexStr, hindex, rfl⟩

/-- A PSBT that fits is encoded. -/
theorem exists_encodeBbqrPsbtFrames {size : ℕ} (hne : bytes ≠ []) (hsize : 0 < size)
    (hfits : pieceCount size bytes.length ≤ bbqrMaxFrames) :
    ∃ frames, encodeBbqrPsbtFrames (.bytes bytes) (some (some size)) = .ok frames := by
  obtain ⟨totalStr, htotal⟩ := exists_formatBase36 hfits
  have hframe : ∀ i ∈ List.range (pieceCount size bytes.length), ∃ frame, (do
      let totalStr ← formatBase36 (pieceCount size bytes.length)
      let indexStr ← formatBase36 i
      pure (bbqrFrameText totalStr indexStr (bytesToHexUpper (piece size bytes i))) :
      Except BbqrError String) = .ok frame := by
    intro i hi
    have hlt := List.mem_range.mp hi
    obtain ⟨indexStr, hindex⟩ := exists_formatBase36 (Nat.le_of_lt (hlt.trans_le hfits))
    simp only [bind_eq_ok, pure_eq_ok]
    exact ⟨_, totalStr, htotal, indexStr, hindex, rfl⟩
  obtain ⟨frames, hframes⟩ := exists_mapM_eq_ok hframe
  refine ⟨frames, ?_⟩
  simp only [encodeBbqrPsbtFrames, bind_eq_ok, refuseIf_eq_ok, orRefuse_eq_ok, Option.getD_some]
  exact ⟨bytes, rfl, (), hne, size, positiveInteger_natCast hsize, (), Nat.not_lt.mpr hfits, hframes⟩

/-- The frame of piece `i`, as it is parsed. -/
def pieceFrame (size : ℕ) (bytes : List UInt8) (i : ℕ) : BbqrFrame :=
  ⟨.hex, .psbt, pieceCount size bytes.length, i, bytesToHexUpper (piece size bytes i)⟩

private theorem parse_encoded {psbt : PsbtInput} {payloadBytes : Option JsNumber}
    (h : encodeBbqrPsbtFrames psbt payloadBytes = .ok frames) :
    ∃ bytes size, normalizePsbtBytes psbt = .ok bytes ∧ bytes ≠ [] ∧ 0 < size ∧
      (∀ frame ∈ frames, ∃ i, parseBbqrFrame frame = .ok (pieceFrame size bytes i)) ∧
      ∀ i, i < pieceCount size bytes.length → ∃ frame ∈ frames,
        parseBbqrFrame frame = .ok (pieceFrame size bytes i) := by
  obtain ⟨bytes, size, hbytes, hne, hsize, hfits, hframes⟩ := encodeBbqrPsbtFrames_eq_ok h
  refine ⟨bytes, size, hbytes, hne, hsize, ?_, ?_⟩
  · intro frame hframe
    obtain ⟨i, hi, totalStr, indexStr, htotal, hindex, rfl⟩ := (hframes frame).mp hframe
    exact ⟨i, parse_bbqrFrameText htotal hindex hi⟩
  · intro i hi
    obtain ⟨totalStr, htotal⟩ := exists_formatBase36 hfits
    obtain ⟨indexStr, hindex⟩ := exists_formatBase36 (Nat.le_of_lt (hi.trans_le hfits))
    exact ⟨_, (hframes _).mpr ⟨i, hi, totalStr, indexStr, htotal, hindex, rfl⟩,
      parse_bbqrFrameText htotal hindex hi⟩

/-- Frames of all pieces, and of nothing else, decode to the bytes. -/
private theorem decode_of_pieces (codecs : BbqrCodecs) {size : ℕ} {scanned : List String}
    (hsize : 0 < size) (hne : bytes ≠ [])
    (hpieces : ∀ raw ∈ scanned, ∃ i, parseBbqrFrame raw = .ok (pieceFrame size bytes i))
    (hall : ∀ i, i < pieceCount size bytes.length → ∃ raw ∈ scanned,
      parseBbqrFrame raw = .ok (pieceFrame size bytes i)) :
    codecs.decodeBbqrFrames scanned = .ok (bytes, .psbt, .hex) := by
  have hpositive : 0 < pieceCount size bytes.length := by
    have hle := length_le_pieceCount_mul hsize bytes.length
    have hlength := List.length_pos_iff.mpr hne
    by_contra hzero
    rw [Nat.eq_zero_of_not_pos hzero, Nat.zero_mul] at hle
    omega
  have hstart : CollectedSoFar [] none := rfl
  obtain ⟨collected, hrun⟩ := exists_foldlM (pieceFrame size bytes 0)
    (fun i => bytesToHexUpper (piece size bytes i)) hpieces (by simp) hstart
  have hcollected := collected_foldlM hstart hrun
  obtain ⟨first, hfirst, hparsed⟩ := hall 0 hpositive
  cases collected with
  | none =>
    obtain rfl : scanned = [] := hcollected
    cases hfirst
  | some st =>
    obtain ⟨-, hholds, hheader⟩ := hcollected
    obtain ⟨parsed, hparsed', htotal, hencoding, hfileType⟩ := hheader first hfirst
    rw [List.nil_append] at hholds
    rw [hparsed] at hparsed'
    obtain rfl := Except.ok.inj hparsed'
    have hslots := hholds.eq_map (f := fun i => bytesToHexUpper (piece size bytes i)) fun i hi => by
      obtain ⟨raw, hraw, hi'⟩ := hall i (by rwa [← htotal] at hi)
      exact ⟨raw, hraw, _, hi', rfl, rfl⟩
    have hnone : st.slots.findIdx? Option.isNone = none := by
      rw [List.findIdx?_eq_none_iff, hslots]
      simp
    have hjoined : st.slots.flatMap (·.getD []) = bytesToHexUpper bytes := by
      rw [hslots, List.flatMap_map, ← htotal]
      have hflat := bytesToHexUpper_flatten (inPieces size bytes)
      rw [flatten_inPieces hsize, inPieces, List.flatMap_map] at hflat
      exact hflat.symm
    simp only [BbqrCodecs.decodeBbqrFrames, bind_eq_ok, orRefuse_eq_ok]
    refine ⟨_, hrun, st, rfl, ?_⟩
    rw [hnone]
    simp only [bind_eq_ok]
    refine ⟨bytes, ?_, ?_⟩
    · rw [← hencoding, hjoined]
      exact decodeHexUpper_bytesToHexUpper bytes
    · rw [← hencoding, ← hfileType]
      rfl

/-- **The round trip of BBQr frames.** A PSBT that fits in the frames is encoded; what was encoded
comes back from its frames, scanned in any order and however often; and where no frame has some
index below a total that one declares, there is no result. -/
theorem bbqr_round_trip (codecs : BbqrCodecs) :
    (∀ (bytes : List UInt8) (size : ℕ), bytes ≠ [] → 0 < size →
      pieceCount size bytes.length ≤ bbqrMaxFrames →
      ∃ frames, encodeBbqrPsbtFrames (.bytes bytes) (some (some size)) = .ok frames) ∧
    (∀ (psbt : PsbtInput) (payloadBytes : Option JsNumber) (frames scanned : List String),
      encodeBbqrPsbtFrames psbt payloadBytes = .ok frames →
      (∀ frame, frame ∈ scanned ↔ frame ∈ frames) →
      ∃ bytes, normalizePsbtBytes psbt = .ok bytes ∧
        codecs.decodeBbqrPsbt scanned = .ok (bytes, hexOf bytes)) ∧
    (∀ (frames : List String) (index : ℕ),
      (∃ raw ∈ frames, ∃ parsed, parseBbqrFrame raw = .ok parsed ∧ index < parsed.total) →
      (∀ raw ∈ frames, ∀ parsed, parseBbqrFrame raw = .ok parsed → parsed.index ≠ index) →
      ∃ e, codecs.decodeBbqrPsbt frames = .error e) := by
  refine ⟨fun bytes size => exists_encodeBbqrPsbtFrames, ?_, ?_⟩
  · intro psbt payloadBytes frames scanned hframes hscanned
    obtain ⟨bytes, size, hbytes, hne, hsize, hpieces, hall⟩ := parse_encoded hframes
    refine ⟨bytes, hbytes, ?_⟩
    have hdecode := decode_of_pieces codecs hsize hne
      (fun raw hraw => hpieces raw ((hscanned raw).mp hraw)) fun i hi => by
        obtain ⟨raw, hraw, hparsed⟩ := hall i hi
        exact ⟨raw, (hscanned raw).mpr hraw, hparsed⟩
    simp only [BbqrCodecs.decodeBbqrPsbt, bind_eq_ok, refuseIf_eq_ok, not_not]
    exact ⟨_, hdecode, (), rfl, rfl⟩
  · rintro frames index ⟨raw, hraw, parsed, hparsed, hindex⟩ hmissing
    cases hdecode : codecs.decodeBbqrPsbt frames with
    | error e => exact ⟨e, rfl⟩
    | ok r =>
      simp only [BbqrCodecs.decodeBbqrPsbt, bind_eq_ok] at hdecode
      obtain ⟨_, hframes, -⟩ := hdecode
      obtain ⟨st, ⟨-, hheader⟩, hcomplete⟩ := complete_of_decodeBbqrFrames hframes
      obtain ⟨parsed', hparsed', htotal, -⟩ := hheader raw hraw
      rw [hparsed] at hparsed'
      obtain rfl := Except.ok.inj hparsed'
      obtain ⟨_, other, hother, found, hfound, hat, -⟩ := hcomplete index (by rwa [← htotal])
      exact absurd hat (hmissing other hother found hfound)

end XchainWallet
