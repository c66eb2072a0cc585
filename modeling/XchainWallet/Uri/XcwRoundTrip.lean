import XchainWallet.Uri.XcwQr

/-!
# The round trip of XCW frames

A frame of the encoder is parsed as what it was made of. The collector that has seen such frames of
one PSBT is `heldState`, a function of the set of their indexes, and each further frame adds its
index (`fillChunk_heldState`). So the order and the repetitions do not matter, and the bytes come
back with the last index. For frames of any origin, the collector holds the hash of the first frame
that it took, and every further first frame agrees (`FirstChunk`).
-/

namespace XchainWallet

open Wire Checks Chunks XcwPlatform

/-! ### Texts of frames -/

theorem digitsBefore_append {digits rest : List Char} {stop : Char} (h : Decimal.Digits digits)
    (hstop : stop.isDigit = false) :
    digitsBefore stop (digits ++ stop :: rest) = some (digits, rest) := by
  obtain ⟨hne, hall⟩ := h
  have hall' : ∀ c ∈ digits, c.isDigit = true := List.all_eq_true.mp hall
  have htake : (digits ++ stop :: rest).takeWhile Char.isDigit = digits := by
    rw [List.takeWhile_append_of_pos hall', List.takeWhile_cons_of_neg (by simp [hstop]),
      List.append_nil]
  have hdrop : (digits ++ stop :: rest).dropWhile Char.isDigit = stop :: rest := by
    rw [List.dropWhile_append_of_pos hall', List.dropWhile_cons_of_neg (by simp [hstop])]
  obtain ⟨c, cs, rfl⟩ := List.exists_cons_of_ne_nil hne
  simp only [digitsBefore, htake, hdrop, if_true]

theorem length_crcHex (crc : UInt32) : (crcHex crc).length = 8 := by
  rw [crcHex, length_hexOf, List.length_reverse, length_leBytes]

private theorem chunkGroups_frame (n total : ℕ) {content : List UInt8} (hne : content ≠ []) :
    chunkGroups? (xcwFrameText n total content) =
      some (n.repr.toList, total.repr.toList, crcHex (crc32 content), base64Of content) := by
  have hhex : (crcHex (crc32 content)).all (· ∈ hexDigits) :=
    List.all_eq_true.mpr fun c hc => decide_eq_true (mem_hexDigits_of_mem_hexOf hc)
  have hline : (base64Of content).all (!isLineTerminator ·) := by
    refine List.all_eq_true.mpr fun c hc => ?_
    have hdigits : base64Digits.all (!isLineTerminator ·) := by decide
    rcases mem_base64Of hc with hc | rfl
    · exact List.all_eq_true.mp hdigits c hc
    · decide
  have htext : xcwFrameText n total content = xcwPrefix ++ (n.repr.toList ++ '/' ::
      (total.repr.toList ++ ':' :: (crcHex (crc32 content) ++ ':' :: base64Of content))) := by
    simp [xcwFrameText]
  have hprefix : xcwPrefix.isPrefixOf (xcwPrefix ++ (n.repr.toList ++ '/' ::
      (total.repr.toList ++ ':' :: (crcHex (crc32 content) ++ ':' :: base64Of content)))) := by
    rw [List.isPrefixOf_iff_prefix]
    exact List.prefix_append _ _
  have htake : (crcHex (crc32 content) ++ ':' :: base64Of content).take 8 =
      crcHex (crc32 content) := List.take_left' (length_crcHex _)
  have hdrop : (crcHex (crc32 content) ++ ':' :: base64Of content).drop 8 =
      ':' :: base64Of content := List.drop_left' (length_crcHex _)
  rw [htext, chunkGroups?, if_pos hprefix, List.drop_left,
    digitsBefore_append (Decimal.digits_repr n) (by decide)]
  simp only [Option.bind_eq_bind, Option.bind_some,
    digitsBefore_append (Decimal.digits_repr total) (by decide : (':' : Char).isDigit = false),
    htake, hdrop]
  rw [if_pos ⟨length_crcHex _, hhex, base64Of_ne_nil hne, hline⟩]

private theorem frame_not_space {n total : ℕ} {content : List UInt8} :
    ∀ c ∈ xcwFrameText n total content, isJsSpace c = false := by
  have hrepr : ∀ m : ℕ, ∀ c ∈ m.repr.toList, isJsSpace c = false := by
    intro m c hc
    have hdigit := List.all_eq_true.mp (Decimal.digits_repr m).2 c hc
    rw [Char.isDigit_iff_toNat] at hdigit
    have hlow : 48 ≤ c.toNat := hdigit.1
    have hhigh : c.toNat ≤ 57 := hdigit.2
    simp only [isJsSpace, List.mem_cons, List.not_mem_nil, or_false, decide_eq_false_iff_not]
    omega
  have hhex : hexDigits.all (isJsSpace · = false) := by decide
  have hbase64 : base64Digits.all (isJsSpace · = false) := by decide
  intro c hc
  simp only [xcwFrameText, List.mem_append, List.mem_singleton] at hc
  rcases hc with ((((((hc | hc) | rfl) | hc) | rfl) | hc) | rfl) | hc
  · have hall : xcwPrefix.all (isJsSpace · = false) := by decide
    exact of_decide_eq_true (List.all_eq_true.mp hall c hc)
  · exact hrepr n c hc
  · decide
  · exact hrepr total c hc
  · decide
  · exact of_decide_eq_true (List.all_eq_true.mp hhex c (mem_hexDigits_of_mem_hexOf hc))
  · decide
  · rcases mem_base64Of hc with hc | rfl
    · exact of_decide_eq_true (List.all_eq_true.mp hbase64 c hc)
    · decide

section Encoder

variable (platform : XcwPlatform)

/-- **A frame is parsed** as what it was made of. -/
theorem parse_xcwFrameText {n total : ℕ} {content : List UInt8} (hne : content ≠ []) (hn : 1 ≤ n)
    (htotal : n ≤ total) (hmax : total ≤ xcwMaxFrames)
    (hfits : jsLength (xcwFrameText n total content) ≤ xcwMaxFrameChars) :
    platform.parseXcwChunk (String.ofList (xcwFrameText n total content)) =
      .ok ⟨n, total, content⟩ := by
  have htrim := jsTrim_eq_self (xcwFrameText n total content) frame_not_space
  have hgroups := chunkGroups_frame n total hne
  simp only [parseXcwChunk, String.toList_ofList, htrim, hgroups, bind_eq_ok,
    refuseIf_eq_ok, orRefuse_eq_ok, Nat.not_lt, not_not, Option.some.injEq]
  refine ⟨(), hfits, _, rfl, ?_⟩
  simp only [Decimal.digitsValue_repr, ofBase64_base64Of, pure_eq_ok, Option.some.injEq]
  exact ⟨(), ⟨hn, by omega, htotal⟩, (), hmax, content, rfl, (), rfl, rfl⟩

/-- The pieces fit in frames. -/
def FramesFit (bytes : List UInt8) (pieces : List (List UInt8)) : Prop :=
  pieces.length ≤ xcwMaxFrames ∧ ∀ i payload, pieces[i]? = some payload →
    jsLength (xcwFrameText (i + 1) pieces.length (platform.chunkContent bytes i payload)) ≤
      xcwMaxFrameChars

private theorem mem_zipIdx_iff {pieces : List (List UInt8)} {payload : List UInt8} {i : ℕ} :
    (payload, i) ∈ pieces.zipIdx ↔ pieces[i]? = some payload :=
  List.mk_mem_zipIdx_iff_getElem?

/-- What the encoder gives: a frame for each piece, and each fits. -/
theorem encodeXcwChunks_eq_ok {psbt : PsbtInput} {chunkBytes : Option JsNumber}
    {frames : List String} (h : platform.encodeXcwChunks psbt chunkBytes = .ok frames) :
    ∃ bytes size, normalizePsbtInput psbt = .ok bytes ∧ bytes ≠ [] ∧ sha256Len < size ∧
      FramesFit platform bytes (xcwPieces size bytes) ∧
      ∀ frame, frame ∈ frames ↔ ∃ i payload, (xcwPieces size bytes)[i]? = some payload ∧
        frame = String.ofList (xcwFrameText (i + 1) (xcwPieces size bytes).length
          (platform.chunkContent bytes i payload)) := by
  simp only [encodeXcwChunks, bind_eq_ok, refuseIf_eq_ok, orRefuse_eq_ok, Nat.not_lt] at h
  obtain ⟨bytes, hbytes, size, hsize, _, hne, _, hroom, _, hmax, hframes⟩ := h
  refine ⟨bytes, size, hbytes, hne, by omega, ⟨hmax, fun i payload hi => ?_⟩, fun frame => ?_⟩
  · obtain ⟨frame, hframe⟩ := ok_of_mapM_eq_ok hframes (mem_zipIdx_iff.mpr hi)
    simp only [bind_eq_ok, refuseIf_eq_ok, Nat.not_lt] at hframe
    obtain ⟨_, hfits, -⟩ := hframe
    exact hfits
  · rw [mem_of_mapM_eq_ok hframes]
    constructor
    · rintro ⟨⟨payload, i⟩, hi, hframe⟩
      simp only [bind_eq_ok, refuseIf_eq_ok, pure_eq_ok] at hframe
      obtain ⟨_, -, rfl⟩ := hframe
      exact ⟨i, payload, mem_zipIdx_iff.mp hi, rfl⟩
    · rintro ⟨i, payload, hi, rfl⟩
      obtain ⟨frame, hframe⟩ := ok_of_mapM_eq_ok hframes (mem_zipIdx_iff.mpr hi)
      refine ⟨(payload, i), mem_zipIdx_iff.mpr hi, ?_⟩
      simp only [bind_eq_ok, refuseIf_eq_ok, pure_eq_ok] at hframe ⊢
      obtain ⟨u, hfits, -⟩ := hframe
      exact ⟨u, hfits, trivial⟩

/-- A PSBT whose pieces fit is encoded. -/
theorem exists_encodeXcwChunks {bytes : List UInt8} {size : ℕ} (hne : bytes ≠ [])
    (hsize : sha256Len < size) (hfits : FramesFit platform bytes (xcwPieces size bytes)) :
    ∃ frames, platform.encodeXcwChunks (.bytes bytes) (some (some size)) = .ok frames := by
  have hchunk : chunkSize? (some (size : ℚ)) = some size := by
    unfold sha256Len at hsize
    rw [chunkSize?, positiveInteger_natCast (by omega), Option.filter_some,
      if_pos (decide_eq_true (by omega))]
  obtain ⟨hmax, hchars⟩ := hfits
  have hframe : ∀ entry ∈ (xcwPieces size bytes).zipIdx, ∃ frame, (do
      let frame := xcwFrameText (entry.2 + 1) (xcwPieces size bytes).length
        (platform.chunkContent bytes entry.2 entry.1)
      refuseIf (xcwMaxFrameChars < jsLength frame)
        ⟨"encoded frame is " ++ toString (jsLength frame) ++ " chars, over the " ++
          toString xcwMaxFrameChars ++ "-char cap"⟩
      pure (String.ofList frame) : Except XcwChunkError String) = .ok frame := by
    rintro ⟨payload, i⟩ hmem
    simp only [bind_eq_ok, refuseIf_eq_ok, pure_eq_ok, Nat.not_lt]
    exact ⟨_, (), hchars i payload (mem_zipIdx_iff.mp hmem), rfl⟩
  obtain ⟨frames, hframes⟩ := exists_mapM_eq_ok hframe
  refine ⟨frames, ?_⟩
  simp only [encodeXcwChunks, bind_eq_ok, refuseIf_eq_ok, orRefuse_eq_ok,
    Option.getD_some, Nat.not_lt]
  exact ⟨bytes, rfl, size, hchunk, (), hne, (), by omega, (), hmax, hframes⟩

theorem flatten_xcwPieces {size : ℕ} (hsize : 0 < size) (bytes : List UInt8) :
    (xcwPieces size bytes).flatten = bytes := by
  rw [xcwPieces, List.flatten_cons, flatten_inPieces hsize, List.take_append_drop]

/-- The content of a frame is not empty. -/
theorem chunkContent_ne_nil {bytes payload : List UInt8} {size i : ℕ}
    (h : (xcwPieces size bytes)[i]? = some payload) : platform.chunkContent bytes i payload ≠ [] := by
  cases i with
  | zero =>
    rw [chunkContent, if_pos rfl, ← List.length_pos_iff, List.length_append, platform.length_sha256]
    unfold sha256Len
    omega
  | succ i =>
    rw [chunkContent, if_neg (Nat.succ_ne_zero i)]
    rw [xcwPieces, List.getElem?_cons_succ, inPieces, List.getElem?_map] at h
    obtain ⟨j, hj, rfl⟩ := Option.map_eq_some_iff.mp h
    obtain ⟨hlt, rfl⟩ := List.getElem?_eq_some_iff.mp hj
    rw [List.length_range] at hlt
    rw [List.getElem_range]
    exact piece_ne_nil hlt

end Encoder

/-! ### The collector of one transmission -/

section Collector

variable (platform : XcwPlatform) (pieces : List (List UInt8))

/-- The slots that hold the pieces at some indexes. -/
def heldSlots (seen : Finset ℕ) : List (Option (List UInt8)) :=
  pieces.mapIdx fun i payload => if i ∈ seen then some payload else none

/-- All pieces are seen. -/
def AllSeen (seen : Finset ℕ) : Prop := seen = Finset.range pieces.length

instance (seen : Finset ℕ) : Decidable (AllSeen pieces seen) :=
  inferInstanceAs (Decidable (seen = _))

/-- The collector that holds the pieces at some indexes. -/
def heldState (seen : Finset ℕ) : XcwCollectorState where
  total := some pieces.length
  received := heldSlots pieces seen
  receivedCount := seen.card
  complete := decide (AllSeen pieces seen)
  expectedHash := if 0 ∈ seen then some (platform.sha256 pieces.flatten) else none
  psbt := if AllSeen pieces seen then some pieces.flatten else none
  error := none

/-- The collector that has seen the pieces at some indexes. -/
def seenState (seen : Finset ℕ) : XcwCollectorState :=
  if seen = ∅ then createXcwCollector else heldState platform pieces seen

variable {platform pieces} {seen : Finset ℕ} {i : ℕ} {payload : List UInt8}

theorem heldSlots_get (seen : Finset ℕ) (hi : pieces[i]? = some payload) :
    (heldSlots pieces seen)[i]?.join = if i ∈ seen then some payload else none := by
  rw [heldSlots, List.getElem?_mapIdx, hi]
  rfl

/-- Filling a slot with its piece. -/
theorem set_heldSlots (hi : pieces[i]? = some payload) :
    (heldSlots pieces seen).set i (some payload) = heldSlots pieces (insert i seen) := by
  refine List.ext_getElem? fun j => ?_
  obtain ⟨hlt, -⟩ := List.getElem?_eq_some_iff.mp hi
  by_cases hj : j = i
  · subst hj
    have hlength : j < (heldSlots pieces seen).length := by rwa [heldSlots, List.length_mapIdx]
    rw [List.getElem?_set_self hlength, heldSlots, List.getElem?_mapIdx, hi]
    simp
  · rw [List.getElem?_set_ne (Ne.symm hj), heldSlots, heldSlots, List.getElem?_mapIdx,
      List.getElem?_mapIdx]
    simp [hj]

/-- Slots that hold all pieces make up the bytes. -/
theorem flatMap_heldSlots (h : AllSeen pieces seen) :
    (heldSlots pieces seen).flatMap (·.getD []) = pieces.flatten := by
  have hslots : heldSlots pieces seen = pieces.map some := by
    refine List.ext_getElem? fun i => ?_
    rw [heldSlots, List.getElem?_mapIdx, List.getElem?_map]
    cases hi : pieces[i]? with
    | none => rfl
    | some payload =>
      obtain ⟨hlt, -⟩ := List.getElem?_eq_some_iff.mp hi
      have hseen : i ∈ seen := by rwa [h, Finset.mem_range]
      simp [hseen]
  rw [hslots, List.flatMap_map, List.flatten_eq_flatMap]
  rfl

theorem allSeen_iff_card (hsub : seen ⊆ Finset.range pieces.length) :
    AllSeen pieces seen ↔ seen.card = pieces.length := by
  constructor
  · rintro rfl
    exact Finset.card_range _
  · intro hcard
    refine Finset.eq_of_subset_of_card_le hsub ?_
    rw [Finset.card_range, hcard]

/-- The count of one more piece. -/
theorem countChunk_heldSlots (hsub : seen ⊆ Finset.range pieces.length)
    (hi : pieces[i]? = some payload) (hnew : i ∉ seen) {state : XcwCollectorState} (hstate : state =
      { heldState platform pieces seen with
        received := heldSlots pieces (insert i seen)
        expectedHash := if 0 ∈ insert i seen then some (platform.sha256 pieces.flatten) else none }) :
    platform.countChunk state = heldState platform pieces (insert i seen) := by
  obtain ⟨hlt, -⟩ := List.getElem?_eq_some_iff.mp hi
  have hsub' : insert i seen ⊆ Finset.range pieces.length :=
    Finset.insert_subset (Finset.mem_range.mpr hlt) hsub
  have hcard : (insert i seen).card = seen.card + 1 := Finset.card_insert_of_notMem hnew
  have hnot : ¬AllSeen pieces seen := by
    intro hall
    rw [hall, Finset.mem_range] at hnew
    exact hnew hlt
  subst hstate
  by_cases hall : AllSeen pieces (insert i seen)
  · have hcount := (allSeen_iff_card hsub').mp hall
    have hzero : 0 ∈ insert i seen := by
      rw [hall, Finset.mem_range]
      omega
    rw [hcard] at hcount
    simp [countChunk, heldState, hcount, hcard, flatMap_heldSlots hall, hall, hzero, hnot]
  · have hcount : seen.card + 1 ≠ pieces.length := by
      rw [← hcard]
      exact fun h => hall ((allSeen_iff_card hsub').mpr h)
    simp [countChunk, heldState, hcount, hcard, hall, hnot]

/-- **A frame of the transmission adds its index** to what the collector holds. -/
theorem fillChunk_heldState (platform : XcwPlatform) (hsub : seen ⊆ Finset.range pieces.length)
    (hi : pieces[i]? = some payload) :
    platform.fillChunk ⟨i + 1, pieces.length, platform.chunkContent pieces.flatten i payload⟩
      (heldState platform pieces seen) = heldState platform pieces (insert i seen) := by
  have hget := heldSlots_get seen hi
  cases i with
  | zero =>
    have hlength := platform.length_sha256 pieces.flatten
    have htake : (platform.sha256 pieces.flatten ++ payload).take sha256Len =
        platform.sha256 pieces.flatten := List.take_left' hlength
    have hdrop : (platform.sha256 pieces.flatten ++ payload).drop sha256Len = payload :=
      List.drop_left' hlength
    have hlong : ¬(platform.sha256 pieces.flatten ++ payload).length < sha256Len := by
      rw [List.length_append, hlength]
      omega
    rw [fillChunk, if_pos rfl, chunkContent, if_pos rfl, if_neg hlong, htake, hdrop]
    by_cases hseen : 0 ∈ seen
    · rw [if_pos hseen] at hget
      have hhash : (heldState platform pieces seen).expectedHash =
          some (platform.sha256 pieces.flatten) := if_pos hseen
      simp only [heldState] at hhash ⊢
      simp only [hget, hhash, and_self, if_true, Finset.insert_eq_of_mem hseen]
    · rw [if_neg hseen] at hget
      simp only [heldState] at hget ⊢
      rw [hget]
      refine countChunk_heldSlots hsub hi hseen ?_
      rw [← set_heldSlots hi, if_pos (Finset.mem_insert_self 0 seen)]
      rfl
  | succ i =>
    have hn : i + 1 + 1 ≠ 1 := by omega
    rw [fillChunk, if_neg hn, chunkContent, if_neg (Nat.succ_ne_zero i), Nat.add_sub_cancel]
    by_cases hseen : i + 1 ∈ seen
    · rw [if_pos hseen] at hget
      simp only [heldState] at hget ⊢
      simp only [hget, if_true, Finset.insert_eq_of_mem hseen]
    · rw [if_neg hseen] at hget
      simp only [heldState] at hget ⊢
      rw [hget]
      refine countChunk_heldSlots hsub hi hseen ?_
      have hzero : 0 ∈ insert (i + 1) seen ↔ 0 ∈ seen := by simp
      rw [← set_heldSlots hi]
      simp only [hzero]
      rfl

/-- The frame is that of the piece at an index. -/
def IsPieceFrame (platform : XcwPlatform) (pieces : List (List UInt8)) (frame : String) (i : ℕ) :
    Prop :=
  ∃ payload, pieces[i]? = some payload ∧ platform.parseXcwChunk frame =
    .ok ⟨i + 1, pieces.length, platform.chunkContent pieces.flatten i payload⟩

/-- **One scanned frame** of the transmission. -/
theorem addChunk_seenState {frame : String} (hsub : seen ⊆ Finset.range pieces.length)
    (hframe : IsPieceFrame platform pieces frame i) :
    platform.addChunkToCollector (seenState platform pieces seen) frame =
      seenState platform pieces (insert i seen) := by
  obtain ⟨payload, hi, hparse⟩ := hframe
  obtain ⟨hlt, -⟩ := List.getElem?_eq_some_iff.mp hi
  have hafter : seenState platform pieces (insert i seen) =
      heldState platform pieces (insert i seen) := if_neg (Finset.insert_ne_empty i seen)
  have hfill := fillChunk_heldState platform hsub hi
  rw [hafter, ← hfill]
  by_cases hempty : seen = ∅
  · -- the first frame allots the slots
    subst hempty
    have hrange : ¬AllSeen pieces ∅ := fun h => by
      have hmem : i ∈ (∅ : Finset ℕ) := by rwa [h, Finset.mem_range]
      exact absurd hmem (Finset.notMem_empty i)
    have hslots : heldSlots pieces ∅ = List.replicate pieces.length none := by
      refine List.ext_getElem? fun j => ?_
      rw [heldSlots, List.getElem?_mapIdx, List.getElem?_replicate]
      by_cases hj : j < pieces.length
      · simp [hj]
      · rw [List.getElem?_eq_none (by omega), if_neg hj]
        rfl
    have hstart : heldState platform pieces ∅ =
        { createXcwCollector with
          total := some pieces.length
          received := List.replicate pieces.length none } := by
      simp [heldState, createXcwCollector, hslots, hrange]
    rw [seenState, if_pos rfl, hstart]
    simp only [addChunkToCollector, createXcwCollector, hparse]
    simp
  · rw [seenState, if_neg hempty]
    by_cases hall : AllSeen pieces seen
    · have hmem : i ∈ seen := by rwa [hall, Finset.mem_range]
      rw [hfill, Finset.insert_eq_of_mem hmem, addChunkToCollector,
        if_pos (.inl (decide_eq_true hall))]
    · have hrunning : ¬((heldState platform pieces seen).complete = true ∨
          (heldState platform pieces seen).error.isSome = true) := by
        simp [heldState, hall]
      rw [addChunkToCollector, if_neg hrunning, hparse]
      simp [heldState]

end Collector

/-- The indexes that some frames declare. -/
def seenIndexes (platform : XcwPlatform) (frames : List String) : Finset ℕ :=
  (frames.filterMap fun frame =>
    (platform.parseXcwChunk frame).toOption.map fun parsed => parsed.n - 1).toFinset

section Run

variable {platform : XcwPlatform} {pieces : List (List UInt8)} {frames : List String} {i : ℕ}

theorem mem_seenIndexes (h : ∀ frame ∈ frames, ∃ i, IsPieceFrame platform pieces frame i) :
    i ∈ seenIndexes platform frames ↔ ∃ frame ∈ frames, IsPieceFrame platform pieces frame i := by
  simp only [seenIndexes, List.mem_toFinset, List.mem_filterMap, Option.map_eq_some_iff]
  constructor
  · rintro ⟨frame, hframe, parsed, hparsed, rfl⟩
    obtain ⟨j, payload, hj, hparse⟩ := h frame hframe
    rw [hparse] at hparsed
    obtain ⟨⟩ := hparsed
    exact ⟨frame, hframe, payload, hj, hparse⟩
  · rintro ⟨frame, hframe, payload, hi, hparse⟩
    exact ⟨frame, hframe, _, by rw [hparse]; rfl, rfl⟩

theorem seenIndexes_subset (h : ∀ frame ∈ frames, ∃ i, IsPieceFrame platform pieces frame i) :
    seenIndexes platform frames ⊆ Finset.range pieces.length := by
  intro i hi
  obtain ⟨frame, -, payload, hget, -⟩ := (mem_seenIndexes h).mp hi
  obtain ⟨hlt, -⟩ := List.getElem?_eq_some_iff.mp hget
  exact Finset.mem_range.mpr hlt

/-- **The run**: the collector after frames of one transmission is that of their indexes. -/
theorem collectXcw_eq (h : ∀ frame ∈ frames, ∃ i, IsPieceFrame platform pieces frame i) :
    platform.collectXcw frames = seenState platform pieces (seenIndexes platform frames) := by
  induction frames using List.reverseRecOn with
  | nil => rfl
  | append_singleton frames frame ih =>
    have hbefore : ∀ other ∈ frames, ∃ i, IsPieceFrame platform pieces other i := fun other hother =>
      h other (List.mem_append_left _ hother)
    obtain ⟨i, hframe⟩ := h frame (List.mem_append_right _ (List.mem_singleton.mpr rfl))
    have hindexes : seenIndexes platform (frames ++ [frame]) =
        insert i (seenIndexes platform frames) := by
      obtain ⟨payload, -, hparse⟩ := hframe
      ext j
      simp [seenIndexes, hparse, Except.toOption, eq_comm]
    have hrun : platform.collectXcw (frames ++ [frame]) =
        platform.addChunkToCollector (platform.collectXcw frames) frame := List.foldl_concat ..
    rw [hrun, ih hbefore, addChunk_seenState (seenIndexes_subset hbefore) hframe, hindexes]

/-- All pieces are seen where all frames of the transmission are scanned. -/
theorem allSeen_iff {scanned : List String} {text : ℕ → List UInt8 → String}
    (hmem : ∀ frame, frame ∈ frames ↔
      ∃ i payload, pieces[i]? = some payload ∧ frame = text i payload)
    (hframe : ∀ i payload, pieces[i]? = some payload →
      IsPieceFrame platform pieces (text i payload) i)
    (hscanned : ∀ frame ∈ scanned, frame ∈ frames) :
    AllSeen pieces (seenIndexes platform scanned) ↔ ∀ frame ∈ frames, frame ∈ scanned := by
  have hpiece : ∀ frame ∈ scanned, ∃ i, IsPieceFrame platform pieces frame i := by
    intro frame hscan
    obtain ⟨i, payload, hi, rfl⟩ := (hmem frame).mp (hscanned frame hscan)
    exact ⟨i, hframe i payload hi⟩
  constructor
  · intro hseen frame hmember
    obtain ⟨i, payload, hi, rfl⟩ := (hmem frame).mp hmember
    obtain ⟨hlt, -⟩ := List.getElem?_eq_some_iff.mp hi
    have hindex : i ∈ seenIndexes platform scanned := by rwa [hseen, Finset.mem_range]
    obtain ⟨other, hother, _, -, hparse⟩ := (mem_seenIndexes hpiece).mp hindex
    obtain ⟨j, payload', hj, rfl⟩ := (hmem other).mp (hscanned other hother)
    -- the frame that has the index is made of the same piece
    obtain ⟨_, -, hparse'⟩ := hframe j payload' hj
    rw [hparse] at hparse'
    obtain rfl : i = j := Nat.succ.inj (congrArg XcwChunk.n (Except.ok.inj hparse'))
    obtain rfl := Option.some.inj (hi.symm.trans hj)
    exact hother
  · intro hseen
    refine Finset.Subset.antisymm (seenIndexes_subset hpiece) fun i hi => ?_
    obtain ⟨payload, hget⟩ : ∃ payload, pieces[i]? = some payload :=
      ⟨_, List.getElem?_eq_getElem (Finset.mem_range.mp hi)⟩
    have hin := hseen _ ((hmem _).mpr ⟨i, payload, hget, rfl⟩)
    exact (mem_seenIndexes hpiece).mpr ⟨_, hin, hframe i payload hget⟩

end Run

/-! ### Frames of any origin -/

section FirstChunk

variable {platform : XcwPlatform} {frames : List String} {state : XcwCollectorState}
  {frame : String} {parsed : XcwChunk}

/-- The collector holds the hash of the first chunk that it took, and the first chunks that came
later agree; a result hashes to it. -/
structure FirstChunk (platform : XcwPlatform) (frames : List String) (state : XcwCollectorState) :
    Prop where
  fresh : state.total = none → state.expectedHash = none
  slots : ∀ total, state.total = some total → state.received.length = total
  held : state.received[0]?.join.isSome ↔ state.expectedHash.isSome
  agree : ∀ frame ∈ frames, ∀ parsed, platform.parseXcwChunk frame = .ok parsed → parsed.n = 1 →
    state.expectedHash = some (parsed.content.take sha256Len)
  origin : state.expectedHash.isSome → ∃ frame ∈ frames, ∃ parsed,
    platform.parseXcwChunk frame = .ok parsed ∧ parsed.n = 1
  verified : state.complete → ∃ psbt, state.psbt = some psbt ∧
    state.expectedHash = some (platform.sha256 psbt)

theorem firstChunk_create : FirstChunk platform [] createXcwCollector where
  fresh _ := rfl
  slots _ h := by cases h
  held := by simp [createXcwCollector]
  agree _ h := by cases h
  origin h := by cases h
  verified h := by cases h

theorem parse_bounds (h : platform.parseXcwChunk frame = .ok parsed) :
    1 ≤ parsed.n ∧ parsed.n ≤ parsed.total := by
  simp only [parseXcwChunk, bind_eq_ok, refuseIf_eq_ok, orRefuse_eq_ok, not_not] at h
  obtain ⟨_, -, ⟨n, total, crc, b64⟩, -, h⟩ := h
  obtain ⟨_, ⟨hn, -, htotal⟩, _, -, content, -, _, -, heq⟩ := h
  cases heq
  exact ⟨hn, htotal⟩

/-- The count of one more chunk keeps it. -/
theorem FirstChunk.count (h : FirstChunk platform frames state) :
    FirstChunk platform frames (platform.countChunk state) := by
  have hcases : (∃ n e, platform.countChunk state =
        { state with receivedCount := n, error := e }) ∨
      ∃ n psbt, platform.countChunk state =
        { state with receivedCount := n, psbt := some psbt, complete := true } ∧
        state.expectedHash = some (platform.sha256 psbt) := by
    simp only [countChunk]
    split_ifs with hall hhash
    · exact .inr ⟨_, _, rfl, hhash⟩
    · exact .inl ⟨_, _, rfl⟩
    · exact .inl ⟨_, _, rfl⟩
  obtain ⟨fresh, slots, held, agree, origin, verified⟩ := h
  rcases hcases with ⟨n, e, heq⟩ | ⟨n, psbt, heq, hhash⟩
  · rw [heq]
    exact ⟨fresh, slots, held, agree, origin, verified⟩
  · rw [heq]
    exact ⟨fresh, slots, held, agree, origin, fun _ => ⟨psbt, rfl, hhash⟩⟩

/-- One more frame whose first chunk, where it is one, agrees. -/
theorem FirstChunk.append (h : FirstChunk platform frames state)
    (hparse : platform.parseXcwChunk frame = .ok parsed)
    (hagree : parsed.n = 1 → state.expectedHash = some (parsed.content.take sha256Len)) :
    FirstChunk platform (frames ++ [frame]) state where
  fresh := h.fresh
  slots := h.slots
  held := h.held
  agree other hother parsed' hparsed' hn := by
    rcases List.mem_append.mp hother with hother | hother
    · exact h.agree other hother parsed' hparsed' hn
    · rw [List.mem_singleton.mp hother, hparse] at hparsed'
      obtain rfl := Except.ok.inj hparsed'
      exact hagree hn
  origin hsome := by
    obtain ⟨other, hother, hfirst⟩ := h.origin hsome
    exact ⟨other, List.mem_append_left _ hother, hfirst⟩
  verified := h.verified

/-- A chunk in its slot, in a collector that has the slots. -/
theorem FirstChunk.fill (h : FirstChunk platform frames state) (hrunning : state.complete = false)
    (hparse : platform.parseXcwChunk frame = .ok parsed) (htotal : state.total = some parsed.total)
    (hnoerror : (platform.fillChunk parsed state).error = none) :
    FirstChunk platform (frames ++ [frame]) (platform.fillChunk parsed state) := by
  obtain ⟨hone, hle⟩ := parse_bounds hparse
  have hlength := h.slots _ htotal
  rw [fillChunk] at hnoerror ⊢
  by_cases hn : parsed.n = 1
  · rw [if_pos hn] at hnoerror ⊢
    by_cases hshort : parsed.content.length < sha256Len
    · rw [if_pos hshort] at hnoerror
      cases hnoerror
    rw [if_neg hshort] at hnoerror ⊢
    cases hslot : state.received[0]?.join with
    | some held =>
      simp only [hslot] at hnoerror ⊢
      by_cases hsame : state.expectedHash = some (parsed.content.take sha256Len) ∧
          parsed.content.drop sha256Len = held
      · rw [if_pos hsame]
        exact h.append hparse fun _ => hsame.1
      · rw [if_neg hsame] at hnoerror
        cases hnoerror
    | none =>
      -- no first chunk came before, since its slot is empty
      simp only
      have hhash : state.expectedHash.isSome = false := by
        rw [Bool.eq_false_iff, Ne, ← h.held, hslot]
        simp
      refine FirstChunk.count ?_
      refine ⟨fun hnone => ?_, fun total hsome => ?_, ?_, ?_, fun _ => ?_, fun hcomplete => ?_⟩
      · rw [htotal] at hnone
        cases hnone
      · rw [List.length_set]
        exact h.slots total hsome
      · rw [List.getElem?_set_self (by omega)]
        simp
      · intro other hother parsed' hparsed' hn'
        rcases List.mem_append.mp hother with hother | hother
        · rw [h.agree other hother parsed' hparsed' hn'] at hhash
          cases hhash
        · rw [List.mem_singleton.mp hother, hparse] at hparsed'
          obtain rfl := Except.ok.inj hparsed'
          rfl
      · exact ⟨frame, List.mem_append_right _ (List.mem_singleton.mpr rfl), parsed, hparse, hn⟩
      · rw [hrunning] at hcomplete
        cases hcomplete
  · rw [if_neg hn] at hnoerror ⊢
    cases hslot : state.received[parsed.n - 1]?.join with
    | some held =>
      simp only [hslot] at hnoerror ⊢
      by_cases hsame : parsed.content = held
      · rw [if_pos hsame]
        exact h.append hparse fun hn' => absurd hn' hn
      · rw [if_neg hsame] at hnoerror
        cases hnoerror
    | none =>
      simp only
      refine FirstChunk.count ?_
      have happend := h.append hparse fun hn' => absurd hn' hn
      refine ⟨happend.fresh, fun total hsome => ?_, ?_, happend.agree, happend.origin,
        happend.verified⟩
      · rw [List.length_set]
        exact h.slots total hsome
      · rw [List.getElem?_set_ne (by omega)]
        exact h.held

/-- **One scanned frame** of any origin, which the collector does not refuse. -/
theorem FirstChunk.step (h : FirstChunk platform frames state) (hrunning : state.complete = false)
    (hnoerror : (platform.addChunkToCollector state frame).error = none) :
    FirstChunk platform (frames ++ [frame]) (platform.addChunkToCollector state frame) := by
  rw [addChunkToCollector] at hnoerror ⊢
  by_cases hstopped : state.complete = true ∨ state.error.isSome = true
  · rw [if_pos hstopped] at hnoerror
    rw [hrunning, hnoerror] at hstopped
    simp at hstopped
  rw [if_neg hstopped] at hnoerror ⊢
  cases hparse : platform.parseXcwChunk frame with
  | error e =>
    rw [hparse] at hnoerror
    cases hnoerror
  | ok parsed =>
    simp only [hparse] at hnoerror ⊢
    cases htotal : state.total with
    | none =>
      simp only [htotal] at hnoerror ⊢
      have hhash := h.fresh htotal
      refine FirstChunk.fill ⟨fun hnone => ?_, ?_, ?_, h.agree, h.origin, h.verified⟩ hrunning hparse
        rfl hnoerror
      · cases hnone
      · intro total hsome
        rw [List.length_replicate]
        exact Option.some.inj hsome
      · rw [hhash, List.getElem?_replicate]
        split_ifs <;> simp
    | some total =>
      simp only [htotal] at hnoerror ⊢
      by_cases hsame : total = parsed.total
      · rw [if_neg (not_not.mpr hsame)] at hnoerror ⊢
        exact h.fill hrunning hparse (by rw [htotal, hsame]) hnoerror
      · rw [if_pos hsame] at hnoerror
        cases hnoerror

/-- A collector that has stopped stays as it is. -/
theorem addChunkToCollector_of_stopped (h : state.complete ∨ state.error.isSome) :
    platform.addChunkToCollector state frame = state := by
  rw [addChunkToCollector, if_pos h]

/-- A count that completes leaves the error as it is. -/
theorem error_countChunk (hrunning : state.complete = false)
    (h : (platform.countChunk state).complete = true) :
    (platform.countChunk state).error = state.error := by
  simp only [countChunk] at h ⊢
  split_ifs at h ⊢ with hall hhash
  · rfl
  · rw [hrunning] at h
    cases h
  · rfl

theorem error_fillChunk (hrunning : state.complete = false)
    (h : (platform.fillChunk parsed state).complete = true) :
    (platform.fillChunk parsed state).error = state.error := by
  rw [fillChunk] at h ⊢
  split_ifs at h ⊢ with hn hshort
  · rw [hrunning] at h
    cases h
  · cases hslot : state.received[0]?.join with
    | some held =>
      simp only [hslot] at h ⊢
      split_ifs at h ⊢ with hsame
      · rfl
      · rw [hrunning] at h
        cases h
    | none =>
      simp only [hslot] at h ⊢
      exact error_countChunk hrunning h
  · cases hslot : state.received[parsed.n - 1]?.join with
    | some held =>
      simp only [hslot] at h ⊢
      split_ifs at h ⊢ with hsame
      · rfl
      · rw [hrunning] at h
        cases h
    | none =>
      simp only [hslot] at h ⊢
      exact error_countChunk hrunning h

/-- A collection that is complete has no error. -/
theorem error_of_complete (h : (platform.collectXcw frames).complete = true) :
    (platform.collectXcw frames).error = none := by
  induction frames using List.reverseRecOn with
  | nil => rfl
  | append_singleton frames frame ih =>
    have hrun : platform.collectXcw (frames ++ [frame]) =
        platform.addChunkToCollector (platform.collectXcw frames) frame := List.foldl_concat ..
    rw [hrun] at h ⊢
    by_cases hstopped : (platform.collectXcw frames).complete = true ∨
        (platform.collectXcw frames).error.isSome = true
    · rw [addChunkToCollector_of_stopped hstopped] at h ⊢
      exact ih h
    · obtain ⟨hrunning, hnone⟩ := not_or.mp hstopped
      rw [Bool.not_eq_true] at hrunning
      have herror : (platform.collectXcw frames).error = none := by simpa using hnone
      rw [addChunkToCollector, if_neg hstopped] at h ⊢
      cases hparse : platform.parseXcwChunk frame with
      | error e =>
        simp only [hparse, hrunning] at h
        cases h
      | ok parsed =>
        simp only [hparse] at h ⊢
        cases htotal : (platform.collectXcw frames).total with
        | none =>
          simp only [htotal] at h ⊢
          refine (error_fillChunk ?_ h).trans herror
          exact hrunning
        | some total =>
          simp only [htotal] at h ⊢
          split_ifs at h ⊢ with hsame
          · rw [hrunning] at h
            cases h
          · exact (error_fillChunk hrunning h).trans herror

/-- **The run**: without an error, the collector is that of the frames up to its completion. -/
theorem firstChunk_collectXcw (hnoerror : (platform.collectXcw frames).error = none) :
    ∃ taken rest, frames = taken ++ rest ∧ platform.collectXcw frames = platform.collectXcw taken ∧
      FirstChunk platform taken (platform.collectXcw taken) ∧
      ((platform.collectXcw taken).complete = false → rest = []) := by
  induction frames using List.reverseRecOn with
  | nil => exact ⟨[], [], rfl, rfl, firstChunk_create, fun _ => rfl⟩
  | append_singleton frames frame ih =>
    have hrun : platform.collectXcw (frames ++ [frame]) =
        platform.addChunkToCollector (platform.collectXcw frames) frame := List.foldl_concat ..
    have hbefore : (platform.collectXcw frames).error = none := by
      by_contra herror
      have hstopped : (platform.collectXcw frames).complete = true ∨
          (platform.collectXcw frames).error.isSome = true :=
        .inr (Option.isSome_iff_ne_none.mpr herror)
      rw [hrun, addChunkToCollector_of_stopped hstopped] at hnoerror
      exact herror hnoerror
    obtain ⟨taken, rest, rfl, hsame, hfirst, hrest⟩ := ih hbefore
    cases hcomplete : (platform.collectXcw taken).complete with
    | true =>
      refine ⟨taken, rest ++ [frame], List.append_assoc .., ?_, hfirst, ?_⟩
      · rw [hrun, hsame, addChunkToCollector_of_stopped (.inl hcomplete)]
      · intro hfalse
        rw [hcomplete] at hfalse
        cases hfalse
    | false =>
      obtain rfl := hrest hcomplete
      rw [List.append_nil] at hrun hnoerror ⊢
      refine ⟨taken ++ [frame], [], (List.append_nil _).symm, rfl, ?_, fun _ => rfl⟩
      rw [hrun] at hnoerror ⊢
      exact hfirst.step hcomplete hnoerror

end FirstChunk

/-- **XCW frames.** A PSBT whose pieces fit is encoded, whatever size from 33 on they have. Frames
of an encoded PSBT never give an error, in whatever order and however often they are scanned; they
give the PSBT once each of them was scanned, and not before; and frames scanned in another order
leave the same collector. Frames of any origin that complete a collection were read up to some
frame, and the bytes hash to what each first chunk among these carries, of which there is one. -/
theorem xcw_frames_collected (platform : XcwPlatform) :
    (∀ (bytes : List UInt8) (size : ℕ), bytes ≠ [] → sha256Len < size →
      FramesFit platform bytes (xcwPieces size bytes) →
      ∃ frames, platform.encodeXcwChunks (.bytes bytes) (some (some size)) = .ok frames) ∧
    (∀ (psbt : PsbtInput) (chunkBytes : Option JsNumber) (frames scanned : List String),
      platform.encodeXcwChunks psbt chunkBytes = .ok frames →
      (∀ frame ∈ scanned, frame ∈ frames) →
      ∃ bytes, normalizePsbtInput psbt = .ok bytes ∧
        (platform.collectXcw scanned).error = none ∧
        ((∀ frame ∈ frames, frame ∈ scanned) →
          (platform.collectXcw scanned).complete = true ∧
          (platform.collectXcw scanned).psbt = some bytes) ∧
        ((¬∀ frame ∈ frames, frame ∈ scanned) →
          (platform.collectXcw scanned).complete = false ∧
          (platform.collectXcw scanned).psbt = none) ∧
        ∀ rescanned : List String, (∀ frame, frame ∈ rescanned ↔ frame ∈ scanned) →
          platform.collectXcw rescanned = platform.collectXcw scanned) ∧
    (∀ frames : List String, (platform.collectXcw frames).complete = true →
      ∃ taken rest psbt, frames = taken ++ rest ∧
        platform.collectXcw frames = platform.collectXcw taken ∧
        (platform.collectXcw frames).psbt = some psbt ∧
        (∃ frame ∈ taken, ∃ parsed, platform.parseXcwChunk frame = .ok parsed ∧ parsed.n = 1) ∧
        ∀ frame ∈ taken, ∀ parsed, platform.parseXcwChunk frame = .ok parsed → parsed.n = 1 →
          parsed.content.take sha256Len = platform.sha256 psbt) := by
  refine ⟨fun bytes size => exists_encodeXcwChunks platform, ?_, ?_⟩
  · intro psbt chunkBytes frames scanned hframes hscanned
    obtain ⟨bytes, size, hbytes, hne, hsize, ⟨hmax, hchars⟩, hmem⟩ :=
      encodeXcwChunks_eq_ok platform hframes
    obtain ⟨pieces, hpieces⟩ : ∃ pieces, xcwPieces size bytes = pieces := ⟨_, rfl⟩
    have hflat : pieces.flatten = bytes := by
      rw [← hpieces, flatten_xcwPieces (by omega)]
    have hframe : ∀ i payload, pieces[i]? = some payload → IsPieceFrame platform pieces
        (String.ofList (xcwFrameText (i + 1) pieces.length
          (platform.chunkContent bytes i payload))) i := by
      intro i payload hi
      obtain ⟨hlt, -⟩ := List.getElem?_eq_some_iff.mp hi
      rw [← hpieces] at hi
      have hparse := parse_xcwFrameText platform (chunkContent_ne_nil platform hi)
        (Nat.succ_pos i) (by rwa [hpieces]) hmax (hchars i payload hi)
      rw [hpieces] at hi hparse
      exact ⟨payload, hi, by rw [hflat]; exact hparse⟩
    rw [hpieces] at hmem
    have hpiece : ∀ frame ∈ scanned, ∃ i, IsPieceFrame platform pieces frame i := by
      intro frame hscan
      obtain ⟨i, payload, hi, rfl⟩ := (hmem frame).mp (hscanned frame hscan)
      exact ⟨i, hframe i payload hi⟩
    have hall := allSeen_iff hmem hframe hscanned
    have hnonempty : AllSeen pieces (seenIndexes platform scanned) →
        seenIndexes platform scanned ≠ ∅ := by
      intro hseen hempty
      have hpositive : 0 < pieces.length := by
        rw [← hpieces, xcwPieces, List.length_cons]
        omega
      rw [hempty] at hseen
      have hzero : 0 ∈ (∅ : Finset ℕ) := by rwa [hseen, Finset.mem_range]
      exact absurd hzero (Finset.notMem_empty 0)
    have hrun := collectXcw_eq hpiece
    refine ⟨bytes, hbytes, ?_, fun hscan => ?_, fun hmissing => ?_, fun rescanned hsame => ?_⟩
    · rw [hrun, seenState]
      split_ifs <;> rfl
    · have hseen := hall.mpr hscan
      rw [hrun, seenState, if_neg (hnonempty hseen)]
      simp [heldState, hseen, hflat]
    · have hseen : ¬AllSeen pieces (seenIndexes platform scanned) := fun h => hmissing (hall.mp h)
      rw [hrun, seenState]
      split_ifs
      · exact ⟨rfl, rfl⟩
      · simp [heldState, hseen]
    · have hpiece' : ∀ frame ∈ rescanned, ∃ i, IsPieceFrame platform pieces frame i :=
        fun frame hframe => hpiece frame ((hsame frame).mp hframe)
      have hindexes : seenIndexes platform rescanned = seenIndexes platform scanned := by
        ext i
        rw [mem_seenIndexes hpiece, mem_seenIndexes hpiece']
        exact exists_congr fun frame => and_congr_left fun _ => hsame frame
      rw [hrun, collectXcw_eq hpiece', hindexes]
  · intro frames hcomplete
    obtain ⟨taken, rest, rfl, hsame, hfirst, -⟩ := firstChunk_collectXcw (error_of_complete hcomplete)
    rw [hsame] at hcomplete
    obtain ⟨psbt, hpsbt, hhash⟩ := hfirst.verified hcomplete
    obtain ⟨frame, hframe, parsed, hparse, hn⟩ := hfirst.origin (by rw [hhash]; rfl)
    refine ⟨taken, rest, psbt, rfl, hsame, by rw [hsame, hpsbt],
      ⟨frame, hframe, parsed, hparse, hn⟩, ?_⟩
    intro other hother parsed' hparse' hn'
    have hagree := hfirst.agree other hother parsed' hparse' hn'
    rw [hhash] at hagree
    exact (Option.some.inj hagree).symm

end XchainWallet
