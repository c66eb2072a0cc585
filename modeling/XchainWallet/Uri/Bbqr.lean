import XchainWallet.Checks.Refuse
import XchainWallet.Chunks.Slots
import XchainWallet.Js.Text
import XchainWallet.Wire.Bytes

/-!
# BBQr frames

A PSBT that goes over animated QR codes as BBQr is cut in pieces, and each frame carries one, with
the number of frames and its index in two digits of base 36. `decodeBbqrFrames` fills one slot for
each index and refuses frames that contradict each other, and frames that leave a slot empty. The
base32 and zlib codecs of the frames that other wallets send are parameters.
-/

namespace XchainWallet

open Wire Checks Chunks

/-- The error of the codec. -/
structure BbqrError where
  msg : String
deriving DecidableEq

def BbqrError.message (e : BbqrError) : String := "bbqr: " ++ e.msg

/-- `BBQR_ENCODINGS`. -/
inductive BbqrEncoding
  | hex
  | base32
  | zlib
deriving DecidableEq

/-- The character of an encoding. -/
def BbqrEncoding.char : BbqrEncoding → Char
  | hex => 'H'
  | base32 => 'B'
  | zlib => 'Z'

/-- The encoding of a character. -/
def BbqrEncoding.ofChar? (c : Char) : Option BbqrEncoding :=
  [hex, base32, zlib].find? (·.char = c)

/-- `BBQR_FILE_TYPES`. -/
inductive BbqrFileType
  | psbt
  | transaction
  | binary
  | cbor
  | utf8
  | json
  | executable
deriving DecidableEq

/-- The character of a file type. -/
def BbqrFileType.char : BbqrFileType → Char
  | psbt => 'P'
  | transaction => 'T'
  | binary => 'R'
  | cbor => 'C'
  | utf8 => 'U'
  | json => 'J'
  | executable => 'X'

/-- The file type of a character. -/
def BbqrFileType.ofChar? (c : Char) : Option BbqrFileType :=
  [psbt, transaction, binary, cbor, utf8, json, executable].find? (·.char = c)

structure BbqrFrame where
  encoding : BbqrEncoding
  fileType : BbqrFileType
  total : ℕ
  index : ℕ
  payload : List Char
deriving DecidableEq

/-- `DEFAULT_BBQR_PAYLOAD_BYTES`. -/
def defaultBbqrPayloadBytes : ℕ := 200

/-- `BBQR_MAX_FRAMES`. -/
def bbqrMaxFrames : ℕ := 1295

/-- `BBQR_BASE36_ALPHABET`. -/
def base36Alphabet : List Char := "0123456789ABCDEFGHIJKLMNOPQRSTUVWXYZ".toList

/-! ### Numbers and bytes in text -/

/-- `formatBase36(n)`. -/
def formatBase36 (n : ℕ) : Except BbqrError (List Char) := do
  refuseIf (bbqrMaxFrames < n) ⟨"base36 input out of range: " ++ toString n⟩
  pure [base36Alphabet.getD (n / 36 % 36) '0', base36Alphabet.getD (n % 36) '0']

/-- `parseBase36(s)`. -/
def parseBase36 (s : List Char) : Except BbqrError ℕ := do
  refuseIf (s.length ≠ 2)
    ⟨"base36 input must be exactly 2 chars, got \"" ++ String.ofList s ++ "\""⟩
  s.foldlM (fun n ch => do
    let idx ← orRefuse (indexOf (jsUpper ch) base36Alphabet)
      ⟨"bad base36 char \"" ++ String.ofList [ch] ++ "\" (alphabet 0-9A-Z)"⟩
    pure (n * 36 + idx)) 0

/-- `bytesToHexUpper(bytes)`. -/
def bytesToHexUpper (bytes : List UInt8) : List Char := (hexOf bytes).map Char.toUpper

/-- `decodeHexUpper(s)`. -/
def decodeHexUpper (s : List Char) : Except BbqrError (List UInt8) :=
  let clean := s.flatMap jsUpper
  orRefuse (if clean.all (· ∈ "0123456789ABCDEF".toList) then ofHex clean else none)
    ⟨"hex payload must be even-length 0-9A-F"⟩

/-- A PSBT as it is handed to the encoders. -/
inductive PsbtInput
  | bytes (bytes : List UInt8)
  | text (s : String)

/-- `trim().toLowerCase().replace(/^0x/, '')` of a hex text, and its bytes where it is one. -/
def hexInput? (s : String) : Option (List UInt8) :=
  let lower := (jsTrim s.toList).map Char.toLower
  ofHex (if ['0', 'x'].isPrefixOf lower then lower.drop 2 else lower)

/-- `normalizePsbtBytes(psbt)`. -/
def normalizePsbtBytes : PsbtInput → Except BbqrError (List UInt8)
  | .bytes bytes => .ok bytes
  | .text s => orRefuse (hexInput? s) ⟨"psbt hex must be even-length 0-9a-f"⟩

/-! ### Encoding -/

/-- The text of frame `index`. -/
def bbqrFrameText (totalStr indexStr payload : List Char) : String :=
  String.ofList (['B', '$', BbqrEncoding.hex.char, BbqrFileType.psbt.char] ++ totalStr ++ indexStr ++
    payload)

/-- A positive integer, where the number is one. -/
def positiveInteger? (n : JsNumber) : Option ℕ :=
  n.bind fun q => if q.den = 1 ∧ 1 ≤ q.num then some q.num.toNat else none

theorem positiveInteger_pos {n : JsNumber} {size : ℕ}
    (h : positiveInteger? n = some size) : 0 < size := by
  simp only [positiveInteger?, Option.bind_eq_some_iff, Option.ite_none_right_eq_some,
    Option.some.injEq] at h
  obtain ⟨q, -, ⟨-, hq⟩, rfl⟩ := h
  omega

theorem positiveInteger_natCast {size : ℕ} (h : 0 < size) :
    positiveInteger? (some (size : ℚ)) = some size := by
  have hcond : (size : ℚ).den = 1 ∧ 1 ≤ (size : ℚ).num := ⟨Rat.den_natCast size, by
    rw [Rat.num_natCast]
    omega⟩
  rw [positiveInteger?, Option.bind_some, if_pos hcond, Rat.num_natCast, Int.toNat_natCast]

/-- `encodeBbqrPsbtFrames(psbt, opts)`. The option is `none` where it is left out. -/
def encodeBbqrPsbtFrames (psbt : PsbtInput) (payloadBytes : Option JsNumber) :
    Except BbqrError (List String) := do
  let bytes ← normalizePsbtBytes psbt
  refuseIf (bytes = []) ⟨"cannot encode an empty PSBT"⟩
  let payloadBytes ← orRefuse (positiveInteger? (payloadBytes.getD (some defaultBbqrPayloadBytes)))
    ⟨"payloadBytes must be a positive integer"⟩
  let total := pieceCount payloadBytes bytes.length
  refuseIf (bbqrMaxFrames < total)
    ⟨"PSBT too large: would need " ++ toString total ++ " frames, BBQr max is " ++
      toString bbqrMaxFrames⟩
  (List.range total).mapM fun i => do
    let totalStr ← formatBase36 total
    let indexStr ← formatBase36 i
    pure (bbqrFrameText totalStr indexStr (bytesToHexUpper (piece payloadBytes bytes i)))

/-! ### Decoding -/

/-- `parseBbqrFrame(frame)`. -/
def parseBbqrFrame (frame : String) : Except BbqrError BbqrFrame := do
  let trimmed := jsTrim frame.toList
  refuseIf (trimmed.length < 8)
    ⟨"frame too short (" ++ toString trimmed.length ++ " < 8)"⟩
  refuseIf (¬['B', '$'].isPrefixOf trimmed)
    ⟨"frame does not start with magic prefix \"B$\""⟩
  let encodingChar := trimmed.getD 2 ' '
  let fileTypeChar := trimmed.getD 3 ' '
  let encoding ← orRefuse (BbqrEncoding.ofChar? encodingChar)
    ⟨"unsupported encoding char \"" ++ String.ofList [encodingChar] ++ "\""⟩
  let fileType ← orRefuse (BbqrFileType.ofChar? fileTypeChar)
    ⟨"unsupported file type char \"" ++ String.ofList [fileTypeChar] ++ "\""⟩
  let total ← parseBase36 ((trimmed.drop 4).take 2)
  let index ← parseBase36 ((trimmed.drop 6).take 2)
  refuseIf (total < 1 ∨ bbqrMaxFrames < total) ⟨"bad total " ++ toString total⟩
  refuseIf (total ≤ index)
    ⟨"bad index " ++ toString index ++ " (0-based, must be < total " ++ toString total ++ ")"⟩
  pure ⟨encoding, fileType, total, index, trimmed.drop 8⟩

/-- What the loop over the frames has collected. -/
structure BbqrSlots where
  total : ℕ
  encoding : BbqrEncoding
  fileType : BbqrFileType
  slots : List (Option (List Char))

/-- The slots as a frame meets them: those of its own header where it is the first, else those
collected, whose header it must share. -/
def slotsFor (parsed : BbqrFrame) : Option BbqrSlots → Except BbqrError BbqrSlots
  | none => .ok ⟨parsed.total, parsed.encoding, parsed.fileType, List.replicate parsed.total none⟩
  | some st => do
    refuseIf (parsed.total ≠ st.total)
      ⟨"total mismatch: saw " ++ toString parsed.total ++ ", expected " ++ toString st.total⟩
    refuseIf (parsed.encoding ≠ st.encoding)
      ⟨"encoding mismatch: saw \"" ++ String.ofList [parsed.encoding.char] ++ "\", expected \"" ++
        String.ofList [st.encoding.char] ++ "\""⟩
    refuseIf (parsed.fileType ≠ st.fileType)
      ⟨"fileType mismatch: saw \"" ++ String.ofList [parsed.fileType.char] ++ "\", expected \"" ++
        String.ofList [st.fileType.char] ++ "\""⟩
    pure st

/-- One turn of the loop over the frames. -/
def collectBbqrFrame (collected : Option BbqrSlots) (raw : String) :
    Except BbqrError (Option BbqrSlots) := do
  let parsed ← parseBbqrFrame raw
  let st ← slotsFor parsed collected
  refuseIf (st.slots[parsed.index]?.join.any (· ≠ parsed.payload))
    ⟨"payload mismatch on duplicate index " ++ toString parsed.index⟩
  pure (some { st with slots := st.slots.set parsed.index (some parsed.payload) })

/-- The codecs of base32 and zlib, each with what it throws. -/
structure BbqrCodecs where
  base32Decode : List Char → Except String (List UInt8)
  inflate : List UInt8 → Except String (List UInt8)
  inflateRaw : List UInt8 → Except String (List UInt8)

namespace BbqrCodecs

variable (codecs : BbqrCodecs)

/-- `inflateZlib(compressed)`. -/
def inflateZlib (compressed : List UInt8) : Except BbqrError (List UInt8) :=
  match codecs.inflate compressed with
  | .ok bytes => .ok bytes
  | .error e => (codecs.inflateRaw compressed).mapError fun _ => ⟨"zlib inflate failed: " ++ e⟩

/-- `decodeBase32NoPad(s)`. -/
def decodeBase32NoPad (s : List Char) : Except BbqrError (List UInt8) := do
  let clean := s.flatMap jsUpper
  refuseIf (!clean.all (· ∈ "ABCDEFGHIJKLMNOPQRSTUVWXYZ234567".toList))
    ⟨"base32 payload must be A-Z and 2-7 only"⟩
  let padded := clean ++ List.replicate ((8 - clean.length % 8) % 8) '='
  (codecs.base32Decode padded).mapError fun e => ⟨"base32 decode failed: " ++ e⟩

/-- The bytes of the payloads, joined. -/
def decodeJoined (joined : List Char) : BbqrEncoding → Except BbqrError (List UInt8)
  | .hex => decodeHexUpper joined
  | .base32 => codecs.decodeBase32NoPad joined
  | .zlib => do
    let compressed ← codecs.decodeBase32NoPad joined
    codecs.inflateZlib compressed

/-- `decodeBbqrFrames(frames)`. -/
def decodeBbqrFrames (frames : List String) :
    Except BbqrError (List UInt8 × BbqrFileType × BbqrEncoding) := do
  let collected ← frames.foldlM collectBbqrFrame none
  let st ← orRefuse collected ⟨"frames must be a non-empty array"⟩
  match st.slots.findIdx? Option.isNone with
  | some i => .error ⟨"missing frame index " ++ toString i ++ " (have " ++
      toString (st.slots.countP fun slot => slot.any (· ≠ [])) ++ " of " ++ toString st.total ++ ")"⟩
  | none => do
    let bytes ← codecs.decodeJoined (st.slots.flatMap (·.getD [])) st.encoding
    pure (bytes, st.fileType, st.encoding)

/-- `decodeBbqrPsbt(frames)`. -/
def decodeBbqrPsbt (frames : List String) : Except BbqrError (List UInt8 × List Char) := do
  let (bytes, fileType, _) ← codecs.decodeBbqrFrames frames
  refuseIf (fileType ≠ .psbt)
    ⟨"expected PSBT (file type P), got \"" ++ String.ofList [fileType.char] ++ "\""⟩
  pure (bytes, hexOf bytes)

end BbqrCodecs

end XchainWallet
