import XchainWallet.Decimal.Plain
import XchainWallet.Uri.Bbqr
import XchainWallet.Wire.Base64

/-!
# XCW frames

The wallet's own form of a PSBT over animated QR codes. The bytes are cut in pieces, the first of
them is put behind the SHA-256 of all bytes, and each frame carries a piece with its number, the
number of frames and a checksum. `addChunkToCollector` takes one scanned frame at a time, whatever
it is; the collection is complete when all slots are filled and the bytes hash to what the first
frame carries. SHA-256 and the text of a failed `atob` are parameters.
-/

namespace XchainWallet

open Wire Checks Chunks

/-- `XcwChunkError`. -/
structure XcwChunkError where
  msg : String
deriving DecidableEq

def XcwChunkError.message (e : XcwChunkError) : String := "xcw-qr: " ++ e.msg

/-- `XCW_PREFIX`. -/
def xcwPrefix : List Char := ['X', 'C', 'W', ':']

/-- `DEFAULT_CHUNK_BYTES`. -/
def defaultChunkBytes : ℕ := 180

/-- `XCW_MAX_FRAMES`. -/
def xcwMaxFrames : ℕ := 4096

/-- `XCW_MAX_FRAME_CHARS`. -/
def xcwMaxFrameChars : ℕ := 8 * 1024

/-- `SHA256_LEN`. -/
def sha256Len : ℕ := 32

/-- What the transport uses of its platform: SHA-256, whose digests have 32 bytes, and the message
of the error that `atob` throws. -/
structure XcwPlatform where
  sha256 : List UInt8 → List UInt8
  atobError : List Char → String
  length_sha256 : ∀ bytes, (sha256 bytes).length = sha256Len

/-! ### Checksums -/

/-- One of the eight turns of the inner loop that fills `CRC32_TABLE`. -/
def crc32Turn (c : UInt32) : UInt32 :=
  if c &&& 1 = 1 then (0xedb88320 : UInt32) ^^^ (c >>> 1) else c >>> 1

/-- `CRC32_TABLE[i]`. -/
def crc32Entry (i : UInt32) : UInt32 := crc32Turn^[8] i

/-- `crc32(bytes)`. -/
def crc32 (bytes : List UInt8) : UInt32 :=
  bytes.foldl (fun c b => crc32Entry ((c ^^^ b.toUInt32) &&& 0xff) ^^^ (c >>> 8)) 0xffffffff ^^^
    0xffffffff

/-- `toString(16).padStart(8, '0')` of a checksum. -/
def crcHex (crc : UInt32) : List Char := hexOf (leBytes 4 crc.toNat).reverse

/-! ### Encoding -/

/-- `normalizePsbtInput(psbt)`. -/
def normalizePsbtInput : PsbtInput → Except XcwChunkError (List UInt8)
  | .bytes bytes => .ok bytes
  | .text s => orRefuse (hexInput? s) ⟨"psbt hex must be even-length lowercase hex"⟩

/-- An integer from 32 on, where the number is one. -/
def chunkSize? (n : JsNumber) : Option ℕ := (positiveInteger? n).filter (32 ≤ ·)

/-- The pieces: a first one that leaves room for the hash, then one after the other as long as there
are bytes. -/
def xcwPieces (chunkBytes : ℕ) (bytes : List UInt8) : List (List UInt8) :=
  bytes.take (chunkBytes - sha256Len) :: inPieces chunkBytes (bytes.drop (chunkBytes - sha256Len))

/-- The text of frame `n`. -/
def xcwFrameText (n total : ℕ) (content : List UInt8) : List Char :=
  xcwPrefix ++ n.repr.toList ++ ['/'] ++ total.repr.toList ++ [':'] ++ crcHex (crc32 content) ++
    [':'] ++ base64Of content

/-- A frame as it is read. -/
structure XcwChunk where
  n : ℕ
  total : ℕ
  content : List UInt8
deriving DecidableEq

/-- A nonempty run of digits before a given character, and what is behind that. -/
def digitsBefore (stop : Char) (text : List Char) : Option (List Char × List Char) :=
  match text.takeWhile Char.isDigit, text.dropWhile Char.isDigit with
  | [], _ => none
  | _, [] => none
  | digits, c :: rest => if c = stop then some (digits, rest) else none

/-- The groups of `CHUNK_RE` in a text that it matches. -/
def chunkGroups? (text : List Char) : Option (List Char × List Char × List Char × List Char) :=
  if xcwPrefix.isPrefixOf text then do
    let (n, rest) ← digitsBefore '/' (text.drop xcwPrefix.length)
    let (total, rest) ← digitsBefore ':' rest
    let crc := rest.take 8
    match rest.drop 8 with
    | ':' :: b64 =>
      if crc.length = 8 ∧ crc.all (· ∈ hexDigits) ∧ b64 ≠ [] ∧ b64.all (!isLineTerminator ·) then
        some (n, total, crc, b64)
      else none
    | _ => none
  else none

namespace XcwPlatform

variable (platform : XcwPlatform)

/-! ### Frames -/

/-- What the frame at index `i` carries. -/
def chunkContent (bytes : List UInt8) (i : ℕ) (payload : List UInt8) : List UInt8 :=
  if i = 0 then platform.sha256 bytes ++ payload else payload

/-- `encodeXcwChunks(psbt, opts)`. The option is `none` where it is left out. -/
def encodeXcwChunks (psbt : PsbtInput) (chunkBytes : Option JsNumber) :
    Except XcwChunkError (List String) := do
  let bytes ← normalizePsbtInput psbt
  let chunkBytes ← orRefuse (chunkSize? (chunkBytes.getD (some defaultChunkBytes)))
    ⟨"chunkBytes must be a positive integer ≥ 32"⟩
  refuseIf (bytes = []) ⟨"empty PSBT"⟩
  refuseIf (chunkBytes - sha256Len < 1)
    ⟨"chunkBytes too small to hold the hash plus any payload"⟩
  let pieces := xcwPieces chunkBytes bytes
  let total := pieces.length
  refuseIf (xcwMaxFrames < total)
    ⟨"PSBT would need " ++ toString total ++ " frames, over the " ++ toString xcwMaxFrames ++
      "-frame cap"⟩
  pieces.zipIdx.mapM fun (payload, i) => do
    let frame := xcwFrameText (i + 1) total (platform.chunkContent bytes i payload)
    refuseIf (xcwMaxFrameChars < jsLength frame)
      ⟨"encoded frame is " ++ toString (jsLength frame) ++ " chars, over the " ++
        toString xcwMaxFrameChars ++ "-char cap"⟩
    pure (String.ofList frame)

/-- `parseXcwChunk(frame)`. -/
def parseXcwChunk (frame : String) : Except XcwChunkError XcwChunk := do
  refuseIf (xcwMaxFrameChars < jsLength frame.toList)
    ⟨"frame is " ++ toString (jsLength frame.toList) ++ " chars, over the " ++
      toString xcwMaxFrameChars ++ "-char cap"⟩
  let trimmed := jsTrim frame.toList
  let (nDigits, totalDigits, crc, b64) ← orRefuse (chunkGroups? trimmed)
    ⟨"malformed frame: \"" ++ String.ofList (trimmed.take 40) ++ "…\""⟩
  let n := Decimal.digitsValue nDigits
  let total := Decimal.digitsValue totalDigits
  refuseIf (¬(1 ≤ n ∧ 1 ≤ total ∧ n ≤ total))
    ⟨"bad chunk index " ++ toString n ++ "/" ++ toString total⟩
  refuseIf (xcwMaxFrames < total)
    ⟨"frame count " ++ toString total ++ " exceeds the " ++ toString xcwMaxFrames ++ "-frame cap"⟩
  let content ← orRefuse (ofBase64 b64) ⟨"base64 decode failed: " ++ platform.atobError b64⟩
  let actual := crcHex (crc32 content)
  refuseIf (actual ≠ crc)
    ⟨"crc32 mismatch on chunk " ++ toString n ++ "/" ++ toString total ++ " (expected " ++
      String.ofList crc ++ ", got " ++ String.ofList actual ++ ")"⟩
  pure ⟨n, total, content⟩

end XcwPlatform

/-! ### The collector -/

/-- `XcwCollectorState`. -/
structure XcwCollectorState where
  total : Option ℕ
  received : List (Option (List UInt8))
  receivedCount : ℕ
  complete : Bool
  expectedHash : Option (List UInt8)
  psbt : Option (List UInt8)
  error : Option String
deriving DecidableEq

/-- `createXcwCollector()`. -/
def createXcwCollector : XcwCollectorState := ⟨none, [], 0, false, none, none, none⟩

namespace XcwPlatform

variable (platform : XcwPlatform)

/-- The end of `addChunkToCollector`: one more slot is filled, and with the last one the bytes are
put together and checked against the hash. -/
def countChunk (state : XcwCollectorState) : XcwCollectorState :=
  let counted : XcwCollectorState := { state with receivedCount := state.receivedCount + 1 }
  if some counted.receivedCount = counted.total then
    let out := counted.received.flatMap (·.getD [])
    if counted.expectedHash = some (platform.sha256 out) then
      { counted with psbt := some out, complete := true }
    else
      { counted with
        error := some "SHA256 of reassembled PSBT does not match hash from chunk 1" }
  else counted

/-- The middle of `addChunkToCollector`: the frame is put in its slot, or compared with what the
slot holds. -/
def fillChunk (parsed : XcwChunk) (state : XcwCollectorState) : XcwCollectorState :=
  if parsed.n = 1 then
    if parsed.content.length < sha256Len then
      { state with error := some "chunk 1 too short to hold SHA256 hash" }
    else
      let hash := parsed.content.take sha256Len
      let payload := parsed.content.drop sha256Len
      match state.received[0]?.join with
      | some held =>
        if state.expectedHash = some hash ∧ payload = held then state
        else { state with error := some "conflicting content for chunk 1" }
      | none =>
        platform.countChunk
          { state with expectedHash := some hash, received := state.received.set 0 (some payload) }
  else
    match state.received[parsed.n - 1]?.join with
    | some held =>
      if parsed.content = held then state
      else { state with error := some ("conflicting content for chunk " ++ toString parsed.n) }
    | none =>
      platform.countChunk
        { state with received := state.received.set (parsed.n - 1) (some parsed.content) }

/-- `addChunkToCollector(state, frame)`. -/
def addChunkToCollector (state : XcwCollectorState) (frame : String) : XcwCollectorState :=
  if state.complete ∨ state.error.isSome then state
  else
    match platform.parseXcwChunk frame with
    | .error e => { state with error := some e.message }
    | .ok parsed =>
      match state.total with
      | none =>
        platform.fillChunk parsed
          { state with
            total := some parsed.total
            received := List.replicate parsed.total none }
      | some total =>
        if total ≠ parsed.total then
          { state with
            error := some ("total mismatch: saw " ++ toString parsed.total ++ ", expected " ++
              toString total) }
        else platform.fillChunk parsed state

/-- The collector after some frames. -/
def collectXcw (frames : List String) : XcwCollectorState :=
  frames.foldl platform.addChunkToCollector createXcwCollector

end XcwPlatform

end XchainWallet
