import XchainWallet.Uri.Fountain

/-!
# UR frames

A frame of a UR names a type and carries bytes as bytewords, two letters for each byte and a
checksum at the end. Where the message takes several frames, the bytes are a fountain part in CBOR,
and the frame has a sequence segment as well. `UrPsbtDecoder.receive` takes one scanned frame,
whatever it is, and hands the part that is in its bytes to the fountain assembler. The sequence
segment is checked, but not against the numbers of the part.
-/

namespace XchainWallet

open Wire Checks

/-- `UR_MAX_FRAME_CHARS`. -/
def urMaxFrameChars : ℕ := 8 * 1024

/-- `UR_PREFIX`. -/
def urPrefix : List Char := ['u', 'r', ':']

/-- `UR_PSBT_TYPE`. -/
def urPsbtType : List Char := "crypto-psbt".toList

/-! ### Bytewords -/

/-- `BYTEWORDS`, word by word. -/
def bytewords : List (Char × Char × Char × Char) :=
  [('a', 'b', 'l', 'e'), ('a', 'c', 'i', 'd'), ('a', 'l', 's', 'o'), ('a', 'p', 'e', 'x'),
    ('a', 'q', 'u', 'a'), ('a', 'r', 'c', 'h'), ('a', 't', 'o', 'm'), ('a', 'u', 'n', 't'),
    ('a', 'w', 'a', 'y'), ('a', 'x', 'i', 's'), ('b', 'a', 'c', 'k'), ('b', 'a', 'l', 'd'),
    ('b', 'a', 'r', 'n'), ('b', 'e', 'l', 't'), ('b', 'e', 't', 'a'), ('b', 'i', 'a', 's'),
    ('b', 'l', 'u', 'e'), ('b', 'o', 'd', 'y'), ('b', 'r', 'a', 'g'), ('b', 'r', 'e', 'w'),
    ('b', 'u', 'l', 'b'), ('b', 'u', 'z', 'z'), ('c', 'a', 'l', 'm'), ('c', 'a', 's', 'h'),
    ('c', 'a', 't', 's'), ('c', 'h', 'e', 'f'), ('c', 'i', 't', 'y'), ('c', 'l', 'a', 'w'),
    ('c', 'o', 'd', 'e'), ('c', 'o', 'l', 'a'), ('c', 'o', 'o', 'k'), ('c', 'o', 's', 't'),
    ('c', 'r', 'u', 'x'), ('c', 'u', 'r', 'l'), ('c', 'u', 's', 'p'), ('c', 'y', 'a', 'n'),
    ('d', 'a', 'r', 'k'), ('d', 'a', 't', 'a'), ('d', 'a', 'y', 's'), ('d', 'e', 'l', 'i'),
    ('d', 'i', 'c', 'e'), ('d', 'i', 'e', 't'), ('d', 'o', 'o', 'r'), ('d', 'o', 'w', 'n'),
    ('d', 'r', 'a', 'w'), ('d', 'r', 'o', 'p'), ('d', 'r', 'u', 'm'), ('d', 'u', 'l', 'l'),
    ('d', 'u', 't', 'y'), ('e', 'a', 'c', 'h'), ('e', 'a', 's', 'y'), ('e', 'c', 'h', 'o'),
    ('e', 'd', 'g', 'e'), ('e', 'p', 'i', 'c'), ('e', 'v', 'e', 'n'), ('e', 'x', 'a', 'm'),
    ('e', 'x', 'i', 't'), ('e', 'y', 'e', 's'), ('f', 'a', 'c', 't'), ('f', 'a', 'i', 'r'),
    ('f', 'e', 'r', 'n'), ('f', 'i', 'g', 's'), ('f', 'i', 'l', 'm'), ('f', 'i', 's', 'h'),
    ('f', 'i', 'z', 'z'), ('f', 'l', 'a', 'p'), ('f', 'l', 'e', 'w'), ('f', 'l', 'u', 'x'),
    ('f', 'o', 'x', 'y'), ('f', 'r', 'e', 'e'), ('f', 'r', 'o', 'g'), ('f', 'u', 'e', 'l'),
    ('f', 'u', 'n', 'd'), ('g', 'a', 'l', 'a'), ('g', 'a', 'm', 'e'), ('g', 'e', 'a', 'r'),
    ('g', 'e', 'm', 's'), ('g', 'i', 'f', 't'), ('g', 'i', 'r', 'l'), ('g', 'l', 'o', 'w'),
    ('g', 'o', 'o', 'd'), ('g', 'r', 'a', 'y'), ('g', 'r', 'i', 'm'), ('g', 'u', 'r', 'u'),
    ('g', 'u', 's', 'h'), ('g', 'y', 'r', 'o'), ('h', 'a', 'l', 'f'), ('h', 'a', 'n', 'g'),
    ('h', 'a', 'r', 'd'), ('h', 'a', 'w', 'k'), ('h', 'e', 'a', 't'), ('h', 'e', 'l', 'p'),
    ('h', 'i', 'g', 'h'), ('h', 'i', 'l', 'l'), ('h', 'o', 'l', 'y'), ('h', 'o', 'p', 'e'),
    ('h', 'o', 'r', 'n'), ('h', 'u', 't', 's'), ('i', 'c', 'e', 'd'), ('i', 'd', 'e', 'a'),
    ('i', 'd', 'l', 'e'), ('i', 'n', 'c', 'h'), ('i', 'n', 'k', 'y'), ('i', 'n', 't', 'o'),
    ('i', 'r', 'i', 's'), ('i', 'r', 'o', 'n'), ('i', 't', 'e', 'm'), ('j', 'a', 'd', 'e'),
    ('j', 'a', 'z', 'z'), ('j', 'o', 'i', 'n'), ('j', 'o', 'l', 't'), ('j', 'o', 'w', 'l'),
    ('j', 'u', 'd', 'o'), ('j', 'u', 'g', 's'), ('j', 'u', 'm', 'p'), ('j', 'u', 'n', 'k'),
    ('j', 'u', 'r', 'y'), ('k', 'e', 'e', 'p'), ('k', 'e', 'n', 'o'), ('k', 'e', 'p', 't'),
    ('k', 'e', 'y', 's'), ('k', 'i', 'c', 'k'), ('k', 'i', 'l', 'n'), ('k', 'i', 'n', 'g'),
    ('k', 'i', 't', 'e'), ('k', 'i', 'w', 'i'), ('k', 'n', 'o', 'b'), ('l', 'a', 'm', 'b'),
    ('l', 'a', 'v', 'a'), ('l', 'a', 'z', 'y'), ('l', 'e', 'a', 'f'), ('l', 'e', 'g', 's'),
    ('l', 'i', 'a', 'r'), ('l', 'i', 'm', 'p'), ('l', 'i', 'o', 'n'), ('l', 'i', 's', 't'),
    ('l', 'o', 'g', 'o'), ('l', 'o', 'u', 'd'), ('l', 'o', 'v', 'e'), ('l', 'u', 'a', 'u'),
    ('l', 'u', 'c', 'k'), ('l', 'u', 'n', 'g'), ('m', 'a', 'i', 'n'), ('m', 'a', 'n', 'y'),
    ('m', 'a', 't', 'h'), ('m', 'a', 'z', 'e'), ('m', 'e', 'm', 'o'), ('m', 'e', 'n', 'u'),
    ('m', 'e', 'o', 'w'), ('m', 'i', 'l', 'd'), ('m', 'i', 'n', 't'), ('m', 'i', 's', 's'),
    ('m', 'o', 'n', 'k'), ('n', 'a', 'i', 'l'), ('n', 'a', 'v', 'y'), ('n', 'e', 'e', 'd'),
    ('n', 'e', 'w', 's'), ('n', 'e', 'x', 't'), ('n', 'o', 'o', 'n'), ('n', 'o', 't', 'e'),
    ('n', 'u', 'm', 'b'), ('o', 'b', 'e', 'y'), ('o', 'b', 'o', 'e'), ('o', 'm', 'i', 't'),
    ('o', 'n', 'y', 'x'), ('o', 'p', 'e', 'n'), ('o', 'v', 'a', 'l'), ('o', 'w', 'l', 's'),
    ('p', 'a', 'i', 'd'), ('p', 'a', 'r', 't'), ('p', 'e', 'c', 'k'), ('p', 'l', 'a', 'y'),
    ('p', 'l', 'u', 's'), ('p', 'o', 'e', 'm'), ('p', 'o', 'o', 'l'), ('p', 'o', 's', 'e'),
    ('p', 'u', 'f', 'f'), ('p', 'u', 'm', 'a'), ('p', 'u', 'r', 'r'), ('q', 'u', 'a', 'd'),
    ('q', 'u', 'i', 'z'), ('r', 'a', 'c', 'e'), ('r', 'a', 'm', 'p'), ('r', 'e', 'a', 'l'),
    ('r', 'e', 'd', 'o'), ('r', 'i', 'c', 'h'), ('r', 'o', 'a', 'd'), ('r', 'o', 'c', 'k'),
    ('r', 'o', 'o', 'f'), ('r', 'u', 'b', 'y'), ('r', 'u', 'i', 'n'), ('r', 'u', 'n', 's'),
    ('r', 'u', 's', 't'), ('s', 'a', 'f', 'e'), ('s', 'a', 'g', 'a'), ('s', 'c', 'a', 'r'),
    ('s', 'e', 't', 's'), ('s', 'i', 'l', 'k'), ('s', 'k', 'e', 'w'), ('s', 'l', 'o', 't'),
    ('s', 'o', 'a', 'p'), ('s', 'o', 'l', 'o'), ('s', 'o', 'n', 'g'), ('s', 't', 'u', 'b'),
    ('s', 'u', 'r', 'f'), ('s', 'w', 'a', 'n'), ('t', 'a', 'c', 'o'), ('t', 'a', 's', 'k'),
    ('t', 'a', 'x', 'i'), ('t', 'e', 'n', 't'), ('t', 'i', 'e', 'd'), ('t', 'i', 'm', 'e'),
    ('t', 'i', 'n', 'y'), ('t', 'o', 'i', 'l'), ('t', 'o', 'm', 'b'), ('t', 'o', 'y', 's'),
    ('t', 'r', 'i', 'p'), ('t', 'u', 'n', 'a'), ('t', 'w', 'i', 'n'), ('u', 'g', 'l', 'y'),
    ('u', 'n', 'd', 'o'), ('u', 'n', 'i', 't'), ('u', 'r', 'g', 'e'), ('u', 's', 'e', 'r'),
    ('v', 'a', 's', 't'), ('v', 'e', 'r', 'y'), ('v', 'e', 't', 'o'), ('v', 'i', 'a', 'l'),
    ('v', 'i', 'b', 'e'), ('v', 'i', 'e', 'w'), ('v', 'i', 's', 'a'), ('v', 'o', 'i', 'd'),
    ('v', 'o', 'w', 's'), ('w', 'a', 'l', 'l'), ('w', 'a', 'n', 'd'), ('w', 'a', 'r', 'm'),
    ('w', 'a', 's', 'p'), ('w', 'a', 'v', 'e'), ('w', 'a', 'x', 'y'), ('w', 'e', 'b', 's'),
    ('w', 'h', 'a', 't'), ('w', 'h', 'e', 'n'), ('w', 'h', 'i', 'z'), ('w', 'o', 'l', 'f'),
    ('w', 'o', 'r', 'k'), ('y', 'a', 'n', 'k'), ('y', 'a', 'w', 'n'), ('y', 'e', 'l', 'l'),
    ('y', 'o', 'g', 'a'), ('y', 'u', 'r', 't'), ('z', 'a', 'p', 's'), ('z', 'e', 'r', 'o'),
    ('z', 'e', 's', 't'), ('z', 'i', 'n', 'c'), ('z', 'o', 'n', 'e'), ('z', 'o', 'o', 'm')]

/-- The minimal code of each byte: the first and the last letter of its word. -/
def minimalCodes : List (Char × Char) := bytewords.map fun (first, _, _, last) => (first, last)

/-- `MINIMAL_TO_BYTE[code]`. -/
def minimalToByte (code : Char × Char) : Option UInt8 := (minimalCodes.idxOf? code).map UInt8.ofNat

/-- The bytes of the codes of a text of even length. -/
def bytesOfCodes : List Char → Except UrError (List UInt8)
  | first :: last :: rest => do
    let b ← orRefuse (minimalToByte (first, last))
      ⟨"invalid byteword \"" ++ String.ofList [first, last] ++ "\""⟩
    let bytes ← bytesOfCodes rest
    pure (b :: bytes)
  | _ => .ok []

/-- The number of bytes of which the first is the highest. -/
def beNat (bytes : List UInt8) : ℕ := leNat bytes.reverse

/-- `decodeBytewordsMinimal(text)`. -/
def decodeBytewordsMinimal (text : List Char) : Except UrError (List UInt8) := do
  let clean := (jsTrim text).flatMap jsLower
  refuseIf (clean.length = 0) ⟨"empty bytewords"⟩
  refuseIf (clean.length % 2 ≠ 0)
    ⟨"bytewords length must be even (got " ++ toString clean.length ++ ")"⟩
  let all ← bytesOfCodes clean
  refuseIf (all.length < 5)
    ⟨"bytewords too short to carry a checksum (" ++ toString all.length ++ " bytes)"⟩
  let data := all.take (all.length - 4)
  refuseIf ((crc32 data).toNat ≠ beNat (all.drop (all.length - 4))) ⟨"bytewords checksum mismatch"⟩
  pure data

/-! ### CBOR -/

/-- What is read of CBOR. -/
inductive CborValue
  | uint (n : ℕ)
  | bytes (bytes : List UInt8)
  | array (items : List CborValue)

/-- The number that a float of 64 bits holds for a natural number: 53 bits, the nearest, and the even
one of two. -/
def asDouble (n : ℕ) : ℕ :=
  if n < 2 ^ 53 then n
  else
    let unit := 2 ^ (n.log2 - 52)
    let low := n / unit * unit
    if 2 * (n - low) < unit ∨ 2 * (n - low) = unit ∧ n / unit % 2 = 0 then low else low + unit

/-- `readUint(n)` on the bytes that are left, and what is left after it. -/
def readUint (n : ℕ) (rest : List UInt8) : Except UrError (ℕ × List UInt8) := do
  refuseIf (rest.length < n) ⟨"cbor: truncated integer"⟩
  pure ((rest.take n).foldl (fun v b => asDouble (v * 256 + b.toNat)) 0, rest.drop n)

/-- The length that the low bits of an initial byte declare. -/
def cborLength (minor : ℕ) (rest : List UInt8) : Except UrError (ℕ × List UInt8) :=
  if minor < 24 then .ok (minor, rest)
  else
    match minor with
    | 24 => readUint 1 rest
    | 25 => readUint 2 rest
    | 26 => readUint 4 rest
    | 27 => readUint 8 rest
    | _ => .error ⟨"cbor: unsupported additional-info " ++ toString minor⟩

/-- The items of an array, each read by `read`. -/
def cborItems (read : List UInt8 → Except UrError (CborValue × List UInt8)) :
    ℕ → List UInt8 → Except UrError (List CborValue × List UInt8)
  | 0, rest => .ok ([], rest)
  | count + 1, rest => do
    let (item, rest) ← read rest
    let (items, rest) ← cborItems read count rest
    pure (item :: items, rest)

/-- `cborRead(bytes, offset)` on the bytes that are left, with the depth that may still be reached:
each item takes a byte at least. -/
def cborRead : ℕ → List UInt8 → Except UrError (CborValue × List UInt8)
  | 0, _ => .error ⟨"cbor: unexpected end of input"⟩
  | _ + 1, [] => .error ⟨"cbor: unexpected end of input"⟩
  | depth + 1, ib :: rest => do
    let (len, rest) ← cborLength (ib.toNat % 32) rest
    match ib.toNat / 32 with
    | 0 => pure (.uint len, rest)
    | 2 => do
      refuseIf (rest.length < len) ⟨"cbor: truncated byte string"⟩
      pure (.bytes (rest.take len), rest.drop len)
    | 4 => do
      let (items, rest) ← cborItems (cborRead depth) len rest
      pure (.array items, rest)
    | major => .error ⟨"cbor: unsupported major type " ++ toString major⟩

/-- `cborUnwrapBytes(message)`. -/
def cborUnwrapBytes (message : List UInt8) : Except UrError (List UInt8) := do
  let (value, rest) ← cborRead message.length message
  match value with
  | .bytes bytes => do
    refuseIf (rest ≠ []) ⟨"cbor: trailing data after byte string"⟩
    pure bytes
  | _ => .error ⟨"cbor: expected a byte string"⟩

/-- `decodePartCbor(cbor)`. -/
def decodePartCbor (cbor : List UInt8) : Except UrError FountainPart := do
  let (value, _) ← cborRead cbor.length cbor
  match value with
  | .array [.uint seqNum, .uint seqLen, .uint messageLength, .uint checksum, .bytes fragment] => do
    refuseIf (fragment = []) ⟨"fountain part has the wrong field types"⟩
    pure ⟨seqNum, seqLen, messageLength, checksum, fragment⟩
  | .array [_, _, _, _, _] => .error ⟨"fountain part has the wrong field types"⟩
  | _ => .error ⟨"fountain part must be a 5-element CBOR array"⟩

/-! ### Frames -/

structure UrFrame where
  type : List Char
  isSinglePart : Bool
  seqNum : ℕ
  seqLen : ℕ
  cbor : List UInt8
deriving DecidableEq

/-- The text matches `/^[a-z0-9-]+$/`. -/
def isUrType (text : List Char) : Bool :=
  text ≠ [] ∧ text.all fun c => c ∈ "abcdefghijklmnopqrstuvwxyz0123456789-".toList

/-- `Number(m)` is not finite. -/
def isInfinite (n : ℕ) : Bool := 2 ^ 1024 - 2 ^ 970 ≤ n

/-- The numbers of `/^(\d+)-(\d+)$/` in a segment that it matches. -/
def sequence? (segment : List Char) : Option (ℕ × ℕ) := do
  let (seqNum, seqLen) ← digitsBefore '-' segment
  if seqLen ≠ [] ∧ seqLen.all Char.isDigit then
    some (Decimal.digitsValue seqNum, Decimal.digitsValue seqLen)
  else none

/-- `parseUrFrame(frame)`. -/
def parseUrFrame (frame : String) : Except UrError UrFrame := do
  refuseIf (urMaxFrameChars < jsLength frame.toList)
    ⟨"frame is " ++ toString (jsLength frame.toList) ++ " chars, over the " ++
      toString urMaxFrameChars ++ " cap"⟩
  let trimmed := (jsTrim frame.toList).flatMap jsLower
  refuseIf (¬urPrefix.isPrefixOf trimmed) ⟨"frame does not start with \"ur:\""⟩
  match (trimmed.drop urPrefix.length).splitOn '/' with
  | [] => .error ⟨"frame missing payload"⟩
  | [_] => .error ⟨"frame missing payload"⟩
  | [type, body] => do
    refuseIf (!isUrType type) ⟨"invalid UR type \"" ++ String.ofList type ++ "\""⟩
    let cbor ← decodeBytewordsMinimal body
    pure ⟨type, true, 1, 1, cbor⟩
  | [type, segment, body] => do
    refuseIf (!isUrType type) ⟨"invalid UR type \"" ++ String.ofList type ++ "\""⟩
    let (seqNum, seqLen) ← orRefuse (sequence? segment)
      ⟨"malformed sequence segment \"" ++ String.ofList segment ++ "\""⟩
    refuseIf (isInfinite seqNum ∨ isInfinite seqLen ∨ seqNum < 1 ∨ seqLen < 1)
      ⟨"bad sequence " ++ toString seqNum ++ "-" ++ toString seqLen⟩
    refuseIf (urMaxSeqLen < seqLen)
      ⟨"sequence length " ++ toString seqLen ++ " exceeds the " ++ toString urMaxSeqLen ++
        "-part cap"⟩
    let cbor ← decodeBytewordsMinimal body
    pure ⟨type, false, seqNum, seqLen, cbor⟩
  | _ => .error ⟨"frame has extra path segments"⟩

/-! ### The decoder -/

/-- `UrPsbtDecoder`. An expected type that is empty expects none. -/
structure UrPsbtDecoder where
  expectType : List Char
  assembler : Option FountainAssembler
  message : Option (List UInt8)
  type : Option (List Char)

namespace UrPsbtDecoder

/-- The constructor. -/
def create (expectType : List Char) : UrPsbtDecoder := ⟨expectType, none, none, none⟩

/-- `complete`. -/
def complete (d : UrPsbtDecoder) : Bool := d.message.isSome

/-- The end of `receive`: a part is handed to the assembler. -/
def receivePart (chooser : PartChooser) (d : UrPsbtDecoder) (part : FountainPart) :
    UrPsbtDecoder × Except UrError Bool :=
  let (assembler, accepted) := (d.assembler.getD .create).receive chooser part
  let d := { d with assembler := some assembler }
  match accepted with
  | .error e => (d, .error e)
  | .ok accepted =>
    match assembler.result with
    | none => (d, .ok accepted)
    | some result =>
      match cborUnwrapBytes result with
      | .error e => (d, .error e)
      | .ok _ => ({ d with message := some result }, .ok accepted)

/-- `receive(frame)`, with what it throws. -/
def receive (chooser : PartChooser) (d : UrPsbtDecoder) (frame : String) :
    UrPsbtDecoder × Except UrError Bool :=
  if d.complete then (d, .ok false)
  else
    match parseUrFrame frame with
    | .error e => (d, .error e)
    | .ok parsed =>
      if d.expectType ≠ [] ∧ parsed.type ≠ d.expectType then
        (d, .error ⟨"expected UR type \"" ++ String.ofList d.expectType ++ "\", got \"" ++
          String.ofList parsed.type ++ "\""⟩)
      else
        let d := { d with type := some (d.type.getD parsed.type) }
        if some parsed.type ≠ d.type then (d, .ok false)
        else if parsed.isSinglePart then
          match cborUnwrapBytes parsed.cbor with
          | .error e => (d, .error e)
          | .ok _ => ({ d with message := some parsed.cbor }, .ok true)
        else
          let d := { d with assembler := some (d.assembler.getD .create) }
          match decodePartCbor parsed.cbor with
          | .error e => (d, .error e)
          | .ok part => d.receivePart chooser part

/-- The decoder after some frames. What a frame throws is caught where it was scanned. -/
def scan (chooser : PartChooser) (d : UrPsbtDecoder) (frames : List String) : UrPsbtDecoder :=
  frames.foldl (fun d frame => (d.receive chooser frame).1) d

end UrPsbtDecoder

end XchainWallet
