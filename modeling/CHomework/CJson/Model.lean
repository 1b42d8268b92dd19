import CHomework.Lib.Buffer
import CHomework.Lib.CString
import CHomework.Lib.Json

/-!
The parser of the bundled `cJSON.c`. A read outside the input and a write outside the
block that a string is unescaped into have no result.
-/

namespace CHomework.CJson

open CHomework.Buffer CHomework.CString

def nestingLimit : Nat := 1000

/-- The C library's floating point numbers: `strtod` with the number of characters
that it reads, and the whole part of a number, which is out of the range of `int` for
an infinity. What is behind the characters that `strtod` reads makes no difference to it. -/
structure Numbers (D : Type) where
  strtod : List UInt8 → D × Nat
  strtod_le : ∀ text, (strtod text).2 ≤ text.length
  strtod_take : ∀ text, strtod (text.take (strtod text).2) = strtod text
  trunc : D → Int

structure Number (D : Type) where
  valuedouble : D
  valueint : Int32

/-- A `cJSON` of the parser: a type, with what the type uses of the other fields. The
children of an object come with their `string`. -/
abbrev Item (D : Type) := Json.Tree (List UInt8) (Number D)

structure ParseBuffer where
  content : List UInt8
  offset : Nat
  depth : Nat

namespace ParseBuffer

def length (b : ParseBuffer) : Nat := b.content.length

/-- `can_read` and `can_access_at_index`. -/
def canRead (b : ParseBuffer) (size : Nat) : Bool := b.offset + size ≤ b.length

def canAccess (b : ParseBuffer) : Bool := b.offset < b.length

def first (b : ParseBuffer) : Option UInt8 := load b.content b.offset

def skip (b : ParseBuffer) (n : Nat) : ParseBuffer := { b with offset := b.offset + n }

def accesses (b : ParseBuffer) (byte : UInt8) : Option Bool :=
  if b.canAccess then b.first.map (· = byte) else some Bool.false

def reads (b : ParseBuffer) (word : List UInt8) : Option Bool :=
  if b.canRead word.length then
    (memcmp .untilDifference b.content b.offset word).map (· = 0)
  else some Bool.false

def bufferSkipWhitespace (b : ParseBuffer) : ParseBuffer :=
  if b.canAccess then
    let offset := b.offset + ((b.content.drop b.offset).takeWhile (· ≤ 32)).length
    { b with offset := if offset = b.length then offset - 1 else offset }
  else b

/-- Only at the start of the buffer. -/
def skipUtf8Bom (b : ParseBuffer) : Option ParseBuffer :=
  if 4 < b.length then do
    let bom ← memcmp .untilDifference b.content 0 [0xef, 0xbb, 0xbf]
    return if bom = 0 then b.skip 3 else b
  else some b

end ParseBuffer

/-- What a parsing function returns, or nothing where it returns `false`, and the
buffer behind it. -/
abbrev Outcome (α : Type) := Option α × ParseBuffer

def isNumberByte (byte : UInt8) : Bool :=
  ('0'.toUInt8 ≤ byte && byte ≤ '9'.toUInt8) || byte = '+'.toUInt8 || byte = '-'.toUInt8 ||
    byte = 'e'.toUInt8 || byte = 'E'.toUInt8 || byte = '.'.toUInt8

/-- `number_c_string`, a block of 64 bytes. -/
def numberCString (input : List UInt8) : List UInt8 :=
  (input.take 63).takeWhile isNumberByte

/-- The conversion to `int` saturates. -/
def saturate (n : Int) : Int32 :=
  if Int32.maxValue.toInt ≤ n then Int32.maxValue
  else if n ≤ Int32.minValue.toInt then Int32.minValue
  else Int32.ofInt n

def Numbers.number {D : Type} (num : Numbers D) (valuedouble : D) : Number D where
  valuedouble := valuedouble
  valueint := saturate (num.trunc valuedouble)

def parseNumber {D : Type} (num : Numbers D) (b : ParseBuffer) : Option (Outcome (Item D)) :=
  let number := num.strtod (numberCString (b.content.drop b.offset))
  if number.2 = 0 then some (none, b)
  else some (some (.number (num.number number.1)), b.skip number.2)

def hexDigit (byte : UInt8) : Option Nat :=
  if '0'.toUInt8 ≤ byte ∧ byte ≤ '9'.toUInt8 then some (byte.toNat - '0'.toNat)
  else if 'A'.toUInt8 ≤ byte ∧ byte ≤ 'F'.toUInt8 then some (10 + byte.toNat - 'A'.toNat)
  else if 'a'.toUInt8 ≤ byte ∧ byte ≤ 'f'.toUInt8 then some (10 + byte.toNat - 'a'.toNat)
  else none

/-- The loop of `parse_hex4`, with so many digits left. -/
def parseHexLoop (content : List UInt8) : Nat → Nat → Nat → Option Nat
  | 0, _, h => some h
  | n + 1, input, h => do
      let byte ← load content input
      match hexDigit byte with
      | none => return 0
      | some digit =>
          parseHexLoop content n (input + 1) (if n = 0 then h + digit else (h + digit) <<< 4)

def parseHex4 (content : List UInt8) (input : Nat) : Option Nat :=
  parseHexLoop content 4 input 0

/-- The loop that encodes all bytes but the first, from the last one to the front, and
what it leaves of the code point. -/
def encodeContinuation : Nat → Nat → List UInt8 → Nat × List UInt8
  | 0, codepoint, bytes => (codepoint, bytes)
  | n + 1, codepoint, bytes =>
      encodeContinuation n (codepoint >>> 6)
        (UInt8.ofNat ((codepoint ||| 0x80) &&& 0xbf) :: bytes)

def encodeUtf8 (utf8Length firstByteMark codepoint : Nat) : List UInt8 :=
  let rest := encodeContinuation (utf8Length - 1) codepoint []
  if 1 < utf8Length then UInt8.ofNat ((rest.1 ||| firstByteMark) &&& 0xff) :: rest.2
  else [UInt8.ofNat (rest.1 &&& 0x7f)]

def utf8Bytes (codepoint : Nat) : Option (List UInt8) :=
  if codepoint < 0x80 then some (encodeUtf8 1 0 codepoint)
  else if codepoint < 0x800 then some (encodeUtf8 2 0xc0 codepoint)
  else if codepoint < 0x10000 then some (encodeUtf8 3 0xe0 codepoint)
  else if codepoint ≤ 0x10ffff then some (encodeUtf8 4 0xf0 codepoint)
  else none

/-- The code point of a literal and the length of the literal, if it is valid. -/
def utf16Literal (content : List UInt8) (inputPointer inputEnd : Nat) :
    Option (Option (Nat × Nat)) := do
  if inputEnd < inputPointer + 6 then return none
  let firstCode ← parseHex4 content (inputPointer + 2)
  if 0xdc00 ≤ firstCode ∧ firstCode ≤ 0xdfff then return none
  if 0xd800 ≤ firstCode ∧ firstCode ≤ 0xdbff then do
    let secondSequence := inputPointer + 6
    if inputEnd < secondSequence + 6 then return none
    if (← load content secondSequence) ≠ '\\'.toUInt8 then return none
    if (← load content (secondSequence + 1)) ≠ 'u'.toUInt8 then return none
    let secondCode ← parseHex4 content (secondSequence + 2)
    if secondCode < 0xdc00 ∨ 0xdfff < secondCode then return none
    return some (0x10000 + (((firstCode &&& 0x3ff) <<< 10) ||| (secondCode &&& 0x3ff)), 12)
  else return some (firstCode, 6)

/-- Store bytes behind those that are in a block of this size. -/
def append (size : Nat) (output bytes : List UInt8) : Option (List UInt8) :=
  if output.length + bytes.length ≤ size then some (output ++ bytes) else none

/-- The output behind the literal and the length of the literal, which is 0 when it is
not valid. -/
def utf16LiteralToUtf8 (content : List UInt8) (inputPointer inputEnd size : Nat)
    (output : List UInt8) : Option (Nat × List UInt8) := do
  match ← utf16Literal content inputPointer inputEnd with
  | none => return (0, output)
  | some (codepoint, sequenceLength) =>
      match utf8Bytes codepoint with
      | none => return (0, output)
      | some bytes => return (sequenceLength, ← append size output bytes)

/-- The first pass of `parse_string`, which looks for the closing quote: its index, and
the number of bytes that are skipped. -/
def findStringEnd (content : List UInt8) : Nat → Nat → Nat → Option (Option (Nat × Nat))
  | 0, _, _ => none
  | rounds + 1, inputEnd, skippedBytes =>
      if inputEnd < content.length then do
        let byte ← load content inputEnd
        if byte = '"'.toUInt8 then return some (inputEnd, skippedBytes)
        else if byte = '\\'.toUInt8 then
          if content.length ≤ inputEnd + 1 then return none
          else findStringEnd content rounds (inputEnd + 2) (skippedBytes + 1)
        else findStringEnd content rounds (inputEnd + 1) skippedBytes
      else some none

def unescaped (byte : UInt8) : Option UInt8 :=
  if byte = 'b'.toUInt8 then some 8
  else if byte = 'f'.toUInt8 then some 12
  else if byte = 'n'.toUInt8 then some 10
  else if byte = 'r'.toUInt8 then some 13
  else if byte = 't'.toUInt8 then some 9
  else if byte = '"'.toUInt8 ∨ byte = '\\'.toUInt8 ∨ byte = '/'.toUInt8 then some byte
  else none

/-- The second pass, which unescapes the string: the output, if all escapes are valid,
and where it stops. -/
def unescapeLoop (content : List UInt8) (inputEnd size : Nat) :
    Nat → Nat → List UInt8 → Option (Option (List UInt8) × Nat)
  | 0, _, _ => none
  | rounds + 1, inputPointer, output =>
      if inputPointer < inputEnd then do
        let byte ← load content inputPointer
        if byte ≠ '\\'.toUInt8 then
          unescapeLoop content inputEnd size rounds (inputPointer + 1)
            (← append size output [byte])
        else do
          let escape ← load content (inputPointer + 1)
          if escape = 'u'.toUInt8 then do
            let (sequenceLength, output) ←
              utf16LiteralToUtf8 content inputPointer inputEnd size output
            if sequenceLength = 0 then return (none, inputPointer)
            else unescapeLoop content inputEnd size rounds (inputPointer + sequenceLength) output
          else
            match unescaped escape with
            | none => return (none, inputPointer)
            | some byte =>
                unescapeLoop content inputEnd size rounds (inputPointer + 2)
                  (← append size output [byte])
      else some (some output, inputPointer)

def parseString (b : ParseBuffer) : Option (Outcome (List UInt8)) := do
  let inputPointer := b.offset + 1
  if (← b.first) ≠ '"'.toUInt8 then return (none, { b with offset := inputPointer })
  match ← findStringEnd b.content (b.length + 1) inputPointer 0 with
  | none => return (none, { b with offset := inputPointer })
  | some (inputEnd, skippedBytes) =>
      let size := inputEnd - b.offset - skippedBytes + 1
      match ← unescapeLoop b.content inputEnd size (b.length + 1) inputPointer [] with
      | (none, stopped) => return (none, { b with offset := stopped })
      | (some output, _) => do
          let _ ← append size output [0]
          return (some output, { b with offset := inputEnd + 1 })

section Values

variable {D : Type}

/-- The rounds of the loops of `parse_array` and `parse_object`, from the byte in front of
the next child to the byte behind the last one. -/
def parseSeparated {α : Type} (parseChild : ParseBuffer → Option (Outcome α)) :
    Nat → ParseBuffer → Option (Outcome (List α))
  | 0, _ => none
  | rounds + 1, b => do
      match ← parseChild (b.skip 1) with
      | (none, b) => return (none, b)
      | (some child, b) => do
          if ← b.accesses ','.toUInt8 then do
            let (children, b) ← parseSeparated parseChild rounds b
            return (children.map (child :: ·), b)
          else return (some [child], b)

def parseElement (parseValue : ParseBuffer → Option (Outcome (Item D))) (b : ParseBuffer) :
    Option (Outcome (Item D)) := do
  match ← parseValue b.bufferSkipWhitespace with
  | (none, b) => return (none, b)
  | (some item, b) => return (some item, b.bufferSkipWhitespace)

def parseMember (parseValue : ParseBuffer → Option (Outcome (Item D))) (b : ParseBuffer) :
    Option (Outcome (List UInt8 × Item D)) := do
  match ← parseString b.bufferSkipWhitespace with
  | (none, b) => return (none, b)
  | (some name, b) => do
      let b := b.bufferSkipWhitespace
      if ← b.accesses ':'.toUInt8 then do
        match ← parseElement parseValue (b.skip 1) with
        | (none, b) => return (none, b)
        | (some item, b) => return (some (name, item), b)
      else return (none, b)

/-- What `parse_array` and `parse_object` have in common: the brackets around the
children, and the depth. -/
def parseChildren {α : Type} (opens : ParseBuffer → Option Bool) (closing : UInt8)
    (parseChild : ParseBuffer → Option (Outcome α)) (b : ParseBuffer) :
    Option (Outcome (List α)) := do
  if nestingLimit ≤ b.depth then return (none, b)
  let b := { b with depth := b.depth + 1 }
  if !(← opens b) then return (none, b)
  let b := (b.skip 1).bufferSkipWhitespace
  if ← b.accesses closing then
    return (some [], { b with offset := b.offset + 1, depth := b.depth - 1 })
  if !b.canAccess then return (none, { b with offset := b.offset - 1 })
  match ← parseSeparated parseChild (b.length + 1) { b with offset := b.offset - 1 } with
  | (none, b) => return (none, b)
  | (some children, b) => do
      if ← b.accesses closing then
        return (some children, { b with offset := b.offset + 1, depth := b.depth - 1 })
      else return (none, b)

def parseArray (parseValue : ParseBuffer → Option (Outcome (Item D))) (b : ParseBuffer) :
    Option (Outcome (Item D)) := do
  let (child, b) ←
    parseChildren (fun b => b.first.map (· = '['.toUInt8)) ']'.toUInt8 (parseElement parseValue) b
  return (child.map .array, b)

def parseObject (parseValue : ParseBuffer → Option (Outcome (Item D))) (b : ParseBuffer) :
    Option (Outcome (Item D)) := do
  let (child, b) ←
    parseChildren (·.accesses '\x7b'.toUInt8) '\x7d'.toUInt8 (parseMember parseValue) b
  return (child.map .object, b)

/-- So many calls may be inside each other. -/
def parseValue (num : Numbers D) : Nat → ParseBuffer → Option (Outcome (Item D))
  | 0, _ => none
  | calls + 1, b => do
      if ← b.reads [0x6e, 0x75, 0x6c, 0x6c] then return (some .null, b.skip 4)
      if ← b.reads [0x66, 0x61, 0x6c, 0x73, 0x65] then return (some .false, b.skip 5)
      if ← b.reads [0x74, 0x72, 0x75, 0x65] then return (some .true, b.skip 4)
      if !b.canAccess then return (none, b)
      let byte ← b.first
      if byte = '"'.toUInt8 then do
        let (valuestring, b) ← parseString b
        return (valuestring.map .string, b)
      if byte = '-'.toUInt8 ∨ ('0'.toUInt8 ≤ byte ∧ byte ≤ '9'.toUInt8) then parseNumber num b
      else if byte = '['.toUInt8 then parseArray (parseValue num calls) b
      else if byte = '\x7b'.toUInt8 then parseObject (parseValue num calls) b
      else return (none, b)

/-- `cJSON_ParseWithLength` of a buffer that is not empty: the item, or the position of
the error. -/
def parseWithLength (num : Numbers D) (content : List UInt8) :
    Option (Except Nat (Item D)) := do
  let b ← ParseBuffer.skipUtf8Bom { content, offset := 0, depth := 0 }
  match ← parseValue num (nestingLimit + 1) b.bufferSkipWhitespace with
  | (some item, _) => return .ok item
  | (none, b) => return .error (if b.offset < b.length then b.offset else b.length - 1)

/-- `cJSON_Parse` of the string that a block holds. -/
def parse (num : Numbers D) (block : List UInt8) : Option (Except Nat (Item D)) := do
  let value ← readString block
  parseWithLength num (value.bytes ++ [0])

/-- The list at `child`, with the `string` of each item. -/
def children : Item D → List (Option (List UInt8) × Item D)
  | .array items => items.map fun item => (none, item)
  | .object members => members.map fun m => (some m.1, m.2)
  | _ => []

/-- `cJSON_GetArrayItem` of an index that is not negative. -/
def getArrayItem (item : Item D) (index : Nat) : Option (Item D) :=
  (children item)[index]?.map Prod.snd

/-- The loop of `get_object_item`, which an item without a name ends as well. -/
def getObjectItemLoop (name : CStr) : List (Option (List UInt8) × Item D) → Option (Item D)
  | [] => none
  | (none, _) :: _ => none
  | (some string, item) :: rest =>
      if strcmp name (ofBuffer string) ≠ 0 then getObjectItemLoop name rest else some item

def getObjectItemCaseSensitive (item : Item D) (name : CStr) : Option (Item D) :=
  getObjectItemLoop name (children item)

end Values

end CHomework.CJson
