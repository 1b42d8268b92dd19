import CHomework.CJson.Model

/-!
The printer of the bundled `cJSON.c`, for the items of its parser. A store or a read outside
of the buffer, and a read of a byte that was not written, are a stop of their own.
-/

namespace CHomework.CJson

open CHomework.Buffer CHomework.CString

/-- How a printing function ends without a result: it leaves its memory, or it returns
`false`. -/
inductive Stop where
  | outside
  | fails
  deriving DecidableEq

def intMax : Nat := 2147483647

/-- A `printbuffer`. A cell that was not written is `none`. The buffer is never NULL:
allocation does not fail. -/
structure PrintBuffer where
  buffer : List (Option UInt8)
  length : Nat
  offset : Nat
  depth : Nat
  noalloc : Bool
  format : Bool

def strlenIn : List (Option UInt8) → Option Nat
  | [] => none
  | none :: _ => none
  | some byte :: cells => if byte = 0 then some 0 else (strlenIn cells).map (· + 1)

namespace PrintBuffer

def reallocate (newsize : Nat) (p : PrintBuffer) : PrintBuffer :=
  { p with buffer := realloc none newsize p.buffer, length := newsize }

def ensure (needed : Nat) (p : PrintBuffer) : Except Stop PrintBuffer :=
  if 0 < p.length ∧ p.length ≤ p.offset then .error .fails
  else if intMax < needed then .error .fails
  else
    let needed := needed + (p.offset + 1)
    if needed ≤ p.length then .ok p
    else if p.noalloc then .error .fails
    else if intMax / 2 < needed then
      if needed ≤ intMax then .ok (p.reallocate intMax) else .error .fails
    else .ok (p.reallocate (needed * 2))

def write (i : Nat) (bytes : List UInt8) (p : PrintBuffer) : Except Stop PrintBuffer :=
  if i + bytes.length ≤ p.buffer.length then
    .ok { p with buffer := overwrite p.buffer i (bytes.map some) }
  else .error .outside

def updateOffset (p : PrintBuffer) : Except Stop PrintBuffer :=
  match strlenIn (p.buffer.drop p.offset) with
  | none => .error .outside
  | some n => .ok { p with offset := p.offset + n }

/-- What the printing functions do over and over: they ensure room, store these bytes
behind the offset, and move the offset. -/
def emit (needed : Nat) (bytes : List UInt8) (advance : Nat) (p : PrintBuffer) :
    Except Stop PrintBuffer := do
  let p ← p.ensure needed
  let p ← p.write p.offset bytes
  return { p with offset := p.offset + advance }

end PrintBuffer

/-- The C library's printing of floating point numbers, in the C locale: the tests for NaN
and infinity and for equality with an `int`, `%1.15g` and `%1.17g`, and the comparison up to
`DBL_EPSILON`. The texts have at most 25 bytes, none of them NUL. -/
structure Formats (D : Type) where
  isNanOrInf : D → Bool
  eqInt : D → Int32 → Bool
  g15 : D → CStr
  g17 : D → CStr
  compareDouble : D → D → Bool
  g15_le : ∀ d, strlen (g15 d) ≤ 25
  g17_le : ∀ d, strlen (g17 d) ≤ 25

def decimal (n : Int32) : List UInt8 :=
  (if n.toInt < 0 then ['-'.toUInt8] else []) ++
    (Nat.toDigits 10 n.toInt.natAbs).map Char.toUInt8

/-- `sprintf` into `number_buffer`, which has 26 bytes. -/
def sprintf (text : List UInt8) : Except Stop (List UInt8) :=
  if text.length < 26 then .ok text else .error .outside

section Values

variable {D : Type} (num : Numbers D) (fmt : Formats D)

def printNumber (item : Number D) (p : PrintBuffer) : Except Stop PrintBuffer := do
  let d := item.valuedouble
  let text ←
    if fmt.isNanOrInf d then sprintf [0x6e, 0x75, 0x6c, 0x6c]
    else if fmt.eqInt d item.valueint then sprintf (decimal item.valueint)
    else
      match sprintf (fmt.g15 d).bytes with
      | .error stop => .error stop
      | .ok text =>
          -- `sscanf` reads a number and stores it in `test`.
          let test := num.strtod text
          if test.2 = 0 ∨ fmt.compareDouble test.1 d = false then sprintf (fmt.g17 d).bytes
          else .ok text
  if 25 < text.length then throw .fails
  p.emit (text.length + 1) (text ++ [0]) text.length

end Values

/-- How many characters more an escape has. -/
def escapeLength (byte : UInt8) : Nat :=
  if byte = '"'.toUInt8 ∨ byte = '\\'.toUInt8 ∨ byte = 8 ∨ byte = 12 ∨ byte = 10 ∨ byte = 13 ∨
      byte = 9 then 1
  else if byte < 32 then 5
  else 0

def escapeCharacters : List UInt8 → Nat
  | [] => 0
  | byte :: input => escapeLength byte + escapeCharacters input

/-- The letter behind the backslash, but for the escapes as a code point. -/
def escapeLetter (byte : UInt8) : Option UInt8 :=
  if byte = '\\'.toUInt8 then some '\\'.toUInt8
  else if byte = '"'.toUInt8 then some '"'.toUInt8
  else if byte = 8 then some 'b'.toUInt8
  else if byte = 12 then some 'f'.toUInt8
  else if byte = 10 then some 'n'.toUInt8
  else if byte = 13 then some 'r'.toUInt8
  else if byte = 9 then some 't'.toUInt8
  else none

def codePointText (byte : UInt8) : List UInt8 :=
  ['u'.toUInt8, '0'.toUInt8, '0'.toUInt8, (byte.toNat / 16).digitChar.toUInt8,
    (byte.toNat % 16).digitChar.toUInt8]

/-- The loop that copies the string, with the index of `output_pointer`. -/
def escapeLoop : List UInt8 → Nat → PrintBuffer → Except Stop PrintBuffer
  | [], _, p => .ok p
  | byte :: input, i, p =>
      if 31 < byte ∧ byte ≠ '"'.toUInt8 ∧ byte ≠ '\\'.toUInt8 then do
        escapeLoop input (i + 1) (← p.write i [byte])
      else do
        let p ← p.write i ['\\'.toUInt8]
        match escapeLetter byte with
        | some letter => escapeLoop input (i + 2) (← p.write (i + 1) [letter])
        | none => escapeLoop input (i + 6) (← p.write (i + 1) (codePointText byte ++ [0]))

def printStringPtr (input : CStr) (p : PrintBuffer) : Except Stop PrintBuffer := do
  let escapes := escapeCharacters input.bytes
  let outputLength := strlen input + escapes
  let p ← p.ensure (outputLength + 3)
  let output := p.offset
  if escapes = 0 then
    p.write output ('"'.toUInt8 :: (input.bytes ++ ['"'.toUInt8, 0]))
  else do
    let p ← p.write output ['"'.toUInt8]
    let p ← escapeLoop input.bytes (output + 1) p
    p.write (output + outputLength + 1) ['"'.toUInt8, 0]

def printWord (text : List UInt8) (p : PrintBuffer) : Except Stop PrintBuffer :=
  p.emit (text.length + 1) (text ++ [0]) 0

def tabs (depth : Nat) : List UInt8 := List.replicate depth '\t'.toUInt8

def printArray (elements : PrintBuffer → Except Stop PrintBuffer) (p : PrintBuffer) :
    Except Stop PrintBuffer := do
  let p ← p.emit 1 ['['.toUInt8] 1
  let p ← elements { p with depth := p.depth + 1 }
  let p ← p.emit 2 [']'.toUInt8, 0] 0
  return { p with depth := p.depth - 1 }

def printObject (members : PrintBuffer → Except Stop PrintBuffer) (p : PrintBuffer) :
    Except Stop PrintBuffer := do
  let length := if p.format then 2 else 1
  let p ← p.emit (length + 1)
    ('\x7b'.toUInt8 :: if p.format then ['\n'.toUInt8] else []) length
  let p ← members { p with depth := p.depth + 1 }
  let p ← p.emit (if p.format then p.depth + 1 else 2)
    ((if p.format then tabs (p.depth - 1) else []) ++ ['\x7d'.toUInt8, 0]) 0
  return { p with depth := p.depth - 1 }

section Values

variable {D : Type} (num : Numbers D) (fmt : Formats D)

mutual

def printValue : Json.Tree (List UInt8) (Number D) → PrintBuffer → Except Stop PrintBuffer
  | .null, p => printWord [0x6e, 0x75, 0x6c, 0x6c] p
  | .false, p => printWord [0x66, 0x61, 0x6c, 0x73, 0x65] p
  | .true, p => printWord [0x74, 0x72, 0x75, 0x65] p
  | .number x, p => printNumber num fmt x p
  | .string s, p => printStringPtr (ofBuffer s) p
  | .array child, p => printArray (printElements child) p
  | .object child, p => printObject (printMembers child) p

def printElements : List (Json.Tree (List UInt8) (Number D)) → PrintBuffer →
    Except Stop PrintBuffer
  | [], p => .ok p
  | item :: next, p => do
      let p ← printValue item p
      let p ← p.updateOffset
      let length := if p.format then 2 else 1
      let p ← (if next.isEmpty then pure p else
        p.emit (length + 1) (','.toUInt8 :: ((if p.format then [' '.toUInt8] else []) ++ [0]))
          length)
      printElements next p

def printMembers : List (List UInt8 × Json.Tree (List UInt8) (Number D)) → PrintBuffer →
    Except Stop PrintBuffer
  | [], p => .ok p
  | (string, item) :: next, p => do
      let p ← (if p.format then p.emit p.depth (tabs p.depth) p.depth else pure p)
      let p ← printStringPtr (ofBuffer string) p
      let p ← p.updateOffset
      let length := if p.format then 2 else 1
      let p ← p.emit length (':'.toUInt8 :: if p.format then ['\t'.toUInt8] else []) length
      let p ← printValue item p
      let p ← p.updateOffset
      let length := (if p.format then 1 else 0) + if next.isEmpty then 0 else 1
      let p ← p.emit (length + 1)
        ((if next.isEmpty then [] else [','.toUInt8]) ++
          (if p.format then ['\n'.toUInt8] else []) ++ [0]) length
      printMembers next p

end

/-- `print`: the block that it returns. `cJSON_Print` is with `format`, and
`cJSON_PrintUnformatted` without. -/
def print (format : Bool) (item : Item D) : Except Stop (List (Option UInt8)) := do
  let p ← printValue num fmt item {
    buffer := List.replicate 256 none
    length := 256
    offset := 0
    depth := 0
    noalloc := false
    format := format }
  let p ← p.updateOffset
  return realloc none (p.offset + 1) p.buffer

/-- `cJSON_PrintBuffered`, with a size that is not negative. -/
def printBuffered (prebuffer : Nat) (format : Bool) (item : Item D) :
    Except Stop (List (Option UInt8)) := do
  let p ← printValue num fmt item {
    buffer := List.replicate prebuffer none
    length := prebuffer
    offset := 0
    depth := 0
    noalloc := false
    format := format }
  return p.buffer

/-- `cJSON_PrintPreallocated` into a block of the stated length: what the block holds when
it returns `true`. -/
def printPreallocated (buffer : List (Option UInt8)) (format : Bool) (item : Item D) :
    Except Stop (List (Option UInt8)) := do
  let p ← printValue num fmt item {
    buffer := buffer
    length := buffer.length
    offset := 0
    depth := 0
    noalloc := true
    format := format }
  return p.buffer

end Values

end CHomework.CJson
