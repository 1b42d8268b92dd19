import CHomework.Lib.Buffer
import CHomework.Lib.CString
import CHomework.UtfEncoder.CodePages

/-!
The converter from single-byte code pages to UTF-8, `encoder.c`.
-/

namespace CHomework.UtfEncoder

open CHomework.Buffer
open CHomework.CString

/-- A cell that the program has not written is `none`. -/
structure UtfFile where
  content : List (Option UInt8)
  size : Nat
  deriving DecidableEq

def UtfFile.empty : UtfFile where
  content := []
  size := 0

/-- Both append branches of the loop: enlarge the content and copy the bytes
to its end. -/
def UtfFile.append (result : UtfFile) (bytes : List UInt8) : UtfFile :=
  let size := result.size + bytes.length
  let content := realloc none size result.content
  { content := overwrite content (size - bytes.length) (bytes.map some), size := size }

/-- The names are `cp1251`, `koi8-r` and `iso-8859-5`. -/
def cp1251Name : CStr := ofBuffer [0x63, 0x70, 0x31, 0x32, 0x35, 0x31]

def koi8Name : CStr := ofBuffer [0x6b, 0x6f, 0x69, 0x38, 0x2d, 0x72]

def iso8859_5Name : CStr :=
  ofBuffer [0x69, 0x73, 0x6f, 0x2d, 0x38, 0x38, 0x35, 0x39, 0x2d, 0x35]

/-- The choice of the table. A failure carries the text that `fatal` prints. -/
def codePage (encoding : CStr) : Except String (List UInt16) :=
  if strcmp encoding cp1251Name = 0 then .ok cp1251Map
  else if strcmp encoding koi8Name = 0 then .ok koi8Map
  else if strcmp encoding iso8859_5Name = 0 then .ok iso8859_5Map
  else .error "Encoding isn't support yet. Valid code page cp1251, koi8-r, iso-8859-5"

/-- One round of the loop. The one-byte branch copies the first byte that the
`int` of the character has in memory, which on a little-endian machine is the
byte that was read. -/
def encodeChar (result : UtfFile) (encodingChar : UInt8) (unicodeChar : UInt16) :
    Except String UtfFile :=
  let result := if unicodeChar ≤ 0x7f then result.append [encodingChar] else result
  let result :=
    if 0x80 ≤ unicodeChar ∧ unicodeChar ≤ 0x7ff then
      result.append
        [((unicodeChar >>> 6) ||| 0xc0).toUInt8, ((unicodeChar &&& 0x3f) ||| 0x80).toUInt8]
    else result
  if unicodeChar > 0x7ff then .error "Encoding isn't support yet." else .ok result

def encodeLoop (codePage : List UInt16) : List UInt8 → UtfFile → Except String UtfFile
  | [], result => .ok result
  | encodingChar :: input, result => do
      let result ← encodeChar result encodingChar (codePage.getD encodingChar.toNat 0)
      encodeLoop codePage input result

/-- The end of `encoding_to_utf8`. The size counts the terminator, which is
stored behind the bytes of that size. -/
def UtfFile.terminate (result : UtfFile) : UtfFile :=
  let size := result.size + 1
  let content := realloc none (size + 1) result.content
  { content := content.set size (some 0), size := size }

/-- `encoding_to_utf8` on a readable file with this content. -/
def encodingToUtf8 (encoding : CStr) (input : List UInt8) : Except String UtfFile := do
  let codePage ← codePage encoding
  let result ← encodeLoop codePage input UtfFile.empty
  return result.terminate

end CHomework.UtfEncoder
