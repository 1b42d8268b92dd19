import CHomework.Lib.Buffer
import CHomework.Lib.LittleEndian

/-!
The reader of archives hidden behind a JPEG image, `zipjpeg.c` and its `main.c`.
A run that touches memory outside the allocated buffer has no result.
-/

namespace CHomework.ZipJpeg

open CHomework.Buffer
open CHomework.LittleEndian

def startJpegSig : Signature := signature [0xff, 0xd8]

def endJpegSig : Signature := signature [0xff, 0xd9]

def startZipSig : Signature := signature [0x50, 0x4b, 0x03, 0x04]

structure FileInfo where
  data : List UInt8
  size : UInt32
  deriving DecidableEq

/-- `filename` is the allocated string with its terminator. -/
structure ZipRecord where
  filename : Option (List UInt8)
  recordLen : UInt64
  deriving DecidableEq

/-- `load_file` on a readable file with this content. The size is cut to 32
bits, and so is the sum that `malloc` gets. The count that `fread` returns
goes through an `int` before it is an index. -/
def loadFile (stray : Nat → UInt8) (content : List UInt8) : Option FileInfo := do
  let size := UInt32.ofNat content.length
  let data := malloc stray (size + 1).toNat
  let data ← storeRange data (content.take size.toNat)
  let count := Int32.ofNat size.toNat
  let data ← store data count.toInt 0
  return { data := data, size := size }

/-- `size - 2` is computed in 32 bits. -/
def hasFileZipPart (reads : Reads) (f : FileInfo) : Option Bool := do
  let startAsJpeg ← memcmp reads f.data 0 startJpegSig.bytes
  let endAsJpeg ← memcmp reads f.data (f.size - 2).toNat endJpegSig.bytes
  if startAsJpeg = 0 ∧ endAsJpeg = 0 then return false else return true

def zipOffestLoop (reads : Reads) (f : FileInfo) : Nat → Nat → Option Nat
  | 0, _ => some 0
  | rounds + 1, i => do
      let isJpegEnd ← memcmp reads f.data i endJpegSig.bytes
      if isJpegEnd = 0 then do
        let isZipStart ← memcmp reads f.data (i + 2) startZipSig.bytes
        if isZipStart = 0 then return i + 2 else zipOffestLoop reads f rounds (i + 1)
      else zipOffestLoop reads f rounds (i + 1)

def getZipOffest (reads : Reads) (f : FileInfo) : Option Nat :=
  zipOffestLoop reads f f.size.toNat 0

/-- `get_zip_recod`. Without a signature the file name is NULL. -/
def getZipRecod (reads : Reads) (f : FileInfo) (recordOffset : UInt64) :
    Option ZipRecord := do
  let start ← memcmp reads f.data recordOffset.toNat startZipSig.bytes
  if start ≠ 0 then return { filename := none, recordLen := 0 }
  else do
    let currentOffset := recordOffset + 18
    let b0 ← load f.data currentOffset.toNat
    let b1 ← load f.data (currentOffset + 1).toNat
    let b2 ← load f.data (currentOffset + 2).toNat
    let b3 ← load f.data (currentOffset + 3).toNat
    let compressSize := word32 b0 b1 b2 b3
    let currentOffset := currentOffset + 8
    let n0 ← load f.data currentOffset.toNat
    let n1 ← load f.data (currentOffset + 1).toNat
    let nameLen := word16 n0 n1
    let currentOffset := currentOffset + 2
    let e0 ← load f.data currentOffset.toNat
    let e1 ← load f.data (currentOffset + 1).toNat
    let extaDataLen := word16 e0 e1
    let currentOffset := currentOffset + 2
    let filename ← loadRange f.data currentOffset.toNat nameLen.toNat
    let recordLen := 18 + 8 + 2 + 2 + nameLen.toUInt64 + extaDataLen.toUInt64 +
      compressSize.toUInt64
    return { filename := some (filename ++ [0]), recordLen := recordLen }

/-- What `printf` with `%s` writes of a string. -/
def printed (string : List UInt8) : List UInt8 := string.takeWhile (· ≠ 0)

/-- The loop of `main` over the records, with a bound on its rounds. -/
def recordLoop (reads : Reads) (f : FileInfo) : Nat → UInt64 → Option (List (List UInt8))
  | 0, _ => none
  | rounds + 1, currentOffset =>
      if currentOffset < f.size.toUInt64 then do
        let currentRecord ← getZipRecod reads f currentOffset
        match currentRecord.filename with
        | none => return []
        | some filename => do
            let names ← recordLoop reads f rounds (currentOffset + currentRecord.recordLen)
            return printed filename :: names
      else some []

/-- What `main` prints: that there is no archive, or the lines of its list. -/
inductive Listing where
  | noZip
  | files (names : List (List UInt8))
  deriving DecidableEq

/-- The part of `main` after `load_file`. Every record is longer than zero
bytes, so the bound on the rounds is never reached. -/
def inspect (reads : Reads) (f : FileInfo) : Option Listing := do
  let hasZipPart ← hasFileZipPart reads f
  if hasZipPart = false then return .noZip
  else do
    let currentOffset ← getZipOffest reads f
    let names ← recordLoop reads f (f.size.toNat + 1) (UInt64.ofNat currentOffset)
    return .files names

def main (reads : Reads) (stray : Nat → UInt8) (content : List UInt8) : Option Listing := do
  let f ← loadFile stray content
  inspect reads f

end CHomework.ZipJpeg
