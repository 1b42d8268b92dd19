import CHomework.ZipJpeg.Walk

/-!
Local file records and files with an archive behind an image, as byte formats.
-/

namespace CHomework.ZipJpeg

open CHomework.Buffer
open CHomework.LittleEndian

/-- A local file record. `before` and `uncompressed` are the parts of the header
that the reader skips. -/
structure LocalRecord where
  before : List UInt8
  uncompressed : List UInt8
  name : List UInt8
  extra : List UInt8
  payload : List UInt8
  length_before : before.length = 14
  length_uncompressed : uncompressed.length = 4
  noNul : (0 : UInt8) ∉ name
  name_lt : name.length < 256 ^ 2
  extra_lt : extra.length < 256 ^ 2
  payload_lt : payload.length < 256 ^ 4

namespace LocalRecord

variable (r : LocalRecord)

def header : List UInt8 :=
  startZipSig.bytes ++ r.before ++ toBytes 4 r.payload.length ++ r.uncompressed ++
    toBytes 2 r.name.length ++ toBytes 2 r.extra.length

def bytes : List UInt8 := r.header ++ r.name ++ r.extra ++ r.payload

@[simp] theorem length_header : r.header.length = 30 := by
  simp [header, r.length_before, r.length_uncompressed]

theorem length_bytes :
    r.bytes.length = 30 + r.name.length + r.extra.length + r.payload.length := by
  simp only [bytes, List.length_append, length_header]

theorem signature_prefix : startZipSig.bytes <+: r.bytes := by
  simp only [bytes, header, List.append_assoc]
  exact List.prefix_append _ _

end LocalRecord

theorem byteAt_append (a field b : List UInt8) {j : Nat} (h : j < field.length) :
    byteAt (a ++ (field ++ b)) (a.length + j) = field.getD j 0 := by
  simp [byteAt, List.getD_eq_getElem?_getD, List.getElem?_append_right,
    List.getElem?_append_left h]

theorem ofBytes_field_two {content a b : List UInt8} {n i : Nat}
    (hcontent : content = a ++ (toBytes 2 n ++ b)) (hi : i = a.length) (hn : n < 256 ^ 2) :
    ofBytes [byteAt content i, byteAt content (i + 1)] = n := by
  subst hcontent hi
  have h0 := byteAt_append a (toBytes 2 n) b (j := 0) (by simp)
  have h1 := byteAt_append a (toBytes 2 n) b (j := 1) (by simp)
  rw [Nat.add_zero] at h0
  rw [h0, h1]
  exact ofBytes_toBytes hn

theorem ofBytes_field_four {content a b : List UInt8} {n i : Nat}
    (hcontent : content = a ++ (toBytes 4 n ++ b)) (hi : i = a.length) (hn : n < 256 ^ 4) :
    ofBytes [byteAt content i, byteAt content (i + 1), byteAt content (i + 2),
      byteAt content (i + 3)] = n := by
  subst hcontent hi
  have h0 := byteAt_append a (toBytes 4 n) b (j := 0) (by simp)
  have h1 := byteAt_append a (toBytes 4 n) b (j := 1) (by simp)
  have h2 := byteAt_append a (toBytes 4 n) b (j := 2) (by simp)
  have h3 := byteAt_append a (toBytes 4 n) b (j := 3) (by simp)
  rw [Nat.add_zero] at h0
  rw [h0, h1, h2, h3]
  exact ofBytes_toBytes hn

section Record

variable {content before after : List UInt8} {r : LocalRecord}

theorem nameLen_record (h : content = before ++ r.bytes ++ after) :
    nameLen content before.length = r.name.length := by
  apply ofBytes_field_two
    (a := before ++ startZipSig.bytes ++ r.before ++ toBytes 4 r.payload.length ++
      r.uncompressed)
    (b := toBytes 2 r.extra.length ++ r.name ++ r.extra ++ r.payload ++ after)
    _ _ r.name_lt
  · simp [h, LocalRecord.bytes, LocalRecord.header]
  · simp [r.length_before, r.length_uncompressed]

theorem extraLen_record (h : content = before ++ r.bytes ++ after) :
    extraLen content before.length = r.extra.length := by
  apply ofBytes_field_two
    (a := before ++ startZipSig.bytes ++ r.before ++ toBytes 4 r.payload.length ++
      r.uncompressed ++ toBytes 2 r.name.length)
    (b := r.name ++ r.extra ++ r.payload ++ after)
    _ _ r.extra_lt
  · simp [h, LocalRecord.bytes, LocalRecord.header]
  · simp [r.length_before, r.length_uncompressed]

theorem compressedSize_record (h : content = before ++ r.bytes ++ after) :
    compressedSize content before.length = r.payload.length := by
  apply ofBytes_field_four
    (a := before ++ startZipSig.bytes ++ r.before)
    (b := r.uncompressed ++ toBytes 2 r.name.length ++ toBytes 2 r.extra.length ++ r.name ++
      r.extra ++ r.payload ++ after)
    _ _ r.payload_lt
  · simp [h, LocalRecord.bytes, LocalRecord.header]
  · simp [r.length_before]

theorem recordLength_record (h : content = before ++ r.bytes ++ after) :
    recordLength content before.length = r.bytes.length := by
  rw [recordLength, nameLen_record h, extraLen_record h, compressedSize_record h,
    r.length_bytes]

theorem signature_record (h : content = before ++ r.bytes ++ after) :
    startZipSig.bytes <+: content.drop before.length := by
  rw [h, List.append_assoc, List.drop_left]
  exact r.signature_prefix.trans (List.prefix_append _ _)

theorem recordName_record (h : content = before ++ r.bytes ++ after) :
    recordName content before.length = r.name := by
  have hsplit : content ++ [0] =
      (before ++ r.header) ++ (r.name ++ (r.extra ++ r.payload ++ after ++ [0])) := by
    simp [h, LocalRecord.bytes]
  have hlength : before.length + 30 = (before ++ r.header).length := by simp
  rw [recordName, nameLen_record h, hsplit, hlength, List.drop_left, List.take_left]

theorem recordInRange_record {reads : Reads} (h : content = before ++ r.bytes ++ after) :
    RecordInRange reads content before.length := by
  have hlength : content.length = before.length + r.bytes.length + after.length := by
    simp only [h, List.length_append]
  rw [r.length_bytes] at hlength
  refine ⟨Reads.inRange_of_le (by decide) (by omega), ?_⟩
  intro _
  rw [nameLen_record h]
  omega

end Record

/-- An image, an end-of-image marker, local records and what follows them. -/
def archiveBytes (image : List UInt8) (records : List LocalRecord) (rest : List UInt8) :
    List UInt8 :=
  image ++ endJpegSig.bytes ++ records.flatMap LocalRecord.bytes ++ rest

/-- A file with an archive behind its image. -/
structure ZipJpegFile where
  image : List UInt8
  records : List LocalRecord
  rest : List UInt8
  image_start : startJpegSig.bytes <+: image
  image_noMark : ¬ endJpegSig.bytes ++ startZipSig.bytes <:+: image
  records_ne_nil : records ≠ []
  rest_noRecord : rest = [] ∨ (4 ≤ rest.length ∧ ¬ startZipSig.bytes <+: rest)
  not_jpeg_end : ¬ endJpegSig.bytes <:+ archiveBytes image records rest
  length_lt : (archiveBytes image records rest).length < 2 ^ 32

def ZipJpegFile.bytes (z : ZipJpegFile) : List UInt8 :=
  archiveBytes z.image z.records z.rest

def ZipJpegFile.names (z : ZipJpegFile) : List (List UInt8) :=
  z.records.map LocalRecord.name

end CHomework.ZipJpeg
