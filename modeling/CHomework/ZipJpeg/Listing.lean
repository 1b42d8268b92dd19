import Mathlib.Data.List.TakeWhile
import CHomework.ZipJpeg.Archive
import CHomework.ZipJpeg.Safety

namespace CHomework.ZipJpeg

open CHomework.Buffer

def markBytes : List UInt8 := endJpegSig.bytes ++ startZipSig.bytes

theorem markAt_iff {content : List UInt8} {i : Nat} :
    MarkAt content i ↔ markBytes <+: content.drop i := by
  have hdrop : content.drop (i + 2) = (content.drop i).drop endJpegSig.bytes.length := by
    rw [List.drop_drop, length_endJpegSig]
  constructor
  · rintro ⟨⟨t, ht⟩, hzip⟩
    rw [hdrop, ← ht, List.drop_left] at hzip
    rw [← ht, markBytes]
    exact (List.prefix_append_right_inj _).mpr hzip
  · rintro ⟨t, ht⟩
    rw [markBytes, List.append_assoc] at ht
    refine ⟨⟨_, ht⟩, ?_⟩
    rw [hdrop, ← ht, List.drop_left]
    exact List.prefix_append _ _

/-- Only its first byte is `0xff`, so the mark does not overlap itself. -/
theorem markBytes_getElem?_eq_ff {k : Nat} (h : markBytes[k]? = some 0xff) : k = 0 := by
  have hk : k < markBytes.length := (List.getElem?_eq_some_iff.mp h).1
  revert h
  have hall : ∀ k < markBytes.length, markBytes[k]? = some 0xff → k = 0 := by decide
  exact hall k hk

theorem not_markAt_of_lt {image rest : List UInt8} (hnoMark : ¬ markBytes <:+: image) {j : Nat}
    (hj : j < image.length) : ¬ MarkAt (image ++ (markBytes ++ rest)) j := by
  intro hmark
  rw [markAt_iff, List.drop_append_of_le_length (by omega)] at hmark
  rcases (Nat.lt_or_ge (image.drop j).length markBytes.length).symm with hfits | hlength
  · have hprefix : markBytes <+: image.drop j :=
      List.prefix_of_prefix_length_le hmark (List.prefix_append _ _) hfits
    rcases hprefix with ⟨t, ht⟩
    apply hnoMark
    refine ⟨image.take j, t, ?_⟩
    rw [List.append_assoc, ht, List.take_append_drop]
  · -- The match would reach into the mark behind the image, at its byte `0xff`.
    have hbyte : markBytes[(image.drop j).length]? = some 0xff := by
      have hff : (image.drop j ++ (markBytes ++ rest))[(image.drop j).length]? = some 0xff := by
        rw [List.getElem?_append_right (le_refl _), Nat.sub_self]
        rfl
      rw [List.prefix_iff_getElem?.mp hmark _ hlength, Option.some.injEq] at hff
      rw [List.getElem?_eq_getElem hlength, hff]
    have hzero := markBytes_getElem?_eq_ff hbyte
    rw [List.length_drop] at hzero
    omega

theorem length_le_length_records (records : List LocalRecord) :
    records.length ≤ (records.flatMap LocalRecord.bytes).length := by
  induction records with
  | nil => simp
  | cons r records ih =>
      rw [List.flatMap_cons, List.length_append, r.length_bytes, List.length_cons]
      omega

section Loaded

variable {reads : Reads} {f : FileInfo} {content : List UInt8}

/-- The walk over a sequence of records prints their names and ends behind the
last one. The induction is on the records that are left. -/
theorem recordLoop_records (hf : f.Loaded content) {records : List LocalRecord}
    {before rest : List UInt8} {rounds : Nat} {o : UInt64}
    (hcontent : content = before ++ records.flatMap LocalRecord.bytes ++ rest)
    (hrest : rest = [] ∨ (4 ≤ rest.length ∧ ¬ startZipSig.bytes <+: rest))
    (hrounds : records.length ≤ rounds) (ho : o.toNat = before.length) :
    recordLoop reads f (rounds + 1) o = some (records.map LocalRecord.name) := by
  induction records generalizing before rounds o with
  | nil =>
      have hsplit : content = before ++ rest := by simpa using hcontent
      have hlength : content.length = before.length + rest.length := by
        rw [hsplit, List.length_append]
      rcases hrest with rfl | ⟨hfour, hnoRecord⟩
      · apply recordLoop_of_length_le hf
        simp at hlength
        omega
      · apply recordLoop_of_not_signature hf
        · omega
        · exact Reads.inRange_of_le (by decide) (by omega)
        · rw [ho, hsplit, List.drop_left]
          exact hnoRecord
  | cons r records ih =>
      have hsplit : content = before ++ r.bytes ++
          (records.flatMap LocalRecord.bytes ++ rest) := by
        simpa using hcontent
      have hsig : startZipSig.bytes <+: content.drop o.toNat := by
        rw [ho]
        exact signature_record hsplit
      have hrecord : RecordInRange reads content o.toNat := by
        rw [ho]
        exact recordInRange_record hsplit
      have hprinted : printed (recordName content o.toNat) = r.name := by
        rw [ho, recordName_record hsplit, printed, List.takeWhile_eq_self_iff]
        intro b hb
        have hzero : b ≠ 0 := fun h => r.noNul (h ▸ hb)
        simpa using hzero
      cases rounds with
      | zero => simp at hrounds
      | succ rounds =>
          have hnext := toNat_add_recordLength hf (Signature.lt_length hsig)
          have hrest : recordLoop reads f (rounds + 1)
              (o + UInt64.ofNat (recordLength content o.toNat)) =
                some (records.map LocalRecord.name) := by
            have hbehind : content = (before ++ r.bytes) ++
                records.flatMap LocalRecord.bytes ++ rest := by
              simpa using hcontent
            apply ih hbehind
            · simpa using hrounds
            · rw [hnext, ho, recordLength_record hsplit, List.length_append]
          rw [recordLoop_of_signature hf hsig hrecord, hrest, hprinted]
          rfl

end Loaded

namespace ZipJpegFile

variable (z : ZipJpegFile)

theorem length_bytes_lt : z.bytes.length < 2 ^ 32 := z.length_lt

theorem not_pureJpeg : ¬ PureJpeg z.bytes := fun h => z.not_jpeg_end h.2

theorem bytes_eq_append_mark : ∃ tail, z.bytes = z.image ++ (markBytes ++ tail) := by
  cases hrecords : z.records with
  | nil => exact absurd hrecords z.records_ne_nil
  | cons r records =>
      rcases r.signature_prefix with ⟨t, ht⟩
      refine ⟨t ++ records.flatMap LocalRecord.bytes ++ z.rest, ?_⟩
      simp [bytes, archiveBytes, hrecords, ← ht, markBytes]

theorem markAt_image : MarkAt z.bytes z.image.length := by
  rcases z.bytes_eq_append_mark with ⟨tail, hbytes⟩
  rw [markAt_iff, hbytes, List.drop_left]
  exact List.prefix_append _ _

theorem not_markAt_before {j : Nat} (hj : j < z.image.length) : ¬ MarkAt z.bytes j := by
  rcases z.bytes_eq_append_mark with ⟨tail, hbytes⟩
  rw [hbytes]
  exact not_markAt_of_lt z.image_noMark hj

theorem archiveStart_bytes : ArchiveStart z.bytes (z.image.length + 2) :=
  Or.inl ⟨z.image.length, z.markAt_image, fun _ hj => z.not_markAt_before hj, rfl⟩

/-- No end-of-image marker in the image is too close to the end of the file. -/
theorem scanInRange_bytes (reads : Reads) : ScanInRange reads z.bytes := by
  intro i _ hfirst
  have hle : i ≤ z.image.length := by
    by_contra hgt
    exact hfirst z.image.length (by omega) z.markAt_image
  have hroom := Signature.add_length_le z.markAt_image.2
  rw [length_startZipSig] at hroom
  exact Reads.inRange_of_le (by decide) (by omega)

theorem getZipOffest_bytes (reads : Reads) :
    getZipOffest reads (loaded z.bytes) = some (z.image.length + 2) := by
  have hf := loaded_loaded z.length_bytes_lt
  have hsome := (getZipOffest_isSome_iff hf).mpr (z.scanInRange_bytes reads)
  rcases Option.isSome_iff_exists.mp hsome with ⟨o, ho⟩
  rw [ho, (archiveStart_of_getZipOffest hf ho).unique z.archiveStart_bytes]

theorem inspect_bytes (reads : Reads) :
    inspect reads (loaded z.bytes) = some (.files z.names) := by
  have hf := loaded_loaded z.length_bytes_lt
  have hroom := Signature.add_length_le z.markAt_image.2
  rw [length_startZipSig] at hroom
  have hlt := z.length_bytes_lt
  have hcontent : z.bytes = (z.image ++ endJpegSig.bytes) ++
      z.records.flatMap LocalRecord.bytes ++ z.rest := rfl
  have hrounds : z.records.length ≤ z.bytes.length := by
    have hle := length_le_length_records z.records
    rw [hcontent]
    simp only [List.length_append]
    omega
  have hstart : (UInt64.ofNat (z.image.length + 2)).toNat =
      (z.image ++ endJpegSig.bytes).length := by
    rw [UInt64.toNat_ofNat', List.length_append, length_endJpegSig]
    omega
  rw [inspect_of_not_pureJpeg hf (by omega) z.not_pureJpeg, z.getZipOffest_bytes reads,
    Option.bind_some, recordLoop_records hf hcontent z.rest_noRecord hrounds hstart]
  rfl

theorem main_bytes (reads : Reads) (stray : Nat → UInt8) :
    main reads stray z.bytes =
      if z.bytes.length < 2 ^ 31 then some (.files z.names) else none := by
  have hmod : z.bytes.length % 2 ^ 32 = z.bytes.length := Nat.mod_eq_of_lt z.length_bytes_lt
  rw [main, loadFile_eq, hmod, List.take_length]
  split
  · exact z.inspect_bytes reads
  · rfl

/-- The search and the walk list the names of all records in order, and so does
the whole of `main` where `load_file` gets by with the size. -/
theorem lists_names_iff (reads : Reads) (stray : Nat → UInt8) :
    inspect reads (loaded z.bytes) = some (.files z.names) ∧
      (main reads stray z.bytes = some (.files z.names) ↔ z.bytes.length < 2 ^ 31) := by
  refine ⟨z.inspect_bytes reads, ?_⟩
  rw [z.main_bytes reads stray]
  split
  · rename_i hlt
    simp only [hlt]
  · rename_i hge
    simp only [hge, reduceCtorEq]

end ZipJpegFile

def zeroRecord (n : Nat) (h : n < 256 ^ 4) : LocalRecord where
  before := List.replicate 14 0
  uncompressed := List.replicate 4 0
  name := [0x61]
  extra := []
  payload := List.replicate n 0
  length_before := rfl
  length_uncompressed := rfl
  noNul := by decide
  name_lt := by decide
  extra_lt := by decide
  payload_lt := by rwa [List.length_replicate]

theorem archiveBytes_zeroRecord (n : Nat) (h : n < 256 ^ 4) :
    archiveBytes startJpegSig.bytes [zeroRecord n h] [] =
      (startJpegSig.bytes ++ endJpegSig.bytes ++ (zeroRecord n h).header ++ [0x61]) ++
        List.replicate n 0 := by
  simp [archiveBytes, LocalRecord.bytes, zeroRecord]

theorem length_archiveBytes_zeroRecord (n : Nat) (h : n < 256 ^ 4) :
    (archiveBytes startJpegSig.bytes [zeroRecord n h] []).length = n + 35 := by
  rw [archiveBytes_zeroRecord]
  simp only [List.length_append, LocalRecord.length_header, List.length_replicate,
    length_startJpegSig, length_endJpegSig, List.length_singleton]
  omega

def zeroFile (n : Nat) (htwo : 2 ≤ n) (h : n < 2 ^ 32 - 35) : ZipJpegFile where
  image := startJpegSig.bytes
  records := [zeroRecord n (by omega)]
  rest := []
  image_start := List.prefix_rfl
  image_noMark := by decide
  records_ne_nil := by simp
  rest_noRecord := Or.inl rfl
  not_jpeg_end := by
    intro hsuffix
    rw [archiveBytes_zeroRecord] at hsuffix
    have hzeros : endJpegSig.bytes <:+ List.replicate n (0 : UInt8) :=
      List.suffix_of_suffix_length_le hsuffix (List.suffix_append _ _)
        (by rwa [length_endJpegSig, List.length_replicate])
    have hmem : (0xff : UInt8) ∈ List.replicate n (0 : UInt8) :=
      hzeros.subset (by decide)
    exact absurd (List.eq_of_mem_replicate hmem) (by decide)
  length_lt := by
    rw [length_archiveBytes_zeroRecord]
    omega

/-- A file of 2 GiB is not listed. -/
theorem not_lists_names_of_large :
    ¬ ∀ z : ZipJpegFile, main .untilDifference (fun _ => 0) z.bytes = some (.files z.names) := by
  intro h
  have hlarge := h (zeroFile (2 ^ 31) (by decide) (by decide))
  have hlength : (zeroFile (2 ^ 31) (by decide) (by decide)).bytes.length = 2 ^ 31 + 35 :=
    length_archiveBytes_zeroRecord _ _
  rw [ZipJpegFile.main_bytes, if_neg (by omega)] at hlarge
  exact absurd hlarge (by simp)

end CHomework.ZipJpeg
