import CHomework.ZipJpeg.Walk

namespace CHomework.ZipJpeg

open CHomework.Buffer

/-- The part of the file that `load_file` leaves in the buffer. -/
def loadedPart (content : List UInt8) : List UInt8 :=
  content.take (content.length % 2 ^ 32)

theorem length_loadedPart_lt (content : List UInt8) : (loadedPart content).length < 2 ^ 32 := by
  have := Nat.mod_lt content.length (Nat.two_pow_pos 32)
  rw [loadedPart, List.length_take]
  omega

/-- Both functions return, and `has_file_zip_part` tells what `get_zip_offest`
finds. -/
def DetectorsAgree (reads : Reads) (f : FileInfo) : Prop :=
  ∃ hasZip offset, hasFileZipPart reads f = some hasZip ∧ getZipOffest reads f = some offset ∧
    (hasZip = true ↔ offset ≠ 0)

/-- A comparison that stops at the first difference always has room behind an
end-of-image marker. -/
theorem scanInRange_untilDifference (content : List UInt8) :
    ScanInRange .untilDifference content := by
  intro i hend _
  have hroom := Signature.add_length_le hend
  rwa [length_endJpegSig] at hroom

theorem archiveStart_ne_zero_iff {content : List UInt8} {o : Nat}
    (h : ArchiveStart content o) : o ≠ 0 ↔ ∃ i, MarkAt content i := by
  rcases h with ⟨i, hmark, -, rfl⟩ | ⟨hnone, rfl⟩
  · simp only [Nat.add_eq_zero_iff, OfNat.ofNat_ne_zero, and_false, not_false_eq_true, ne_eq,
      true_iff]
    exact ⟨i, hmark⟩
  · simp [hnone]

theorem detectorsAgree_iff_of_loaded {reads : Reads} {f : FileInfo} {content : List UInt8}
    (hf : f.Loaded content) :
    DetectorsAgree reads f ↔
      2 ≤ content.length ∧ ScanInRange reads content ∧
        (¬ PureJpeg content ↔ ∃ i, MarkAt content i) := by
  constructor
  · rintro ⟨hasZip, offset, hhas, hoffset, hagree⟩
    rw [hasFileZipPart_eq hf, Option.ite_none_right_eq_some, Option.some.injEq] at hhas
    obtain ⟨htwo, rfl⟩ := hhas
    refine ⟨htwo, (getZipOffest_isSome_iff hf).mp (Option.isSome_of_eq_some hoffset), ?_⟩
    rw [archiveStart_ne_zero_iff (archiveStart_of_getZipOffest hf hoffset)] at hagree
    rwa [decide_eq_true_iff] at hagree
  · rintro ⟨htwo, hscan, hagree⟩
    obtain ⟨offset, hoffset⟩ :=
      Option.isSome_iff_exists.mp ((getZipOffest_isSome_iff hf).mpr hscan)
    refine ⟨decide ¬ PureJpeg content, offset, ?_, hoffset, ?_⟩
    · rw [hasFileZipPart_eq hf, if_pos htwo]
    · rw [archiveStart_ne_zero_iff (archiveStart_of_getZipOffest hf hoffset),
        decide_eq_true_iff]
      exact hagree

/-- The detectors agree exactly when their comparisons stay inside the buffer, and
either the file is an image with nothing behind it, or an archive follows an
end-of-image marker, but not both. -/
theorem detectorsAgree_iff (reads : Reads) (content : List UInt8) :
    DetectorsAgree reads (loaded (loadedPart content)) ↔
      2 ≤ (loadedPart content).length ∧ ScanInRange reads (loadedPart content) ∧
        (¬ PureJpeg (loadedPart content) ↔ ∃ i, MarkAt (loadedPart content) i) :=
  detectorsAgree_iff_of_loaded (loaded_loaded (length_loadedPart_lt content))

theorem not_detectorsAgree_of_eq {reads : Reads} {f : FileInfo} {hasZip : Bool} {offset : Nat}
    (hhas : hasFileZipPart reads f = some hasZip) (hoffset : getZipOffest reads f = some offset)
    (hne : ¬ (hasZip = true ↔ offset ≠ 0)) : ¬ DetectorsAgree reads f := by
  rintro ⟨hasZip', offset', hhas', hoffset', hagree⟩
  obtain rfl : hasZip = hasZip' := by simpa [hhas] using hhas'
  obtain rfl : offset = offset' := by simpa [hoffset] using hoffset'
  exact hne hagree

/-- Two bytes of text are announced as an archive, and an archive whose last bytes
are an end-of-image marker is dismissed. -/
theorem not_detectorsAgree :
    ¬ DetectorsAgree .untilDifference (loaded (loadedPart [0x61, 0x62])) ∧
      ¬ DetectorsAgree .untilDifference (loaded (loadedPart
        [0xff, 0xd8, 0xff, 0xd9, 0x50, 0x4b, 0x03, 0x04, 0xff, 0xd9])) := by
  constructor
  · have hhas : hasFileZipPart .untilDifference (loaded (loadedPart [0x61, 0x62])) =
        some true := by decide
    exact not_detectorsAgree_of_eq hhas rfl (by decide)
  · have hhas : hasFileZipPart .untilDifference (loaded (loadedPart
        [0xff, 0xd8, 0xff, 0xd9, 0x50, 0x4b, 0x03, 0x04, 0xff, 0xd9])) = some false := by decide
    exact not_detectorsAgree_of_eq hhas rfl (by decide)

end CHomework.ZipJpeg
