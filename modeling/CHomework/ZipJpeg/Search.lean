import Mathlib.Order.Bounds.Defs
import CHomework.ZipJpeg.Detectors

namespace CHomework.ZipJpeg

open CHomework.Buffer

/-- An archive starts at `o`, right behind an end-of-image marker. -/
structure ArchiveAt (content : List UInt8) (o : Nat) : Prop where
  two_le : 2 ≤ o
  marker : endJpegSig.bytes <+: content.drop (o - 2)
  signature : startZipSig.bytes <+: content.drop o

theorem archiveAt_iff {content : List UInt8} {o : Nat} :
    ArchiveAt content o ↔ ∃ i, MarkAt content i ∧ o = i + 2 := by
  constructor
  · intro h
    have ho : o = o - 2 + 2 := (Nat.sub_add_cancel h.two_le).symm
    exact ⟨o - 2, ⟨h.marker, ho ▸ h.signature⟩, ho⟩
  · rintro ⟨i, hmark, rfl⟩
    exact ⟨Nat.le_add_left 2 i, hmark.1, hmark.2⟩

theorem isLeast_of_markAt {content : List UInt8} {i : Nat} (hmark : MarkAt content i)
    (hfirst : ∀ j < i, ¬ MarkAt content j) : IsLeast {o | ArchiveAt content o} (i + 2) := by
  refine ⟨archiveAt_iff.mpr ⟨i, hmark, rfl⟩, ?_⟩
  intro o ho
  obtain ⟨j, hj, rfl⟩ := archiveAt_iff.mp ho
  have hle : ¬ j < i := fun hlt => hfirst j hlt hj
  omega

theorem isLeast_or_of_archiveStart {content : List UInt8} {o : Nat}
    (h : ArchiveStart content o) :
    IsLeast {o | ArchiveAt content o} o ∨ (o = 0 ∧ ∀ o', ¬ ArchiveAt content o') := by
  rcases h with ⟨i, hmark, hfirst, rfl⟩ | ⟨hnone, rfl⟩
  · exact Or.inl (isLeast_of_markAt hmark hfirst)
  · refine Or.inr ⟨rfl, ?_⟩
    intro o' ho'
    obtain ⟨i, hmark, -⟩ := archiveAt_iff.mp ho'
    exact hnone i hmark

/-- The search returns the offset of the first archive, and 0 exactly when the file
has none. -/
theorem getZipOffest_isLeast {f : FileInfo} {content : List UInt8} (hf : f.Loaded content) :
    ∃ o, getZipOffest .untilDifference f = some o ∧
      ((∃ o', ArchiveAt content o') → IsLeast {o' | ArchiveAt content o'} o) ∧
      (o = 0 ↔ ¬ ∃ o', ArchiveAt content o') := by
  obtain ⟨o, ho⟩ := Option.isSome_iff_exists.mp
    ((getZipOffest_isSome_iff hf).mpr (scanInRange_untilDifference content))
  refine ⟨o, ho, ?_⟩
  rcases isLeast_or_of_archiveStart (archiveStart_of_getZipOffest hf ho) with
    hleast | ⟨hzero, hnone⟩
  · have hpos : o ≠ 0 := Nat.ne_of_gt (Nat.lt_of_lt_of_le Nat.two_pos hleast.1.two_le)
    exact ⟨fun _ => hleast, iff_of_false hpos (not_not.mpr ⟨o, hleast.1⟩)⟩
  · have hno : ¬ ∃ o', ArchiveAt content o' := not_exists.mpr hnone
    exact ⟨fun h => absurd h hno, iff_of_true hzero hno⟩

/-- A marker cut off by the next one, and an archive behind it. -/
theorem getZipOffest_isLeast_sample :
    ∃ o, getZipOffest .untilDifference
        (loaded [0xff, 0xff, 0xd9, 0x50, 0x4b, 0x03, 0x04]) = some o ∧
      ((∃ o', ArchiveAt [0xff, 0xff, 0xd9, 0x50, 0x4b, 0x03, 0x04] o') →
        IsLeast {o' | ArchiveAt [0xff, 0xff, 0xd9, 0x50, 0x4b, 0x03, 0x04] o'} o) ∧
      (o = 0 ↔ ¬ ∃ o', ArchiveAt [0xff, 0xff, 0xd9, 0x50, 0x4b, 0x03, 0x04] o') :=
  getZipOffest_isLeast (loaded_loaded (by decide))

end CHomework.ZipJpeg
