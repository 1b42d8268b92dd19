import Mathlib.Logic.Relation
import CHomework.ZipJpeg.Access

namespace CHomework.ZipJpeg

open CHomework.Buffer

/-- An end-of-image marker with an archive right behind it. -/
def MarkAt (content : List UInt8) (i : Nat) : Prop :=
  endJpegSig.bytes <+: content.drop i ∧ startZipSig.bytes <+: content.drop (i + 2)

/-- Where the walk over the records starts: at the first embedded archive, or
at offset 0 when there is none. -/
def ArchiveStart (content : List UInt8) (o : Nat) : Prop :=
  (∃ i, MarkAt content i ∧ (∀ j < i, ¬ MarkAt content j) ∧ o = i + 2) ∨
    ((∀ i, ¬ MarkAt content i) ∧ o = 0)

/-- Behind every end-of-image marker up to the first archive there is room to
look for the archive signature. -/
def ScanInRange (reads : Reads) (content : List UInt8) : Prop :=
  ∀ i, endJpegSig.bytes <+: content.drop i → (∀ j < i, ¬ MarkAt content j) →
    reads.InRange content.length (i + 2) 4

/-- The record at `o` is followed by what starts at `o'`. -/
def NextRecord (content : List UInt8) (o o' : Nat) : Prop :=
  startZipSig.bytes <+: content.drop o ∧ o' = o + recordLength content o

/-- Every offset of the walk that is inside the file can be read as a record. -/
def WalkInRange (reads : Reads) (content : List UInt8) (start : Nat) : Prop :=
  ∀ o, Relation.ReflTransGen (NextRecord content) start o → o < content.length →
    RecordInRange reads content o

theorem ArchiveStart.unique {content : List UInt8} {o o' : Nat}
    (h : ArchiveStart content o) (h' : ArchiveStart content o') : o = o' := by
  rcases h with ⟨i, hi, hfirst, rfl⟩ | ⟨hnone, rfl⟩
  · rcases h' with ⟨i', hi', hfirst', rfl⟩ | ⟨hnone', -⟩
    · have hle : ¬ i' < i := fun hlt => hfirst i' hlt hi'
      have hge : ¬ i < i' := fun hlt => hfirst' i hlt hi
      omega
    · exact absurd hi (hnone' i)
  · rcases h' with ⟨i', hi', -, -⟩ | ⟨-, rfl⟩
    · exact absurd hi' (hnone i')
    · rfl

section Walk

variable {reads : Reads} {content : List UInt8}

theorem walkInRange_of_length_le {o : Nat} (h : content.length ≤ o) :
    WalkInRange reads content o := by
  intro o' hreach hlt
  rcases hreach.cases_head with rfl | ⟨o₁, ⟨hsig, -⟩, -⟩
  · omega
  · have := Signature.lt_length hsig
    omega

theorem walkInRange_iff {o : Nat} (h : o < content.length) :
    WalkInRange reads content o ↔
      RecordInRange reads content o ∧
        (startZipSig.bytes <+: content.drop o →
          WalkInRange reads content (o + recordLength content o)) := by
  constructor
  · intro hwalk
    refine ⟨hwalk o Relation.ReflTransGen.refl h, ?_⟩
    intro hsig o' hreach
    exact hwalk o' (Relation.ReflTransGen.head ⟨hsig, rfl⟩ hreach)
  · rintro ⟨hrecord, hrest⟩ o' hreach
    rcases hreach.cases_head with rfl | ⟨o₁, ⟨hsig, rfl⟩, hreach⟩
    · intro _
      exact hrecord
    · exact hrest hsig o' hreach

end Walk

section Loaded

variable {reads : Reads} {f : FileInfo} {content : List UInt8}

theorem zipOffestLoop_succ (hf : f.Loaded content) {rounds i : Nat}
    (hi : i < content.length) :
    zipOffestLoop reads f (rounds + 1) i =
      if endJpegSig.bytes <+: content.drop i then
        if reads.InRange content.length (i + 2) 4 then
          if startZipSig.bytes <+: content.drop (i + 2) then some (i + 2)
          else zipOffestLoop reads f rounds (i + 1)
        else none
      else zipOffestLoop reads f rounds (i + 1) := by
  have hend : reads.InRange content.length i endJpegSig.bytes.length :=
    Reads.inRange_of_le (by simp) (by simp; omega)
  rcases memcmp_of_inRange endJpegSig hend with ⟨c, hc, hczero⟩
  rw [zipOffestLoop, hf.data_eq, hc]
  show (if c = 0 then _ else _) = _
  simp only [hczero]
  split
  · split
    · rename_i hzip
      rcases memcmp_of_inRange startZipSig hzip with ⟨d, hd, hdzero⟩
      rw [hd]
      show (if d = 0 then some (i + 2) else _) = _
      simp only [hdzero]
    · rename_i hzip
      rw [memcmp_of_not_inRange startZipSig hzip]
      rfl
  · rfl

theorem zipOffestLoop_isSome_iff (hf : f.Loaded content) {rounds i : Nat}
    (hrounds : i + rounds = content.length) (hbefore : ∀ j < i, ¬ MarkAt content j) :
    (zipOffestLoop reads f rounds i).isSome ↔
      ∀ k, i ≤ k → endJpegSig.bytes <+: content.drop k → (∀ j < k, ¬ MarkAt content j) →
        reads.InRange content.length (k + 2) 4 := by
  induction rounds generalizing i with
  | zero =>
      simp only [zipOffestLoop, Option.isSome_some, true_iff]
      intro k hk hend
      have := Signature.lt_length hend
      omega
  | succ rounds ih =>
      have hskip : ¬ MarkAt content i →
          ((zipOffestLoop reads f rounds (i + 1)).isSome ↔
            ∀ k, i + 1 ≤ k → endJpegSig.bytes <+: content.drop k →
              (∀ j < k, ¬ MarkAt content j) → reads.InRange content.length (k + 2) 4) := by
        intro hi
        apply ih (by omega)
        intro j hj
        rcases Nat.lt_succ_iff_lt_or_eq.mp hj with hlt | rfl
        · exact hbefore j hlt
        · exact hi
      rw [zipOffestLoop_succ hf (by omega)]
      split
      · rename_i hend
        split
        · rename_i hrange
          split
          · rename_i hzip
            simp only [Option.isSome_some, true_iff]
            intro k hk _ hfirst
            rcases Nat.eq_or_lt_of_le hk with rfl | hlt
            · exact hrange
            · exact absurd ⟨hend, hzip⟩ (hfirst i hlt)
          · rename_i hzip
            rw [hskip fun hmark => hzip hmark.2]
            constructor
            · intro h k hk
              rcases Nat.eq_or_lt_of_le hk with rfl | hlt
              · intro _ _
                exact hrange
              · exact h k hlt
            · intro h k hk
              exact h k (by omega)
        · rename_i hrange
          simp only [Option.isSome_none, Bool.false_eq_true, false_iff]
          intro h
          exact hrange (h i (le_refl _) hend hbefore)
      · rename_i hend
        rw [hskip fun hmark => hend hmark.1]
        constructor
        · intro h k hk hendk
          rcases Nat.eq_or_lt_of_le hk with rfl | hlt
          · exact absurd hendk hend
          · exact h k hlt hendk
        · intro h k hk
          exact h k (by omega)

theorem archiveStart_of_zipOffestLoop (hf : f.Loaded content) {rounds i o : Nat}
    (hrounds : i + rounds = content.length) (hbefore : ∀ j < i, ¬ MarkAt content j)
    (h : zipOffestLoop reads f rounds i = some o) : ArchiveStart content o := by
  induction rounds generalizing i with
  | zero =>
      simp only [zipOffestLoop, Option.some.injEq] at h
      refine Or.inr ⟨?_, h.symm⟩
      intro j hmark
      have := Signature.lt_length hmark.1
      exact hbefore j (by omega) hmark
  | succ rounds ih =>
      have hskip : ¬ MarkAt content i → zipOffestLoop reads f rounds (i + 1) = some o →
          ArchiveStart content o := by
        intro hi
        apply ih (by omega)
        intro j hj
        rcases Nat.lt_succ_iff_lt_or_eq.mp hj with hlt | rfl
        · exact hbefore j hlt
        · exact hi
      rw [zipOffestLoop_succ hf (by omega)] at h
      split at h
      · rename_i hend
        split at h
        · split at h
          · rename_i hzip
            rw [Option.some.injEq] at h
            exact Or.inl ⟨i, ⟨hend, hzip⟩, hbefore, h.symm⟩
          · rename_i hzip
            exact hskip (fun hmark => hzip hmark.2) h
        · exact absurd h (by simp)
      · rename_i hend
        exact hskip (fun hmark => hend hmark.1) h

theorem getZipOffest_isSome_iff (hf : f.Loaded content) :
    (getZipOffest reads f).isSome ↔ ScanInRange reads content := by
  rw [getZipOffest, hf.size_eq, zipOffestLoop_isSome_iff hf (Nat.zero_add _) (by simp)]
  simp only [ScanInRange, Nat.zero_le, true_implies]

theorem archiveStart_of_getZipOffest (hf : f.Loaded content) {o : Nat}
    (h : getZipOffest reads f = some o) : ArchiveStart content o := by
  rw [getZipOffest, hf.size_eq] at h
  exact archiveStart_of_zipOffestLoop hf (Nat.zero_add _) (by simp) h

theorem lt_size_iff (hf : f.Loaded content) {o : UInt64} :
    o < f.size.toUInt64 ↔ o.toNat < content.length := by
  rw [UInt64.lt_iff_toNat_lt, UInt32.toNat_toUInt64, hf.size_eq]

theorem length_lt (hf : f.Loaded content) : content.length < 2 ^ 32 := by
  rw [← hf.size_eq]
  exact f.size.toNat_lt

theorem recordLoop_of_length_le (hf : f.Loaded content) {o : UInt64} {rounds : Nat}
    (h : content.length ≤ o.toNat) : recordLoop reads f (rounds + 1) o = some [] := by
  rw [recordLoop, if_neg]
  rw [lt_size_iff hf]
  omega

theorem recordLoop_of_not_signature (hf : f.Loaded content) {o : UInt64} {rounds : Nat}
    (hlt : o.toNat < content.length) (hrange : reads.InRange content.length o.toNat 4)
    (hsig : ¬ startZipSig.bytes <+: content.drop o.toNat) :
    recordLoop reads f (rounds + 1) o = some [] := by
  rw [recordLoop, if_pos ((lt_size_iff hf).mpr hlt), getZipRecod_of_not_signature hf hrange hsig]
  rfl

def recordName (content : List UInt8) (o : Nat) : List UInt8 :=
  ((content ++ [0]).drop (o + 30)).take (nameLen content o)

theorem printed_append_zero (name : List UInt8) : printed (name ++ [0]) = printed name := by
  induction name with
  | nil => rfl
  | cons b name ih =>
      simp only [printed, List.cons_append, List.takeWhile_cons] at ih ⊢
      rw [ih]

theorem toNat_add_recordLength (hf : f.Loaded content) {o : UInt64}
    (hlt : o.toNat < content.length) :
    (o + UInt64.ofNat (recordLength content o.toNat)).toNat =
      o.toNat + recordLength content o.toNat := by
  have := length_lt hf
  have := recordLength_lt content o.toNat
  rw [UInt64.toNat_add, UInt64.toNat_ofNat']
  omega

/-- One round at a record: its name is printed, and the walk goes on behind it. -/
theorem recordLoop_of_signature (hf : f.Loaded content) {o : UInt64} {rounds : Nat}
    (hsig : startZipSig.bytes <+: content.drop o.toNat)
    (hrecord : RecordInRange reads content o.toNat) :
    recordLoop reads f (rounds + 1) o =
      (recordLoop reads f rounds (o + UInt64.ofNat (recordLength content o.toNat))).map
        (printed (recordName content o.toNat) :: ·) := by
  have hlt : o.toNat < content.length := Signature.lt_length hsig
  have ho : o.toNat < 2 ^ 63 := by
    have := length_lt hf
    omega
  have hsome := (getZipRecod_isSome_iff hf ho).mpr hrecord
  rw [getZipRecod_of_signature hf ho hsig] at hsome
  have hrecod : getZipRecod reads f o =
      some { filename := some (recordName content o.toNat ++ [0])
             recordLen := UInt64.ofNat (recordLength content o.toNat) } := by
    rw [getZipRecod_of_signature hf ho hsig]
    rw [if_pos (hrecord.2 hsig).1] at hsome ⊢
    rw [Option.isSome_map] at hsome
    rw [loadRange_of_isSome hsome]
    rfl
  rw [recordLoop, if_pos ((lt_size_iff hf).mpr hlt), hrecod, ← printed_append_zero,
    Option.map_eq_bind]
  rfl

theorem recordLoop_isSome_iff (hf : f.Loaded content) {rounds : Nat} {o : UInt64}
    (hrounds : content.length ≤ o.toNat + rounds) (ho : o.toNat < 2 ^ 63) :
    (recordLoop reads f (rounds + 1) o).isSome ↔ WalkInRange reads content o.toNat := by
  induction rounds generalizing o with
  | zero =>
      have hle : content.length ≤ o.toNat := by omega
      rw [recordLoop_of_length_le hf hle]
      simp only [walkInRange_of_length_le hle, Option.isSome_some]
  | succ rounds ih =>
      rcases Nat.lt_or_ge o.toNat content.length with hlt | hle
      · rw [walkInRange_iff hlt]
        by_cases hrecord : RecordInRange reads content o.toNat
        · by_cases hsig : startZipSig.bytes <+: content.drop o.toNat
          · have hnext := toNat_add_recordLength hf hlt
            have := thirty_le_recordLength content o.toNat
            have := recordLength_lt content o.toNat
            have := length_lt hf
            rw [recordLoop_of_signature hf hsig hrecord, Option.isSome_map,
              ih (by omega) (by omega), hnext]
            simp only [hrecord, hsig, true_and, forall_const]
          · rw [recordLoop_of_not_signature hf hlt hrecord.1 hsig]
            simp only [hrecord, hsig, true_and, false_implies, Option.isSome_some]
        · have hnone : getZipRecod reads f o = none := by
            rw [← Option.not_isSome_iff_eq_none, getZipRecod_isSome_iff hf ho]
            exact hrecord
          rw [recordLoop, if_pos ((lt_size_iff hf).mpr hlt), hnone]
          simp [hrecord]
      · rw [recordLoop_of_length_le hf hle]
        simp only [walkInRange_of_length_le hle, Option.isSome_some]

end Loaded

end CHomework.ZipJpeg
