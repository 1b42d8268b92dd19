import CHomework.ZipJpeg.Detectors
import CHomework.ZipJpeg.Safety

namespace CHomework.ZipJpeg

open CHomework.Buffer

/-- The names that a walk from `o` finds: it goes from signature to signature, and ends
at the end of the file or where there is none. -/
inductive Names (content : List UInt8) : Nat → List (List UInt8) → Prop
  | behind {o : Nat} : content.length ≤ o → Names content o []
  | other {o : Nat} :
      o < content.length → ¬ startZipSig.bytes <+: content.drop o → Names content o []
  | record {o : Nat} {names : List (List UInt8)} :
      startZipSig.bytes <+: content.drop o →
        Names content (o + recordLength content o) names →
          Names content o (printed (recordName content o) :: names)

/-- What is printed for a file, by its bytes alone. -/
def Shows (content : List UInt8) : Listing → Prop
  | .noZip => PureJpeg content
  | .files names =>
      ¬ PureJpeg content ∧ ∃ start, ArchiveStart content start ∧ Names content start names

section Names

variable {content : List UInt8} {o : Nat} {names : List (List UInt8)}

theorem names_iff_of_length_le (h : content.length ≤ o) : Names content o names ↔ names = [] := by
  constructor
  · intro hnames
    cases hnames with
    | behind => rfl
    | other => rfl
    | record hsig _ => exact absurd (Signature.lt_length hsig) (by omega)
  · rintro rfl
    exact .behind h

theorem names_iff_of_not_signature (hlt : o < content.length)
    (hsig : ¬ startZipSig.bytes <+: content.drop o) : Names content o names ↔ names = [] := by
  constructor
  · intro hnames
    cases hnames with
    | behind => rfl
    | other => rfl
    | record hsig' _ => exact absurd hsig' hsig
  · rintro rfl
    exact .other hlt hsig

theorem names_iff_of_signature (hsig : startZipSig.bytes <+: content.drop o) :
    Names content o names ↔ ∃ names', names = printed (recordName content o) :: names' ∧
      Names content (o + recordLength content o) names' := by
  constructor
  · intro hnames
    cases hnames with
    | behind hle => exact absurd (Signature.lt_length hsig) (by omega)
    | other _ hsig' => exact absurd hsig hsig'
    | record _ hrest => exact ⟨_, rfl, hrest⟩
  · rintro ⟨names', rfl, hrest⟩
    exact .record hsig hrest

end Names

section Loaded

variable {reads : Reads} {f : FileInfo} {content : List UInt8}

/-- The induction is on the rounds that are left, of which there are enough. -/
theorem recordLoop_eq_some_iff (hf : f.Loaded content) {rounds : Nat} {o : UInt64}
    {names : List (List UInt8)} (hrounds : content.length ≤ o.toNat + rounds)
    (ho : o.toNat < 2 ^ 63) (hwalk : WalkInRange reads content o.toNat) :
    recordLoop reads f (rounds + 1) o = some names ↔ Names content o.toNat names := by
  induction rounds generalizing o names with
  | zero =>
      rw [recordLoop_of_length_le hf (by omega), names_iff_of_length_le (by omega),
        Option.some.injEq, eq_comm]
  | succ rounds ih =>
      rcases Nat.lt_or_ge o.toNat content.length with hlt | hle
      · obtain ⟨hrecord, hrest⟩ := (walkInRange_iff hlt).mp hwalk
        by_cases hsig : startZipSig.bytes <+: content.drop o.toNat
        · have hnext := toNat_add_recordLength hf hlt
          have := thirty_le_recordLength content o.toNat
          have := recordLength_lt content o.toNat
          have := length_lt hf
          rw [recordLoop_of_signature hf hsig hrecord, names_iff_of_signature hsig,
            Option.map_eq_some_iff]
          have hbehind : ∀ names', recordLoop reads f (rounds + 1)
              (o + UInt64.ofNat (recordLength content o.toNat)) = some names' ↔
                Names content (o.toNat + recordLength content o.toNat) names' := by
            intro names'
            rw [← hnext]
            exact ih (by omega) (by omega) (by rw [hnext]; exact hrest hsig)
          simp only [hbehind]
          constructor
          · rintro ⟨names', hnames, rfl⟩
            exact ⟨names', rfl, hnames⟩
          · rintro ⟨names', rfl, hnames⟩
            exact ⟨names', hnames, rfl⟩
        · rw [recordLoop_of_not_signature hf hlt hrecord.1 hsig,
            names_iff_of_not_signature hlt hsig, Option.some.injEq, eq_comm]
      · rw [recordLoop_of_length_le hf hle, names_iff_of_length_le hle, Option.some.injEq, eq_comm]

theorem inspect_eq_some_iff (hf : f.Loaded content) (haccess : AccessesInRange reads content)
    (listing : Listing) : inspect reads f = some listing ↔ Shows content listing := by
  have htwo := haccess.two_le_length
  by_cases hpure : PureJpeg content
  · rw [inspect_of_pureJpeg hf htwo hpure, Option.some.injEq]
    cases listing with
    | noZip => simp [Shows, hpure]
    | files names => simp [Shows, hpure]
  · obtain ⟨hscan, hwalks⟩ := haccess.archive_inRange.resolve_left hpure
    have hsome : (getZipOffest reads f).isSome := (getZipOffest_isSome_iff hf).mpr hscan
    obtain ⟨start, hoffest⟩ := Option.isSome_iff_exists.mp hsome
    have hstart := archiveStart_of_getZipOffest hf hoffest
    have hle := archiveStart_le hstart
    have hlt := length_lt hf
    have htoNat : (UInt64.ofNat start).toNat = start := by
      rw [UInt64.toNat_ofNat']
      omega
    rw [inspect_of_not_pureJpeg hf htwo hpure, hoffest, Option.bind_some]
    cases listing with
    | noZip => simp [Shows, hpure]
    | files names =>
        have hloop : recordLoop reads f (content.length + 1) (UInt64.ofNat start) = some names ↔
            Names content start names := by
          rw [recordLoop_eq_some_iff hf (by omega) (by omega) (by rw [htoNat]; exact hwalks _ hstart),
            htoNat]
        rw [Shows, and_iff_right hpure]
        constructor
        · intro h
          obtain ⟨names', hnames', heq⟩ := Option.map_eq_some_iff.mp h
          obtain rfl : names' = names := by simpa using heq
          exact ⟨start, hstart, hloop.mp hnames'⟩
        · rintro ⟨start', hstart', hnames⟩
          rw [hloop.mpr (hstart.unique hstart' ▸ hnames)]
          rfl

end Loaded

/-- Whatever is in the file: the program stays inside of the buffer and prints what the
bytes show, or it leaves the buffer. -/
theorem main_eq_some_iff (reads : Reads) (stray : Nat → UInt8) (content : List UInt8)
    (listing : Listing) :
    main reads stray content = some listing ↔
      (loadedPart content).length < 2 ^ 31 ∧ AccessesInRange reads (loadedPart content) ∧
        Shows (loadedPart content) listing := by
  have hlength : (loadedPart content).length = content.length % 2 ^ 32 := by
    rw [loadedPart, List.length_take]
    exact Nat.min_eq_left (Nat.mod_le _ _)
  have hf := loaded_loaded (length_loadedPart_lt content)
  rw [main, loadFile_eq, hlength]
  split
  · rename_i hint
    rw [and_iff_right hint]
    show inspect reads (loaded (loadedPart content)) = some listing ↔ _
    constructor
    · intro h
      have haccess := (inspect_isSome_iff hf).mp (Option.isSome_of_eq_some h)
      exact ⟨haccess, (inspect_eq_some_iff hf haccess listing).mp h⟩
    · rintro ⟨haccess, hshows⟩
      exact (inspect_eq_some_iff hf haccess listing).mpr hshows
  · rename_i hint
    refine iff_of_false (fun h => ?_) fun h => hint h.1
    cases h

end CHomework.ZipJpeg
