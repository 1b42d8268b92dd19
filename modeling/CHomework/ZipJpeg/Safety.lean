import CHomework.ZipJpeg.Walk

namespace CHomework.ZipJpeg

open CHomework.Buffer

/-- The file has two bytes to compare with the end-of-image marker, and where it
is not taken for a plain image, the search and the walk find every byte they
look at. -/
structure AccessesInRange (reads : Reads) (content : List UInt8) : Prop where
  two_le_length : 2 ≤ content.length
  archive_inRange : PureJpeg content ∨
    (ScanInRange reads content ∧
      ∀ start, ArchiveStart content start → WalkInRange reads content start)

theorem archiveStart_le {content : List UInt8} {o : Nat} (h : ArchiveStart content o) :
    o ≤ content.length := by
  rcases h with ⟨i, hmark, -, rfl⟩ | ⟨-, rfl⟩
  · have := Signature.add_length_le hmark.1
    simpa using this
  · exact Nat.zero_le _

section Loaded

variable {reads : Reads} {f : FileInfo} {content : List UInt8}

theorem inspect_of_pureJpeg (hf : f.Loaded content) (htwo : 2 ≤ content.length)
    (hpure : PureJpeg content) : inspect reads f = some .noZip := by
  rw [inspect, hasFileZipPart_eq hf, if_pos htwo]
  simp [hpure]

theorem inspect_of_not_pureJpeg (hf : f.Loaded content) (htwo : 2 ≤ content.length)
    (hpure : ¬ PureJpeg content) :
    inspect reads f = (getZipOffest reads f).bind fun start =>
      (recordLoop reads f (content.length + 1) (UInt64.ofNat start)).map .files := by
  rw [inspect, hasFileZipPart_eq hf, if_pos htwo, hf.size_eq]
  simp [hpure, Option.map_eq_bind]

theorem inspect_isSome_iff (hf : f.Loaded content) :
    (inspect reads f).isSome ↔ AccessesInRange reads content := by
  by_cases htwo : 2 ≤ content.length
  · by_cases hpure : PureJpeg content
    · rw [inspect_of_pureJpeg hf htwo hpure]
      simp only [Option.isSome_some, true_iff]
      exact ⟨htwo, Or.inl hpure⟩
    · rw [inspect_of_not_pureJpeg hf htwo hpure]
      have hscan : (getZipOffest reads f).isSome ↔ ScanInRange reads content :=
        getZipOffest_isSome_iff hf
      cases hoffest : getZipOffest reads f with
      | none =>
          rw [hoffest] at hscan
          constructor
          · intro hsome
            exact absurd hsome (by simp)
          · intro haccess
            rcases haccess.archive_inRange with h | ⟨h, -⟩
            · exact absurd h hpure
            · exact absurd (hscan.mpr h) (by simp)
      | some start =>
          rw [hoffest] at hscan
          have hstart := archiveStart_of_getZipOffest hf hoffest
          have hle := archiveStart_le hstart
          have hlt := length_lt hf
          have htoNat : (UInt64.ofNat start).toNat = start := by
            rw [UInt64.toNat_ofNat']
            omega
          have hwalk : (recordLoop reads f (content.length + 1) (UInt64.ofNat start)).isSome ↔
              WalkInRange reads content start := by
            rw [recordLoop_isSome_iff hf (by omega) (by omega), htoNat]
          rw [Option.bind_some, Option.isSome_map, hwalk]
          constructor
          · intro h
            refine ⟨htwo, Or.inr ⟨hscan.mp rfl, ?_⟩⟩
            intro start' hstart'
            rw [hstart'.unique hstart]
            exact h
          · intro haccess
            rcases haccess.archive_inRange with h | ⟨-, h⟩
            · exact absurd h hpure
            · exact h start hstart
  · constructor
    · intro hsome
      rw [inspect, hasFileZipPart_eq hf, if_neg htwo] at hsome
      exact absurd hsome (by simp)
    · intro haccess
      exact absurd haccess.two_le_length htwo

end Loaded

/-- The reader stays inside the loaded buffer exactly on the files described by
`AccessesInRange`, and the whole of `main` also needs a size that is not
negative as an `int`. -/
theorem accesses_inRange_iff (reads : Reads) (stray : Nat → UInt8) (content : List UInt8) :
    ((inspect reads (loaded (content.take (content.length % 2 ^ 32)))).isSome ↔
        AccessesInRange reads (content.take (content.length % 2 ^ 32))) ∧
      ((main reads stray content).isSome ↔
        content.length % 2 ^ 32 < 2 ^ 31 ∧
          AccessesInRange reads (content.take (content.length % 2 ^ 32))) := by
  have hlength : (content.take (content.length % 2 ^ 32)).length < 2 ^ 32 := by
    rw [List.length_take]
    exact Nat.lt_of_le_of_lt (Nat.min_le_left _ _) (Nat.mod_lt _ (Nat.two_pow_pos 32))
  have hinspect : (inspect reads (loaded (content.take (content.length % 2 ^ 32)))).isSome ↔
      AccessesInRange reads (content.take (content.length % 2 ^ 32)) :=
    inspect_isSome_iff (loaded_loaded hlength)
  refine ⟨hinspect, ?_⟩
  rw [main, loadFile_eq]
  split
  · rename_i hint
    rw [and_iff_right hint]
    exact hinspect
  · rename_i hint
    constructor
    · intro hsome
      exact absurd hsome Bool.false_ne_true
    · rintro ⟨hlt, -⟩
      exact absurd hlt hint

/-- A record cut off behind its signature is read as a whole header. -/
theorem not_accesses_inRange_of_truncated :
    ¬ ∀ content, (main .untilDifference (fun _ => 0) content).isSome := by
  intro h
  exact absurd (h [0xff, 0xd8, 0xff, 0xd9, 0x50, 0x4b, 0x03, 0x04]) (by decide)

end CHomework.ZipJpeg
