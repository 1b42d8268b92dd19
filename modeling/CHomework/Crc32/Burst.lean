import CHomework.Crc32.Mappings

namespace CHomework.Crc32

open CHomework.Crc

/-- The sequences agree in every place outside the `n` places from `k` on. -/
def AgreeOutside (k n : Nat) (bytes bytes' : List UInt8) : Prop :=
  ∀ i, ¬ (k ≤ i ∧ i < k + n) → bytes[i]? = bytes'[i]?

theorem take_eq_take_of_agreeOutside {k n : Nat} {bytes bytes' : List UInt8}
    (h : AgreeOutside k n bytes bytes') : bytes.take k = bytes'.take k := by
  apply List.ext_getElem?
  intro i
  rw [List.getElem?_take, List.getElem?_take]
  split
  · exact h i (by omega)
  · rfl

theorem drop_eq_drop_of_agreeOutside {k n : Nat} {bytes bytes' : List UInt8}
    (h : AgreeOutside k n bytes bytes') : bytes.drop (k + n) = bytes'.drop (k + n) := by
  apply List.ext_getElem?
  intro i
  rw [List.getElem?_drop, List.getElem?_drop]
  exact h (k + n + i) (by omega)

theorem eq_take_append_window (k n : Nat) (bytes : List UInt8) :
    bytes = bytes.take k ++ ((bytes.drop k).take n ++ bytes.drop (k + n)) := by
  rw [← List.drop_drop, List.take_append_drop, List.take_append_drop]

theorem referenceCrc32_ne_of_agreeOutside {bytes bytes' : List UInt8} {k : Nat}
    (hlen : bytes.length = bytes'.length) (hne : bytes ≠ bytes')
    (hagree : AgreeOutside k 4 bytes bytes') : referenceCrc32 bytes ≠ referenceCrc32 bytes' := by
  have htake := take_eq_take_of_agreeOutside hagree
  have hdrop := drop_eq_drop_of_agreeOutside hagree
  have hwindow : ((bytes.drop k).take 4).length = ((bytes'.drop k).take 4).length := by
    rw [List.length_take, List.length_take, List.length_drop, List.length_drop, hlen]
  have hfits : 8 * ((bytes.drop k).take 4).length ≤ 32 := by
    have hle := List.length_take_le 4 (bytes.drop k)
    omega
  have hdiffer : (bytes.drop k).take 4 ≠ (bytes'.drop k).take 4 := by
    intro heq
    apply hne
    rw [eq_take_append_window k 4 bytes, eq_take_append_window k 4 bytes', htake, hdrop, heq]
  intro h
  have hchecksum : checksum 0xEDB88320#32 bytes = checksum 0xEDB88320#32 bytes' :=
    congrArg UInt32.toBitVec h
  rw [eq_take_append_window k 4 bytes, eq_take_append_window k 4 bytes', ← htake, ← hdrop]
    at hchecksum
  exact checksum_ne_of_window_ne (by decide) hwindow hfits hdiffer _ _ hchecksum

/-- The program prints different values for two files of one length that differ,
and that only within four consecutive bytes. -/
theorem main_ne_of_agreeOutside {file file' : List UInt8} {k : Nat}
    (hlen : file.length = file'.length) (hne : file ≠ file')
    (hagree : AgreeOutside k 4 file file') {mmap mmap' : Nat → Nat → Option (List UInt8)}
    (hmaps : Maps mmap file) (hmaps' : Maps mmap' file') {pageSize pageSize' : UInt64}
    {crc32 crc32' : UInt32} (hcrc : main mmap pageSize file.length = some crc32)
    (hcrc' : main mmap' pageSize' file'.length = some crc32') : crc32 ≠ crc32' := by
  rw [eq_referenceCrc32_of_crcOfFile hmaps hcrc, eq_referenceCrc32_of_crcOfFile hmaps' hcrc']
  exact referenceCrc32_ne_of_agreeOutside hlen hne hagree

/-- The second and the third byte are damaged. -/
theorem main_ne_of_agreeOutside_sample :
    main (mapFile [0xD0, 0x96, 0x41]) 4096 3 = some 1409855672 ∧
      main (mapFile [0xD0, 0x97, 0x42]) 4096 3 = some 3558527043 ∧
      (1409855672 : UInt32) ≠ 3558527043 := by
  have hcrc : main (mapFile [0xD0, 0x96, 0x41]) 4096 3 = some 1409855672 := by decide +kernel
  have hcrc' : main (mapFile [0xD0, 0x97, 0x42]) 4096 3 = some 3558527043 := by decide +kernel
  have hagree : AgreeOutside 1 4 [0xD0, 0x96, 0x41] [0xD0, 0x97, 0x42] := by
    intro i hi
    rcases Nat.eq_zero_or_pos i with rfl | hpos
    · rfl
    · have hout : 3 ≤ i := by omega
      rw [List.getElem?_eq_none hout, List.getElem?_eq_none hout]
  have hmaps := maps_mapFile [0xD0, 0x96, 0x41]
  have hmaps' := maps_mapFile [0xD0, 0x97, 0x42]
  have hne : ([0xD0, 0x96, 0x41] : List UInt8) ≠ [0xD0, 0x97, 0x42] := by decide
  exact ⟨hcrc, hcrc', main_ne_of_agreeOutside (by rfl) hne hagree hmaps hmaps' hcrc hcrc'⟩

end CHomework.Crc32
