import CHomework.Crc32.Checksum

namespace CHomework.Crc32

/-- `mmap` refuses to map nothing, and grants everything else. -/
def RefusesOnlyEmpty (mmap : Nat → Nat → Option (List UInt8)) : Prop :=
  ∀ offset length, (mmap offset length).isSome ↔ 0 < length

/-- The program can produce a checksum of a file of this size: each of its
mappings is one of a positive number of bytes of the file from a page boundary
on, and it gets to the printed value. -/
structure Complete (mmap : Nat → Nat → Option (List UInt8)) (pageSize : UInt64)
    (size : Nat) : Prop where
  positive : ∀ call ∈ mmapCalls size (batchLenOfPage pageSize).toNat, 0 < call.2
  aligned : ∀ call ∈ mmapCalls size (batchLenOfPage pageSize).toNat, pageSize.toNat ∣ call.1
  inside : ∀ call ∈ mmapCalls size (batchLenOfPage pageSize).toNat, call.1 + call.2 ≤ size
  reaches : (main mmap pageSize size).isSome

section

variable {size batchLen : Nat}

theorem mem_mmapCalls {call : Nat × Nat} : call ∈ mmapCalls size batchLen ↔
    (∃ i < size / batchLen, call = (i * batchLen, batchLen)) ∨
      call = (size / batchLen * batchLen, size % batchLen) := by
  simp only [mmapCalls, List.mem_append, List.mem_map, List.mem_range, List.mem_singleton,
    @eq_comm _ call]

theorem positive_mmapCalls_iff (hbatch : 0 < batchLen) :
    (∀ call ∈ mmapCalls size batchLen, 0 < call.2) ↔ ¬ batchLen ∣ size := by
  rw [Nat.dvd_iff_mod_eq_zero]
  constructor
  · intro h hzero
    have hpos := h _ (mem_mmapCalls.mpr (Or.inr rfl))
    exact Nat.lt_irrefl 0 (hzero ▸ hpos)
  · rintro hrest call hcall
    rcases mem_mmapCalls.mp hcall with ⟨i, -, rfl⟩ | rfl
    · exact hbatch
    · exact Nat.pos_of_ne_zero hrest

theorem dvd_fst_of_mem_mmapCalls {d : Nat} (hd : d ∣ batchLen) {call : Nat × Nat}
    (hcall : call ∈ mmapCalls size batchLen) : d ∣ call.1 := by
  rcases mem_mmapCalls.mp hcall with ⟨i, -, rfl⟩ | rfl
  · exact Nat.dvd_mul_left_of_dvd hd i
  · exact Nat.dvd_mul_left_of_dvd hd _

theorem add_le_of_mem_mmapCalls {call : Nat × Nat} (hcall : call ∈ mmapCalls size batchLen) :
    call.1 + call.2 ≤ size := by
  have hsize := Nat.div_add_mod' size batchLen
  rcases mem_mmapCalls.mp hcall with ⟨i, hi, rfl⟩ | rfl
  · have hle : (i + 1) * batchLen ≤ size / batchLen * batchLen := Nat.mul_le_mul_right _ hi
    rw [Nat.succ_mul] at hle
    omega
  · omega

end

theorem pageSize_dvd_batchLenOfPage {k : Nat} (hk : 2 ^ k ≤ batchSize) :
    (UInt64.ofNat (2 ^ k)).toNat ∣ (batchLenOfPage (UInt64.ofNat (2 ^ k))).toNat := by
  have hall : ∀ k < 30, (UInt64.ofNat (2 ^ k)).toNat ∣
      (batchLenOfPage (UInt64.ofNat (2 ^ k))).toNat := by decide
  exact hall k (lt_of_two_pow_le_batchSize hk)

/-- A checksum is produced except where the file is made up of whole batches,
which leave a remainder of no bytes to map. -/
theorem complete_iff {mmap : Nat → Nat → Option (List UInt8)} (hmmap : RefusesOnlyEmpty mmap)
    {k : Nat} (hk : 2 ^ k ≤ batchSize) (size : Nat) :
    Complete mmap (UInt64.ofNat (2 ^ k)) size ↔
      ¬ (batchLenOfPage (UInt64.ofNat (2 ^ k))).toNat ∣ size := by
  have hbatch := batchLenOfPage_pos hk
  constructor
  · intro hcomplete
    exact (positive_mmapCalls_iff hbatch).mp hcomplete.positive
  · intro hrest
    have hpositive := (positive_mmapCalls_iff hbatch).mpr hrest
    exact
      { positive := hpositive
        aligned := fun call => dvd_fst_of_mem_mmapCalls (pageSize_dvd_batchLenOfPage hk)
        inside := fun call => add_le_of_mem_mmapCalls
        reaches := (crcOfFile_isSome_iff hbatch size).mpr fun call hcall =>
          (hmmap call.1 call.2).mpr (hpositive call hcall) }

/-- What `mmap` maps of a file. -/
def mapFile (file : List UInt8) (offset length : Nat) : Option (List UInt8) :=
  if length = 0 then none else some ((file.drop offset).take length)

theorem refusesOnlyEmpty_mapFile (file : List UInt8) : RefusesOnlyEmpty (mapFile file) := by
  intro offset length
  rw [mapFile]
  split
  · rename_i hzero
    simp [hzero]
  · rename_i hne
    simp [Nat.pos_of_ne_zero hne]

theorem maps_mapFile (file : List UInt8) : Maps (mapFile file) file := by
  intro offset length bytes _ hbytes
  rw [mapFile, Option.ite_none_left_eq_some] at hbytes
  exact (Option.some.inj hbytes.2).symm

/-- Three bytes and pages of 4096 bytes. -/
theorem complete_iff_sample :
    Complete (mapFile [0xD0, 0x96, 0x41]) (UInt64.ofNat (2 ^ 12)) 3 ↔
      ¬ (batchLenOfPage (UInt64.ofNat (2 ^ 12))).toNat ∣ 3 :=
  complete_iff (refusesOnlyEmpty_mapFile _) (by decide) 3

theorem not_complete_of_empty : ¬ ∀ (mmap : Nat → Nat → Option (List UInt8)) (k size : Nat),
    RefusesOnlyEmpty mmap → 2 ^ k ≤ batchSize →
      Complete mmap (UInt64.ofNat (2 ^ k)) size := by
  intro h
  have hreaches := (h (mapFile []) 12 0 (refusesOnlyEmpty_mapFile []) (by decide)).reaches
  revert hreaches
  decide

end CHomework.Crc32
