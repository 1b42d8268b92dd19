import Mathlib.Algebra.Group.Nat.Defs
import CHomework.Crc32.Model
import CHomework.Lib.Crc

namespace CHomework.Crc32

open CHomework.Crc

/-- CRC-32, bit by bit over the whole sequence. -/
def referenceCrc32 (bytes : List UInt8) : UInt32 :=
  UInt32.ofBitVec (checksum 0xEDB88320#32 bytes)

theorem toBitVec_crcTable {i : Nat} (hi : i < 256) :
    (crcTable.getD i 0).toBitVec = shifts 0xEDB88320#32 8 (BitVec.ofNat 32 i) := by
  have hall : ∀ i < 256,
      (crcTable.getD i 0).toBitVec = shifts 0xEDB88320#32 8 (BitVec.ofNat 32 i) := by
    decide +kernel
  exact hall i hi

theorem toBitVec_signExtended (byte : UInt8) :
    byte.toInt8.toInt32.toUInt32.toBitVec = byte.toBitVec.signExtend 32 := rfl

/-- Sign extension only changes bits that the mask drops. -/
theorem lookupIndex_eq (crc32 : UInt32) (byte : UInt8) :
    ((crc32 ^^^ byte.toInt8.toInt32.toUInt32) &&& 0xff).toBitVec =
      low 8 (crc32.toBitVec ^^^ byte.toBitVec.setWidth 32) := by
  have hmask : (0xff : UInt32).toBitVec = (BitVec.allOnes 8).setWidth 32 := rfl
  apply BitVec.eq_of_getLsbD_eq
  intro i hi
  rw [UInt32.toBitVec_and, UInt32.toBitVec_xor, toBitVec_signExtended, hmask]
  simp only [low, BitVec.getLsbD_and, BitVec.getLsbD_xor, BitVec.getLsbD_signExtend,
    BitVec.getLsbD_setWidth, BitVec.getLsbD_allOnes]
  rcases Nat.lt_or_ge i 8 with hlow | hlow
  · simp [hlow, hi]
  · simp [Nat.not_lt.mpr hlow]

theorem toBitVec_crcStep (crc32 : UInt32) (byte : UInt8) :
    (crcStep crc32 byte).toBitVec =
      byteStep 0xEDB88320#32 crc32.toBitVec (byte.toBitVec.setWidth 32) := by
  have hindex := lookupIndex_eq crc32 byte
  generalize hlookup : (crc32 ^^^ byte.toInt8.toInt32.toUInt32) &&& 0xff = lookupIndex at hindex
  have hlt : lookupIndex.toNat < 256 := by
    rw [← UInt32.toNat_toBitVec, hindex, low, BitVec.toNat_setWidth]
    have := ((crc32.toBitVec ^^^ byte.toBitVec.setWidth 32).setWidth 8).isLt
    omega
  have hentry : BitVec.ofNat 32 lookupIndex.toNat = lookupIndex.toBitVec := by
    rw [← UInt32.toNat_toBitVec, BitVec.ofNat_toNat, BitVec.setWidth_eq]
  have hshift : (crc32 >>> 8).toBitVec = crc32.toBitVec >>> 8 := by
    simp [UInt32.toBitVec_shiftRight]
  rw [byteStep_eq, ← hindex, ← hentry, ← toBitVec_crcTable hlt, ← hshift, ← hlookup]
  rfl

theorem byteLoop_eq (filePtr : List UInt8) (j n : Nat) (crc32 : UInt32)
    (h : j + n ≤ filePtr.length) :
    byteLoop filePtr j n crc32 = ((filePtr.drop j).take n).foldl crcStep crc32 := by
  induction n generalizing j crc32 with
  | zero => simp [byteLoop]
  | succ n ih =>
      have hj : j < filePtr.length := by omega
      rw [byteLoop, ih (j + 1) _ (by omega), List.drop_eq_getElem_cons hj, List.take_succ_cons,
        List.foldl_cons, List.getD_eq_getElem?_getD, List.getElem?_eq_getElem hj,
        Option.getD_some]

theorem toBitVec_foldl_crcStep (bytes : List UInt8) (crc32 : UInt32) :
    (bytes.foldl crcStep crc32).toBitVec =
      bytes.foldl (fun r byte => byteStep 0xEDB88320#32 r (byte.toBitVec.setWidth 32))
        crc32.toBitVec := by
  induction bytes generalizing crc32 with
  | nil => rfl
  | cons byte bytes ih => rw [List.foldl_cons, List.foldl_cons, ih, toBitVec_crcStep]

theorem foldl_crcStep_eq (bytes : List UInt8) :
    bytes.foldl crcStep 0xFFFFFFFF ^^^ 0xFFFFFFFF = referenceCrc32 bytes := by
  apply UInt32.toBitVec_inj.mp
  rw [UInt32.toBitVec_xor, toBitVec_foldl_crcStep, referenceCrc32, checksum]
  exact BitVec.xor_allOnes

-- The published check value: the checksum of the digits from 1 to 9.
set_option maxRecDepth 4000 in
example : referenceCrc32 [0x31, 0x32, 0x33, 0x34, 0x35, 0x36, 0x37, 0x38, 0x39] = 0xCBF43926 := by
  decide +kernel

/-- Where `mmap` succeeds inside the file, it hands out the bytes of the file. -/
def Maps (mmap : Nat → Nat → Option (List UInt8)) (file : List UInt8) : Prop :=
  ∀ offset length bytes, offset + length ≤ file.length → mmap offset length = some bytes →
    bytes = (file.drop offset).take length

/-- The offset and length of each mapping: one for each whole batch, and one for
the remainder. -/
def mmapCalls (size batchLen : Nat) : List (Nat × Nat) :=
  (List.range (size / batchLen)).map (fun i => (i * batchLen, batchLen)) ++
    [(size / batchLen * batchLen, size % batchLen)]

section Maps

variable {mmap : Nat → Nat → Option (List UInt8)} {file : List UInt8} {batchLen : Nat}

theorem byteLoop_of_maps (hmaps : Maps mmap file) {offset length : Nat} {filePtr : List UInt8}
    (hroom : offset + length ≤ file.length) (hmap : mmap offset length = some filePtr)
    (crc32 : UInt32) :
    byteLoop filePtr 0 length crc32 =
      ((file.drop offset).take length).foldl crcStep crc32 := by
  obtain rfl := hmaps offset length filePtr hroom hmap
  rw [byteLoop_eq _ _ _ _ (by simp; omega), List.drop_zero, List.take_take, Nat.min_self]

/-- The batches take in the bytes from the offset on, each once and in order. -/
theorem batchLoop_eq_some (hmaps : Maps mmap file) {batchCount offset : Nat} {crc32 : UInt32}
    {result : Nat × UInt32} (hroom : offset + batchCount * batchLen ≤ file.length)
    (h : batchLoop mmap batchLen batchCount offset crc32 = some result) :
    result = (offset + batchCount * batchLen,
      ((file.drop offset).take (batchCount * batchLen)).foldl crcStep crc32) := by
  induction batchCount generalizing offset crc32 with
  | zero =>
      obtain rfl : (offset, crc32) = result := by simpa [batchLoop] using h
      simp
  | succ batchCount ih =>
      rw [Nat.succ_mul] at hroom
      obtain ⟨filePtr, hmap, hrest⟩ := Option.bind_eq_some_iff.mp h
      rw [byteLoop_of_maps hmaps (by omega) hmap] at hrest
      rw [ih (by omega) hrest, Nat.succ_mul, Nat.add_comm (batchCount * batchLen) batchLen,
        List.take_add, List.foldl_append, List.drop_drop, Nat.add_assoc]

theorem batchLoop_isSome_iff (batchCount offset : Nat) (crc32 : UInt32) :
    (batchLoop mmap batchLen batchCount offset crc32).isSome ↔
      ∀ i < batchCount, (mmap (offset + i * batchLen) batchLen).isSome := by
  induction batchCount generalizing offset crc32 with
  | zero => simp [batchLoop]
  | succ batchCount ih =>
      have hnext : ∀ i, offset + (i + 1) * batchLen = offset + batchLen + i * batchLen := by
        intro i
        rw [Nat.succ_mul, Nat.add_comm (i * batchLen), Nat.add_assoc]
      rw [Nat.forall_lt_succ_left, Nat.zero_mul, Nat.add_zero, batchLoop]
      simp only [hnext]
      cases hmap : mmap offset batchLen with
      | none => simp
      | some filePtr =>
          simp only [Option.isSome_some, true_and]
          exact ih (offset + batchLen) _

theorem offset_of_batchLoop {batchCount offset : Nat} {crc32 : UInt32} {result : Nat × UInt32}
    (h : batchLoop mmap batchLen batchCount offset crc32 = some result) :
    result.1 = offset + batchCount * batchLen := by
  induction batchCount generalizing offset crc32 with
  | zero =>
      obtain rfl : (offset, crc32) = result := by simpa [batchLoop] using h
      simp
  | succ batchCount ih =>
      obtain ⟨filePtr, -, hrest⟩ := Option.bind_eq_some_iff.mp h
      rw [ih hrest, Nat.succ_mul, Nat.add_comm (batchCount * batchLen), Nat.add_assoc]

/-- The program gets to a value when all its mappings succeed, and only then. -/
theorem crcOfFile_isSome_iff (hbatch : 0 < batchLen) (size : Nat) :
    (crcOfFile mmap size batchLen).isSome ↔
      ∀ call ∈ mmapCalls size batchLen, (mmap call.1 call.2).isSome := by
  have hremainder : size - size / batchLen * batchLen = size % batchLen := by
    have := Nat.div_add_mod' size batchLen
    omega
  have hcalls : (∀ call ∈ mmapCalls size batchLen, (mmap call.1 call.2).isSome) ↔
      (batchLoop mmap batchLen (size / batchLen) 0 0xFFFFFFFF).isSome ∧
        (mmap (size / batchLen * batchLen) (size % batchLen)).isSome := by
    simp only [mmapCalls, List.forall_mem_append, List.forall_mem_map, List.mem_range,
      List.mem_singleton, forall_eq, batchLoop_isSome_iff, Nat.zero_add]
  rw [hcalls]
  cases hloop : batchLoop mmap batchLen (size / batchLen) 0 0xFFFFFFFF with
  | none =>
      simp only [crcOfFile, if_neg (Nat.ne_of_gt hbatch), hloop]
      simp
  | some result =>
      have hoffset := offset_of_batchLoop hloop
      rw [Nat.zero_add] at hoffset
      simp only [crcOfFile, if_neg (Nat.ne_of_gt hbatch), hloop, Option.isSome_some, true_and,
        ← hremainder, ← hoffset]
      show ((mmap _ _).bind _).isSome ↔ _
      cases hmap : mmap result.1 (size - result.1) with
      | none => simp
      | some filePtr => simp

theorem eq_referenceCrc32_of_crcOfFile (hmaps : Maps mmap file) {crc32 : UInt32}
    (h : crcOfFile mmap file.length batchLen = some crc32) : crc32 = referenceCrc32 file := by
  have hle : file.length / batchLen * batchLen ≤ file.length := Nat.div_mul_le_self _ _
  rw [crcOfFile, Option.ite_none_left_eq_some] at h
  obtain ⟨⟨offset, crc⟩, hloop, hrest⟩ := Option.bind_eq_some_iff.mp h.2
  obtain ⟨filePtr, hmap, hlast⟩ := Option.bind_eq_some_iff.mp hrest
  have hbatches := batchLoop_eq_some hmaps (by omega) hloop
  rw [Nat.zero_add, List.drop_zero, Prod.mk.injEq] at hbatches
  obtain ⟨rfl, rfl⟩ := hbatches
  have hcrc : crc32 = byteLoop filePtr 0 (file.length - file.length / batchLen * batchLen)
      ((file.take (file.length / batchLen * batchLen)).foldl crcStep 0xFFFFFFFF) ^^^
        0xFFFFFFFF := (Option.some.inj hlast).symm
  rw [hcrc, byteLoop_of_maps hmaps (by omega) hmap, ← List.foldl_append, ← List.length_drop,
    List.take_length, List.take_append_drop, foldl_crcStep_eq]

theorem crcOfFile_of_mapped (hmaps : Maps mmap file) (hbatch : 0 < batchLen)
    (h : ∀ call ∈ mmapCalls file.length batchLen, (mmap call.1 call.2).isSome) :
    crcOfFile mmap file.length batchLen = some (referenceCrc32 file) := by
  obtain ⟨crc32, hcrc⟩ := Option.isSome_iff_exists.mp ((crcOfFile_isSome_iff hbatch _).mpr h)
  rw [hcrc, eq_referenceCrc32_of_crcOfFile hmaps hcrc]

/-- The program computes the CRC-32 of the file: it gets to a value when its
mappings succeed, and it never gets to another one. -/
theorem crcOfFile_eq_referenceCrc32 (mmap : Nat → Nat → Option (List UInt8)) (file : List UInt8)
    (batchLen : Nat) (hmaps : Maps mmap file) (hbatch : 0 < batchLen) :
    ((∀ call ∈ mmapCalls file.length batchLen, (mmap call.1 call.2).isSome) →
      crcOfFile mmap file.length batchLen = some (referenceCrc32 file)) ∧
    ∀ crc32, crcOfFile mmap file.length batchLen = some crc32 →
      crc32 = referenceCrc32 file :=
  ⟨crcOfFile_of_mapped hmaps hbatch, fun _ => eq_referenceCrc32_of_crcOfFile hmaps⟩

theorem crcOfFile_eq_referenceCrc32_sample :
    crcOfFile (fun offset length => some (([0xD0, 0x96, 0x41].drop offset).take length)) 3 2 =
      some (referenceCrc32 [0xD0, 0x96, 0x41]) :=
  (crcOfFile_eq_referenceCrc32 _ [0xD0, 0x96, 0x41] 2
    (by intro offset length bytes _ hbytes; exact (Option.some.inj hbytes).symm)
    (by decide)).1 (by intro call _; rfl)

theorem lt_of_two_pow_le_batchSize {k : Nat} (hk : 2 ^ k ≤ batchSize) : k < 30 := by
  by_contra hlarge
  have hpow : 2 ^ 30 ≤ 2 ^ k := Nat.pow_le_pow_right Nat.two_pos (Nat.not_lt.mp hlarge)
  simp only [batchSize] at hk
  omega

/-- Rounding the batch size down to whole pages leaves at least half a GiB. -/
theorem le_batchLenOfPage {k : Nat} (hk : 2 ^ k ≤ batchSize) :
    2 ^ 29 ≤ (batchLenOfPage (UInt64.ofNat (2 ^ k))).toNat := by
  have hall : ∀ k < 30, 2 ^ 29 ≤ (batchLenOfPage (UInt64.ofNat (2 ^ k))).toNat := by decide
  exact hall k (lt_of_two_pow_le_batchSize hk)

theorem batchLenOfPage_pos {k : Nat} (hk : 2 ^ k ≤ batchSize) :
    0 < (batchLenOfPage (UInt64.ofNat (2 ^ k))).toNat :=
  Nat.lt_of_lt_of_le (by decide) (le_batchLenOfPage hk)

theorem main_of_mapped (hmaps : Maps mmap file) {k : Nat} (hk : 2 ^ k ≤ batchSize)
    (hcalls : ∀ call ∈ mmapCalls file.length (batchLenOfPage (UInt64.ofNat (2 ^ k))).toNat,
      (mmap call.1 call.2).isSome) :
    main mmap (UInt64.ofNat (2 ^ k)) file.length = some (referenceCrc32 file) :=
  crcOfFile_of_mapped hmaps (batchLenOfPage_pos hk) hcalls

end Maps

end CHomework.Crc32
