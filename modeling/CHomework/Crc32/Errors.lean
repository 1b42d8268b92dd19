import Mathlib.Tactic.NormNum.Prime
import CHomework.Crc32.Mappings
import CHomework.Lib.CrcErrors

namespace CHomework.Crc32

open CHomework.Crc CHomework.LittleEndian CHomework.XorLinear

theorem toBitVec_referenceCrc32 (bytes : List UInt8) :
    (referenceCrc32 bytes).toBitVec = checksum 0xEDB88320#32 bytes := rfl

section Maps

variable {mmap mmap' mmap'' : Nat → Nat → Option (List UInt8)} {file file' : List UInt8}
  {pageSize pageSize' pageSize'' : UInt64} {crc32 crc32' crc32'' : UInt32}

/-- The value of a whole file is known from those of its parts. -/
theorem main_append (hmaps : Maps mmap file) (hmaps' : Maps mmap' file')
    (hmaps'' : Maps mmap'' (file ++ file')) (hcrc : main mmap pageSize file.length = some crc32)
    (hcrc' : main mmap' pageSize' file'.length = some crc32')
    (hcrc'' : main mmap'' pageSize'' (file ++ file').length = some crc32'') :
    crc32'' = crc32' ^^^
      UInt32.ofBitVec (shifts 0xEDB88320#32 (8 * file'.length) crc32.toBitVec) := by
  rw [eq_referenceCrc32_of_crcOfFile hmaps hcrc, eq_referenceCrc32_of_crcOfFile hmaps' hcrc',
    eq_referenceCrc32_of_crcOfFile hmaps'' hcrc'']
  apply UInt32.toBitVec_inj.mp
  rw [UInt32.toBitVec_xor, toBitVec_referenceCrc32, toBitVec_referenceCrc32, checksum_append]
  rfl

theorem main_append_sample :
    main (mapFile [0xD0]) 4096 1 = some 1422998873 ∧
      main (mapFile [0x96, 0x41]) 4096 2 = some 1729711717 ∧
      main (mapFile [0xD0, 0x96, 0x41]) 4096 3 = some 1409855672 ∧
      (1409855672 : UInt32) = 1729711717 ^^^
        UInt32.ofBitVec (shifts 0xEDB88320#32 (8 * 2) (1422998873 : UInt32).toBitVec) := by
  have hcrc : main (mapFile [0xD0]) 4096 1 = some 1422998873 := by decide +kernel
  have hcrc' : main (mapFile [0x96, 0x41]) 4096 2 = some 1729711717 := by decide +kernel
  have hcrc'' : main (mapFile [0xD0, 0x96, 0x41]) 4096 3 = some 1409855672 := by decide +kernel
  exact ⟨hcrc, hcrc', hcrc'',
    main_append (maps_mapFile _) (maps_mapFile _) (maps_mapFile _) hcrc hcrc' hcrc''⟩

/-- The value that is printed, with pages of `2 ^ k` bytes. -/
theorem main_printed_iff (hmaps : Maps mmap file) (hmmap : RefusesOnlyEmpty mmap) {k : Nat}
    (hk : 2 ^ k ≤ batchSize) :
    main mmap (UInt64.ofNat (2 ^ k)) file.length = some crc32 ↔
      ¬ (batchLenOfPage (UInt64.ofNat (2 ^ k))).toNat ∣ file.length ∧
        referenceCrc32 file = crc32 := by
  constructor
  · intro hcrc
    have hmapped := (crcOfFile_isSome_iff (batchLenOfPage_pos hk) file.length).mp
      (Option.isSome_of_eq_some hcrc)
    refine ⟨?_, (eq_referenceCrc32_of_crcOfFile hmaps hcrc).symm⟩
    exact (positive_mmapCalls_iff (batchLenOfPage_pos hk)).mp fun call hcall =>
      (hmmap call.1 call.2).mp (hmapped call hcall)
  · rintro ⟨hrest, rfl⟩
    have hpositive := (positive_mmapCalls_iff (batchLenOfPage_pos hk)).mpr hrest
    exact main_of_mapped hmaps hk fun call hcall =>
      (hmmap call.1 call.2).mpr (hpositive call hcall)

/-- For a file with four more bytes behind it the program prints the residue `2144df1c` exactly
if these are the value of the file, little-endian, and it gets to a value at all. -/
theorem main_eq_residue_iff (hmaps : Maps mmap file) {suffix : List UInt8}
    (hmaps' : Maps mmap' (file ++ suffix)) (hmmap' : RefusesOnlyEmpty mmap')
    (hsuffix : suffix.length = 4) {k : Nat} (hk : 2 ^ k ≤ batchSize)
    (hcrc : main mmap pageSize file.length = some crc32) :
    main mmap' (UInt64.ofNat (2 ^ k)) (file ++ suffix).length = some 0x2144DF1C ↔
      ¬ (batchLenOfPage (UInt64.ofNat (2 ^ k))).toNat ∣ file.length + 4 ∧
        suffix = toBytes 4 crc32.toNat := by
  have hresidue : (0x2144DF1C : UInt32).toBitVec = residue 0xEDB88320#32 := by
    decide +kernel
  rw [main_printed_iff hmaps' hmmap' hk, eq_referenceCrc32_of_crcOfFile hmaps hcrc,
    ← UInt32.toBitVec_inj, hresidue, toBitVec_referenceCrc32, List.length_append, hsuffix]
  exact and_congr_right fun _ => checksum_append_eq_residue_iff (by decide) rfl file hsuffix

theorem main_eq_residue_iff_sample :
    main (mapFile [0xD0, 0x96, 0x41]) 4096 3 = some 1409855672 ∧
      main (mapFile ([0xD0, 0x96, 0x41] ++ toBytes 4 (1409855672 : UInt32).toNat))
        (UInt64.ofNat (2 ^ 12)) 7 = some 0x2144DF1C := by
  have hcrc : main (mapFile [0xD0, 0x96, 0x41]) 4096 3 = some 1409855672 := by decide +kernel
  refine ⟨hcrc, (main_eq_residue_iff (maps_mapFile _) (maps_mapFile _) (refusesOnlyEmpty_mapFile _)
    rfl (by decide) hcrc).mpr ⟨?_, rfl⟩⟩
  decide +kernel

end Maps

/-- Anywhere in a file there are four bytes, and only these, with which the program prints a
wanted value. -/
theorem existsUnique_window_main {before after : List UInt8}
    {mmap : List UInt8 → Nat → Nat → Option (List UInt8)}
    (hmaps : ∀ window, Maps (mmap window) (before ++ (window ++ after)))
    (hmmap : ∀ window, RefusesOnlyEmpty (mmap window)) {k : Nat} (hk : 2 ^ k ≤ batchSize)
    (hrest : ¬ (batchLenOfPage (UInt64.ofNat (2 ^ k))).toNat ∣ before.length + (4 + after.length))
    (wanted : UInt32) :
    ∃! window : List UInt8, window.length = 4 ∧
      main (mmap window) (UInt64.ofNat (2 ^ k)) (before.length + (4 + after.length)) =
        some wanted := by
  have hiff : ∀ window : List UInt8, window.length = 4 ∧
      main (mmap window) (UInt64.ofNat (2 ^ k)) (before.length + (4 + after.length)) =
        some wanted ↔
      window.length = 4 ∧
        checksum 0xEDB88320#32 (before ++ (window ++ after)) = wanted.toBitVec := by
    intro window
    apply and_congr_right
    intro hwindow
    have hlength : before.length + (4 + after.length) = (before ++ (window ++ after)).length := by
      rw [List.length_append, List.length_append, hwindow]
    rw [hlength] at hrest ⊢
    rw [main_printed_iff (hmaps window) (hmmap window) hk, ← toBitVec_referenceCrc32,
      UInt32.toBitVec_inj]
    exact and_iff_right hrest
  simp only [hiff]
  have hpoly : (0xEDB88320#32).msb = true := by decide
  exact existsUnique_checksum hpoly rfl before after wanted.toBitVec

theorem existsUnique_window_main_sample :
    ∃! window : List UInt8, window.length = 4 ∧
      main (mapFile ([0xD0] ++ (window ++ [0x96, 0x41]))) (UInt64.ofNat (2 ^ 12)) 7 = some 0 := by
  have hrest : ¬ (batchLenOfPage (UInt64.ofNat (2 ^ 12))).toNat ∣
      ([0xD0] : List UInt8).length + (4 + ([0x96, 0x41] : List UInt8).length) := by decide +kernel
  exact existsUnique_window_main (fun _ => maps_mapFile _) (fun _ => refusesOnlyEmpty_mapFile _)
    (by decide) hrest 0

theorem iterate_shift_polynomial :
    shifts 0xEDB88320#32 (2 ^ 32 - 1) 0xEDB88320#32 = 0xEDB88320#32 ∧
      ∀ p ∈ [3, 5, 17, 257, 65537],
        shifts 0xEDB88320#32 ((2 ^ 32 - 1) / p) 0xEDB88320#32 ≠ 0xEDB88320#32 := by
  have hlt : ∀ p, (2 ^ 32 - 1) / p < 2 ^ 32 := by
    intro p
    exact Nat.lt_of_le_of_lt (Nat.div_le_self _ p) (by decide)
  simp only [shifts_eq_jump _ (hlt _), shifts_eq_jump _ (show 2 ^ 32 - 1 < 2 ^ 32 by decide)]
  decide +kernel

/-- Every register but 0 is passed before the polynomial comes back. -/
theorem minimalPeriod_polynomial :
    Function.minimalPeriod (shift 0xEDB88320#32) 0xEDB88320#32 = 2 ^ 32 - 1 := by
  apply minimalPeriod_eq_of_primes iterate_shift_polynomial.1
  intro p hp hdvd
  apply iterate_shift_polynomial.2
  have hfactors : 2 ^ 32 - 1 = 3 * 5 * 17 * 257 * 65537 := by norm_num
  rw [hfactors, hp.dvd_mul, hp.dvd_mul, hp.dvd_mul, hp.dvd_mul] at hdvd
  have heq : ∀ {q : Nat}, q.Prime → p ∣ q → p = q := fun hq h =>
    (Nat.prime_dvd_prime_iff_eq hp hq).mp h
  rcases hdvd with (((h | h) | h) | h) | h
  · simp [heq (by norm_num) h]
  · simp [heq (by norm_num) h]
  · simp [heq (by norm_num) h]
  · simp [heq (by norm_num) h]
  · simp [heq (by norm_num) h]

theorem bitsOf_eq_modify {bytes bytes' : List UInt8} (hlen : bytes.length = bytes'.length)
    {p q : Nat} (hpq : p ≠ q)
    (hbits : ∀ i < 8 * bytes.length, bit bytes i ≠ bit bytes' i ↔ i = p ∨ i = q) :
    bitsOf bytes' = ((bitsOf bytes).modify p not).modify q not := by
  apply List.ext_getElem?
  intro i
  rw [List.getElem?_modify, List.getElem?_modify, bitsOf, bitsOf, List.getElem?_map,
    List.getElem?_map, ← hlen]
  have hflipped : ∀ {a b : Bool}, a ≠ b → b = !a := by decide
  rcases Nat.lt_or_ge i (8 * bytes.length) with hi | hi
  · have hbit := hbits i hi
    rw [List.getElem?_range hi]
    rcases eq_or_ne i p with rfl | hp
    · simp [hpq.symm, hflipped (hbit.mpr (Or.inl rfl))]
    rcases eq_or_ne i q with rfl | hq
    · simp [hpq, hflipped (hbit.mpr (Or.inr rfl))]
    · have hsame : bit bytes i = bit bytes' i :=
        Classical.not_not.mp fun hne => (hbit.mp hne).elim hp hq
      simp [hp.symm, hq.symm, hsame]
  · simp [hi]

/-- The program sees two damaged bits exactly if their distance is not a multiple of
`2 ^ 32 - 1`. -/
theorem main_eq_iff_of_two_bits {file file' : List UInt8} (hlen : file.length = file'.length)
    {p q : Nat} (hpq : p < q) (hq : q < 8 * file.length)
    (hbits : ∀ i < 8 * file.length, bit file i ≠ bit file' i ↔ i = p ∨ i = q)
    {mmap mmap' : Nat → Nat → Option (List UInt8)} (hmaps : Maps mmap file)
    (hmaps' : Maps mmap' file') {pageSize pageSize' : UInt64} {crc32 crc32' : UInt32}
    (hcrc : main mmap pageSize file.length = some crc32)
    (hcrc' : main mmap' pageSize' file'.length = some crc32') :
    crc32' = crc32 ↔ 2 ^ 32 - 1 ∣ q - p := by
  have hpoly : (0xEDB88320#32).msb = true := by decide
  have hlength : q < (bitsOf file).length := by simpa [bitsOf] using hq
  have hregister : ∀ bytes : List UInt8, checksum 0xEDB88320#32 bytes =
      ~~~ (bitsOf bytes).foldl (bitStep 0xEDB88320#32) (BitVec.allOnes 32) := by
    intro bytes
    rw [← takeIn_eq_foldl_bitStep _ (by decide)]
    rfl
  rw [eq_referenceCrc32_of_crcOfFile hmaps hcrc, eq_referenceCrc32_of_crcOfFile hmaps' hcrc',
    ← UInt32.toBitVec_inj, toBitVec_referenceCrc32, toBitVec_referenceCrc32, hregister, hregister,
    BitVec.not_inj, bitsOf_eq_modify hlen hpq.ne hbits,
    foldl_bitStep_modify_modify_iff _ hpoly _ hpq hlength, ← minimalPeriod_polynomial]
  exact Function.isPeriodicPt_iff_minimalPeriod_dvd

theorem main_eq_iff_of_two_bits_sample :
    main (mapFile [0xD0, 0x96, 0x41]) 4096 3 = some 1409855672 ∧
      main (mapFile [0xD0, 0x97, 0x45]) 4096 3 = some 1249789408 ∧
      ((1249789408 : UInt32) = 1409855672 ↔ 2 ^ 32 - 1 ∣ 18 - 8) := by
  have hcrc : main (mapFile [0xD0, 0x96, 0x41]) 4096 3 = some 1409855672 := by decide +kernel
  have hcrc' : main (mapFile [0xD0, 0x97, 0x45]) 4096 3 = some 1249789408 := by decide +kernel
  have hbits : ∀ i < 8 * ([0xD0, 0x96, 0x41] : List UInt8).length,
      bit [0xD0, 0x96, 0x41] i ≠ bit [0xD0, 0x97, 0x45] i ↔ i = 8 ∨ i = 18 := by
    decide +kernel
  exact ⟨hcrc, hcrc', main_eq_iff_of_two_bits (by rfl) (by decide) (by decide) hbits
    (maps_mapFile _) (maps_mapFile _) hcrc hcrc'⟩

/-- A file below 512 MiB is no whole batch, and its bits are closer to each other than
`2 ^ 32 - 1`. So the program gets to a value with both bits damaged, and to another one. -/
theorem main_ne_of_two_bits {file file' : List UInt8} (hlen : file.length = file'.length)
    (hsize : file.length < 2 ^ 29) {p q : Nat} (hpq : p < q) (hq : q < 8 * file.length)
    (hbits : ∀ i < 8 * file.length, bit file i ≠ bit file' i ↔ i = p ∨ i = q)
    {mmap mmap' : Nat → Nat → Option (List UInt8)} (hmaps : Maps mmap file)
    (hmaps' : Maps mmap' file') (hmmap : RefusesOnlyEmpty mmap)
    (hmmap' : RefusesOnlyEmpty mmap') {k k' : Nat} (hk : 2 ^ k ≤ batchSize)
    (hk' : 2 ^ k' ≤ batchSize) :
    ∃ crc32 crc32', main mmap (UInt64.ofNat (2 ^ k)) file.length = some crc32 ∧
      main mmap' (UInt64.ofNat (2 ^ k')) file'.length = some crc32' ∧ crc32' ≠ crc32 := by
  have hrest : ∀ {k : Nat}, 2 ^ k ≤ batchSize →
      ¬ (batchLenOfPage (UInt64.ofNat (2 ^ k))).toNat ∣ file.length := by
    intro k hk hdvd
    have hle := Nat.le_of_dvd (by omega) hdvd
    have hbatch := le_batchLenOfPage hk
    omega
  have hcrc := (main_printed_iff hmaps hmmap hk).mpr ⟨hrest hk, rfl⟩
  have hcrc' := (main_printed_iff hmaps' hmmap' hk').mpr ⟨hlen ▸ hrest hk', rfl⟩
  refine ⟨_, _, hcrc, hcrc', fun heq => ?_⟩
  have hdvd := (main_eq_iff_of_two_bits hlen hpq hq hbits hmaps hmaps' hcrc hcrc').mp heq
  have hle := Nat.le_of_dvd (by omega) hdvd
  omega

end CHomework.Crc32
