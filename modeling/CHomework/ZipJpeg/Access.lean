import CHomework.ZipJpeg.Model

namespace CHomework.ZipJpeg

open CHomework.Buffer
open CHomework.LittleEndian

@[simp] theorem length_startJpegSig : startJpegSig.bytes.length = 2 := rfl

@[simp] theorem length_endJpegSig : endJpegSig.bytes.length = 2 := rfl

@[simp] theorem length_startZipSig : startZipSig.bytes.length = 4 := rfl

/-- The buffer holds this file content and a terminator. -/
structure FileInfo.Loaded (f : FileInfo) (content : List UInt8) : Prop where
  data_eq : f.data = content ++ [0]
  size_eq : f.size.toNat = content.length

def loaded (content : List UInt8) : FileInfo where
  data := content ++ [0]
  size := UInt32.ofNat content.length

theorem loaded_loaded {content : List UInt8} (h : content.length < 2 ^ 32) :
    (loaded content).Loaded content where
  data_eq := rfl
  size_eq := UInt32.toNat_ofNat_of_lt' h

/-- `load_file` cuts the content to the 32-bit size and stores the terminator
behind it, unless that size is negative as an `int`. -/
theorem loadFile_eq (stray : Nat → UInt8) (content : List UInt8) :
    loadFile stray content =
      if content.length % 2 ^ 32 < 2 ^ 31 then
        some (loaded (content.take (content.length % 2 ^ 32)))
      else none := by
  have hsize : (UInt32.ofNat content.length).toNat = content.length % 2 ^ 32 :=
    UInt32.toNat_ofNat'
  have hlength : (content.take (content.length % 2 ^ 32)).length =
      content.length % 2 ^ 32 := by
    rw [List.length_take]
    exact Nat.min_eq_left (Nat.mod_le _ _)
  simp only [loadFile, hsize]
  by_cases h : content.length % 2 ^ 32 < 2 ^ 31
  · have hmalloc : (UInt32.ofNat content.length + 1).toNat =
        (content.take (content.length % 2 ^ 32)).length + 1 := by
      rw [UInt32.toNat_add, hsize, hlength]
      exact Nat.mod_eq_of_lt (by simp; omega)
    have hcount : (Int32.ofNat (content.length % 2 ^ 32)).toInt =
        (content.take (content.length % 2 ^ 32)).length := by
      rw [Int32.toInt_ofNat_of_lt h, hlength]
    have hreload : UInt32.ofNat (content.take (content.length % 2 ^ 32)).length =
        UInt32.ofNat content.length := by
      rw [hlength]
      exact UInt32.toNat_inj.mp (by simp)
    rw [if_pos h, hmalloc, storeRange_malloc_succ, hcount]
    show (store (_ ++ [_]) _ 0).bind _ = _
    rw [store_length]
    show some _ = some _
    rw [loaded, hreload]
  · have hneg : (Int32.ofNat (content.length % 2 ^ 32)).toInt < 0 := by
      rw [Int32.toInt_ofNat', Int.bmod_def]
      have := Nat.mod_lt content.length (Nat.two_pow_pos 32)
      simp only [Int32.size]
      omega
    have hstore : ∀ data : List UInt8,
        store data (Int32.ofNat (content.length % 2 ^ 32)).toInt 0 = none := by
      intro data
      rw [store, if_neg]
      omega
    rw [if_neg h]
    cases storeRange (malloc stray (UInt32.ofNat content.length + 1).toNat)
        (content.take (content.length % 2 ^ 32)) with
    | none => rfl
    | some data =>
        show (store data _ 0).bind _ = none
        rw [hstore]
        rfl

def byteAt (content : List UInt8) (i : Nat) : UInt8 := content.getD i 0

def nameLen (content : List UInt8) (o : Nat) : Nat :=
  ofBytes [byteAt content (o + 26), byteAt content (o + 27)]

def extraLen (content : List UInt8) (o : Nat) : Nat :=
  ofBytes [byteAt content (o + 28), byteAt content (o + 29)]

def compressedSize (content : List UInt8) (o : Nat) : Nat :=
  ofBytes [byteAt content (o + 18), byteAt content (o + 19), byteAt content (o + 20),
    byteAt content (o + 21)]

def recordLength (content : List UInt8) (o : Nat) : Nat :=
  30 + nameLen content o + extraLen content o + compressedSize content o

theorem nameLen_lt (content : List UInt8) (o : Nat) : nameLen content o < 2 ^ 16 := by
  have hlt : nameLen content o < 256 ^ 2 := ofBytes_lt _
  omega

theorem extraLen_lt (content : List UInt8) (o : Nat) : extraLen content o < 2 ^ 16 := by
  have hlt : extraLen content o < 256 ^ 2 := ofBytes_lt _
  omega

theorem compressedSize_lt (content : List UInt8) (o : Nat) :
    compressedSize content o < 2 ^ 32 := by
  have hlt : compressedSize content o < 256 ^ 4 := ofBytes_lt _
  omega

theorem recordLength_lt (content : List UInt8) (o : Nat) :
    recordLength content o < 2 ^ 33 := by
  have := nameLen_lt content o
  have := extraLen_lt content o
  have := compressedSize_lt content o
  simp only [recordLength]
  omega

theorem thirty_le_recordLength (content : List UInt8) (o : Nat) :
    30 ≤ recordLength content o := by
  simp only [recordLength]
  omega

/-- The accesses of `get_zip_recod` at offset `o` stay inside the buffer: the
signature, and behind a signature the header and a name that is not empty. -/
def RecordInRange (reads : Reads) (content : List UInt8) (o : Nat) : Prop :=
  reads.InRange content.length o 4 ∧
    (startZipSig.bytes <+: content.drop o →
      o + 30 ≤ content.length + 1 ∧
        (nameLen content o = 0 ∨ o + 30 + nameLen content o ≤ content.length + 1))

/-- An image with nothing behind it, as its first and last bytes tell. -/
def PureJpeg (content : List UInt8) : Prop :=
  startJpegSig.bytes <+: content ∧ endJpegSig.bytes <:+ content

instance (content : List UInt8) : Decidable (PureJpeg content) :=
  inferInstanceAs (Decidable (_ ∧ _))

theorem prefix_drop_iff_suffix {pattern content : List UInt8}
    (h : pattern.length ≤ content.length) :
    pattern <+: content.drop (content.length - pattern.length) ↔ pattern <:+ content := by
  rw [List.suffix_iff_eq_drop]
  constructor
  · intro hprefix
    apply hprefix.eq_of_length
    rw [List.length_drop]
    omega
  · intro heq
    exact heq ▸ List.prefix_rfl

theorem toNat_header_offsets {o : UInt64} (ho : o.toNat < 2 ^ 63) :
    (o + 18).toNat = o.toNat + 18 ∧ (o + 18 + 1).toNat = o.toNat + 19 ∧
      (o + 18 + 2).toNat = o.toNat + 20 ∧ (o + 18 + 3).toNat = o.toNat + 21 ∧
      (o + 18 + 8).toNat = o.toNat + 26 ∧ (o + 18 + 8 + 1).toNat = o.toNat + 27 ∧
      (o + 18 + 8 + 2).toNat = o.toNat + 28 ∧ (o + 18 + 8 + 2 + 1).toNat = o.toNat + 29 ∧
      (o + 18 + 8 + 2 + 2).toNat = o.toNat + 30 := by
  simp only [UInt64.toNat_add, UInt64.reduceToNat]
  omega

theorem sum_recordLen (n e : UInt16) (c : UInt32) :
    18 + 8 + 2 + 2 + n.toUInt64 + e.toUInt64 + c.toUInt64 =
      UInt64.ofNat (30 + n.toNat + e.toNat + c.toNat) := by
  have := n.toNat_lt
  have := e.toNat_lt
  have := c.toNat_lt
  apply UInt64.toNat_inj.mp
  simp only [UInt64.toNat_add, UInt64.reduceToNat, UInt16.toNat_toUInt64,
    UInt32.toNat_toUInt64, UInt64.toNat_ofNat']
  omega

section Loaded

variable {reads : Reads} {f : FileInfo} {content : List UInt8}

theorem hasFileZipPart_eq (hf : f.Loaded content) :
    hasFileZipPart reads f =
      if 2 ≤ content.length then some (decide ¬ PureJpeg content) else none := by
  have hlt := f.size.toNat_lt
  rw [hf.size_eq] at hlt
  have hindex : (f.size - 2).toNat = (2 ^ 32 - 2 + content.length) % 2 ^ 32 := by
    rw [UInt32.toNat_sub, hf.size_eq]
    rfl
  simp only [hasFileZipPart, hf.data_eq]
  split
  · rename_i htwo
    have hindex : (f.size - 2).toNat = content.length - 2 := by omega
    have hstart : reads.InRange content.length 0 startJpegSig.bytes.length :=
      Reads.inRange_of_le (by simp) (by simp; omega)
    have hend : reads.InRange content.length (content.length - 2) endJpegSig.bytes.length :=
      Reads.inRange_of_le (by simp) (by simp; omega)
    rcases memcmp_of_inRange startJpegSig hstart with ⟨c, hc, hczero⟩
    rcases memcmp_of_inRange endJpegSig hend with ⟨d, hd, hdzero⟩
    have hsuffix : d = 0 ↔ endJpegSig.bytes <:+ content :=
      hdzero.trans (prefix_drop_iff_suffix htwo)
    have hpure : (c = 0 ∧ d = 0) ↔ PureJpeg content := by
      rw [hczero, hsuffix, List.drop_zero, PureJpeg]
    rw [hindex, hc, hd]
    show (if c = 0 ∧ d = 0 then some false else some true) = _
    by_cases h : PureJpeg content
    · rw [if_pos (hpure.mpr h)]
      simp [h]
    · rw [if_neg (mt hpure.mp h)]
      simp [h]
  · rename_i htwo
    have hend : ¬ reads.InRange content.length (f.size - 2).toNat endJpegSig.bytes.length := by
      cases reads with
      | whole =>
          show ¬ (f.size - 2).toNat + 2 ≤ content.length + 1
          omega
      | untilDifference =>
          show ¬ (f.size - 2).toNat ≤ content.length
          omega
    rw [memcmp_of_not_inRange endJpegSig hend]
    cases memcmp reads (content ++ [0]) 0 startJpegSig.bytes <;> rfl

theorem getZipRecod_of_not_inRange (hf : f.Loaded content) {o : UInt64}
    (h : ¬ reads.InRange content.length o.toNat 4) : getZipRecod reads f o = none := by
  rw [getZipRecod, hf.data_eq, memcmp_of_not_inRange startZipSig h]
  rfl

theorem getZipRecod_of_not_signature (hf : f.Loaded content) {o : UInt64}
    (h : reads.InRange content.length o.toNat 4)
    (hsig : ¬ startZipSig.bytes <+: content.drop o.toNat) :
    getZipRecod reads f o = some { filename := none, recordLen := 0 } := by
  rcases memcmp_of_inRange startZipSig h with ⟨d, hd, hzero⟩
  rw [getZipRecod, hf.data_eq, hd]
  show (if d ≠ 0 then some _ else _) = _
  rw [if_pos (mt hzero.mp hsig)]

theorem getZipRecod_of_signature (hf : f.Loaded content) {o : UInt64}
    (ho : o.toNat < 2 ^ 63) (hsig : startZipSig.bytes <+: content.drop o.toNat) :
    getZipRecod reads f o =
      if o.toNat + 30 ≤ content.length + 1 then
        (loadRange (content ++ [0]) (o.toNat + 30) (nameLen content o.toNat)).map fun name =>
          { filename := some (name ++ [0])
            recordLen := UInt64.ofNat (recordLength content o.toNat) }
      else none := by
  rcases toNat_header_offsets ho with ⟨h18, h19, h20, h21, h26, h27, h28, h29, h30⟩
  have hmatch : memcmp reads (content ++ [0]) o.toNat startZipSig.bytes = some 0 :=
    (memcmp_eq_zero_iff startZipSig).mpr hsig
  simp only [getZipRecod, hf.data_eq, hmatch, h18, h19, h20, h21, h26, h27, h28, h29, h30]
  split
  · rename_i hle
    rw [load_append_zero (by omega), load_append_zero (by omega), load_append_zero (by omega),
      load_append_zero (by omega), load_append_zero (by omega), load_append_zero (by omega),
      load_append_zero (by omega), load_append_zero (by omega)]
    show (loadRange _ _ (word16 (byteAt content (o.toNat + 26))
      (byteAt content (o.toNat + 27))).toNat).bind (fun filename => some _) = _
    rw [word16_toNat, sum_recordLen, word16_toNat, word16_toNat, word32_toNat,
      Option.map_eq_bind]
    rfl
  · rename_i hgt
    rw [load_append_zero_eq_none (by omega : content.length < o.toNat + 29)]
    simp

theorem getZipRecod_isSome_iff (hf : f.Loaded content) {o : UInt64} (ho : o.toNat < 2 ^ 63) :
    (getZipRecod reads f o).isSome ↔ RecordInRange reads content o.toNat := by
  by_cases hrange : reads.InRange content.length o.toNat 4
  · by_cases hsig : startZipSig.bytes <+: content.drop o.toNat
    · rw [getZipRecod_of_signature hf ho hsig]
      split
      · rename_i hle
        rw [Option.isSome_map, loadRange_isSome_iff, List.length_append]
        simp only [RecordInRange, hrange, hsig, hle, true_and, forall_const]
        rfl
      · rename_i hgt
        simp [RecordInRange, hsig, hgt]
    · rw [getZipRecod_of_not_signature hf hrange hsig]
      simp only [RecordInRange, hrange, hsig, false_implies, and_true, Option.isSome_some]
  · rw [getZipRecod_of_not_inRange hf hrange]
    simp [RecordInRange, hrange]

end Loaded

end CHomework.ZipJpeg
