import CHomework.ZipJpeg.Walk

/-!
The walk over the records ends, whatever memory holds behind the buffer.
-/

namespace CHomework.ZipJpeg

open CHomework.Buffer
open CHomework.LittleEndian

/-- `get_zip_recod`, where `data` is what memory holds from the start of the buffer
on, inside it and behind it. -/
def getZipRecodIn (data : Nat → UInt8) (recordOffset : UInt64) : ZipRecord :=
  let start := (List.range startZipSig.bytes.length).map fun i => data (recordOffset.toNat + i)
  if start ≠ startZipSig.bytes then { filename := none, recordLen := 0 }
  else
    let currentOffset := recordOffset + 18
    let compressSize := word32 (data currentOffset.toNat) (data (currentOffset + 1).toNat)
      (data (currentOffset + 2).toNat) (data (currentOffset + 3).toNat)
    let currentOffset := currentOffset + 8
    let nameLen := word16 (data currentOffset.toNat) (data (currentOffset + 1).toNat)
    let currentOffset := currentOffset + 2
    let extaDataLen := word16 (data currentOffset.toNat) (data (currentOffset + 1).toNat)
    let currentOffset := currentOffset + 2
    let filename := (List.range nameLen.toNat).map fun i => data (currentOffset.toNat + i)
    let recordLen := 18 + 8 + 2 + 2 + nameLen.toUInt64 + extaDataLen.toUInt64 +
      compressSize.toUInt64
    { filename := some (filename ++ [0]), recordLen := recordLen }

/-- The rounds of the loop of `main`, and what they print. -/
structure RecordWalk where
  iterations : Nat
  names : List (List UInt8)
  deriving DecidableEq

/-- The loop of `main` over the records, with a bound on its rounds. What memory
holds may change from round to round. -/
def recordLoopIn (data : Nat → Nat → UInt8) (size : UInt32) : Nat → UInt64 → Option RecordWalk
  | 0, _ => none
  | rounds + 1, currentOffset =>
      if currentOffset < size.toUInt64 then
        let currentRecord := getZipRecodIn (data rounds) currentOffset
        match currentRecord.filename with
        | none => some { iterations := 1, names := [] }
        | some filename => do
            let walk ← recordLoopIn data size rounds (currentOffset + currentRecord.recordLen)
            return { iterations := walk.iterations + 1, names := printed filename :: walk.names }
      else some { iterations := 0, names := [] }

/-- The length of a record by the three sizes in its header, as a number. -/
def recordLengthIn (data : Nat → UInt8) (o : UInt64) : Nat :=
  30 + (word16 (data (o + 26).toNat) (data (o + 27).toNat)).toNat +
    (word16 (data (o + 28).toNat) (data (o + 29).toNat)).toNat +
    (word32 (data (o + 18).toNat) (data (o + 19).toNat) (data (o + 20).toNat)
      (data (o + 21).toNat)).toNat

theorem thirty_le_recordLengthIn (data : Nat → UInt8) (o : UInt64) :
    30 ≤ recordLengthIn data o := by
  simp only [recordLengthIn]
  omega

theorem recordLengthIn_lt (data : Nat → UInt8) (o : UInt64) :
    recordLengthIn data o < 2 ^ 33 := by
  have hname := (word16 (data (o + 26).toNat) (data (o + 27).toNat)).toNat_lt
  have hextra := (word16 (data (o + 28).toNat) (data (o + 29).toNat)).toNat_lt
  have hsize := (word32 (data (o + 18).toNat) (data (o + 19).toNat) (data (o + 20).toNat)
    (data (o + 21).toNat)).toNat_lt
  simp only [recordLengthIn]
  omega

/-- A record with a name is as long as its header says, and nothing is lost to an
overflow. -/
theorem recordLen_getZipRecodIn {data : Nat → UInt8} {o : UInt64} {name : List UInt8}
    (h : (getZipRecodIn data o).filename = some name) :
    (getZipRecodIn data o).recordLen.toNat = recordLengthIn data o := by
  have hlt := recordLengthIn_lt data o
  have hlen : (getZipRecodIn data o).recordLen = UInt64.ofNat (recordLengthIn data o) := by
    rw [getZipRecodIn] at h ⊢
    dsimp only at h ⊢
    split at h
    · cases h
    · rename_i hsig
      rw [if_neg hsig]
      dsimp only
      rw [sum_recordLen]
      simp only [UInt64.add_assoc]
      rfl
  rw [hlen, UInt64.toNat_ofNat']
  omega

theorem toNat_add_recordLen {data : Nat → UInt8} {size : UInt32} {o : UInt64}
    {name : List UInt8} (ho : o < size.toUInt64)
    (h : (getZipRecodIn data o).filename = some name) :
    (o + (getZipRecodIn data o).recordLen).toNat = o.toNat + recordLengthIn data o := by
  have hsize := size.toNat_lt
  have hlt := recordLengthIn_lt data o
  rw [UInt64.lt_iff_toNat_lt, UInt32.toNat_toUInt64] at ho
  rw [UInt64.toNat_add, recordLen_getZipRecodIn h]
  omega

/-- Every round that goes on takes at least 30 bytes off what is left. -/
theorem recordLoopIn_eq_some (data : Nat → Nat → UInt8) (size : UInt32) (rounds : Nat)
    (o : UInt64) (hrounds : size.toNat ≤ o.toNat + 30 * rounds) :
    ∃ walk, recordLoopIn data size (rounds + 1) o = some walk ∧ walk.iterations ≤ rounds := by
  induction rounds generalizing o with
  | zero =>
      refine ⟨{ iterations := 0, names := [] }, ?_, Nat.le_refl 0⟩
      rw [recordLoopIn, if_neg]
      rw [UInt64.lt_iff_toNat_lt, UInt32.toNat_toUInt64]
      omega
  | succ rounds ih =>
      rw [recordLoopIn]
      split
      · rename_i hlt
        rcases hname : (getZipRecodIn (data (rounds + 1)) o).filename with _ | name
        · exact ⟨{ iterations := 1, names := [] }, by simp only [hname],
            Nat.succ_le_succ (Nat.zero_le _)⟩
        · have hnext := toNat_add_recordLen hlt hname
          have hlen := thirty_le_recordLengthIn (data (rounds + 1)) o
          obtain ⟨walk, hwalk, hle⟩ :=
            ih (o + (getZipRecodIn (data (rounds + 1)) o).recordLen) (by omega)
          refine ⟨{ iterations := walk.iterations + 1, names := printed name :: walk.names },
            ?_, Nat.succ_le_succ hle⟩
          simp only [hname, hwalk]
          rfl
      · exact ⟨_, rfl, Nat.zero_le _⟩

/-- Every iteration that does not break moves the offset by the length of the
record, at least 30 and less than `2 ^ 33`, without an overflow, and the loop stops
after at most `size / 30 + 1` iterations. -/
theorem recordLoopIn_ends (data : Nat → Nat → UInt8) (size : UInt32) (start : UInt64) :
    (∀ round o name, o < size.toUInt64 →
      (getZipRecodIn (data round) o).filename = some name →
        (getZipRecodIn (data round) o).recordLen.toNat = recordLengthIn (data round) o ∧
        30 ≤ (getZipRecodIn (data round) o).recordLen.toNat ∧
        (getZipRecodIn (data round) o).recordLen.toNat < 2 ^ 33 ∧
        (o + (getZipRecodIn (data round) o).recordLen).toNat =
          o.toNat + (getZipRecodIn (data round) o).recordLen.toNat) ∧
    ∃ walk, recordLoopIn data size (size.toNat / 30 + 2) start = some walk ∧
      walk.iterations ≤ size.toNat / 30 + 1 := by
  constructor
  · intro round o name ho hname
    have hlen := recordLen_getZipRecodIn hname
    rw [toNat_add_recordLen ho hname, hlen]
    exact ⟨rfl, thirty_le_recordLengthIn _ _, recordLengthIn_lt _ _, rfl⟩
  · apply recordLoopIn_eq_some
    omega

/-- Memory holds the buffer at its start. -/
def Holds (data : Nat → UInt8) (block : List UInt8) : Prop :=
  ∀ i b, block[i]? = some b → data i = b

theorem map_range_of_holds {data : Nat → UInt8} {block : List UInt8} (h : Holds data block)
    {o n : Nat} (hroom : o + n ≤ block.length) :
    (List.range n).map (fun i => data (o + i)) = (block.drop o).take n := by
  apply List.ext_getElem
  · simp
    omega
  · intro i hi _
    have hlt : o + i < block.length := by
      simp at hi
      omega
    rw [List.getElem_map, List.getElem_range, List.getElem_take, List.getElem_drop]
    exact h _ _ (List.getElem?_eq_getElem hlt)

section Loaded

variable {reads : Reads} {f : FileInfo} {content : List UInt8} {data : Nat → UInt8}

/-- The terminator tells a signature from one that is cut off. -/
theorem map_range_eq_signature_iff (h : Holds data (content ++ [0])) (sig : Signature) {o : Nat}
    (ho : o ≤ content.length) :
    (List.range sig.bytes.length).map (fun i => data (o + i)) = sig.bytes ↔
      sig.bytes <+: content.drop o := by
  rcases Nat.lt_or_ge content.length (o + sig.bytes.length) with hcut | hroom
  · constructor
    · intro hmap
      refine absurd ?_ sig.noNul
      rw [← hmap, List.mem_map]
      refine ⟨content.length - o, List.mem_range.mpr (by omega), ?_⟩
      rw [Nat.add_sub_cancel' ho]
      exact h _ _ (by simp)
    · intro hprefix
      have := Signature.add_length_le hprefix
      omega
  · rw [map_range_of_holds h (by simp; omega), ← prefix_drop_append_zero_iff,
      List.prefix_iff_eq_take, eq_comm]

theorem eq_of_load (h : Holds data f.data) {i : Nat} {b : UInt8} (hb : load f.data i = some b) :
    data i = b :=
  h i b hb

theorem map_range_of_loadRange (h : Holds data f.data) {i n : Nat} {bytes : List UInt8}
    (hbytes : loadRange f.data i n = some bytes) :
    (List.range n).map (fun j => data (i + j)) = bytes := by
  have hsome := Option.isSome_of_eq_some hbytes
  rcases loadRange_isSome_iff.mp hsome with rfl | hroom
  · simpa [loadRange] using hbytes
  · rw [loadRange_of_isSome hsome, Option.some.injEq] at hbytes
    rw [map_range_of_holds h hroom, hbytes]

/-- Where the checked function returns, it returns what the unchecked one reads. -/
theorem getZipRecodIn_eq (hf : f.Loaded content) (h : Holds data f.data) {o : UInt64}
    (ho : o.toNat ≤ content.length) {r : ZipRecord} (hr : getZipRecod reads f o = some r) :
    getZipRecodIn data o = r := by
  have hsig : (List.range startZipSig.bytes.length).map (fun i => data (o.toNat + i)) =
      startZipSig.bytes ↔ memcmp reads f.data o.toNat startZipSig.bytes = some 0 := by
    rw [hf.data_eq, memcmp_eq_zero_iff]
    exact map_range_eq_signature_iff (hf.data_eq ▸ h) startZipSig ho
  obtain ⟨start, hstart, hr⟩ := Option.bind_eq_some_iff.mp hr
  rw [hstart, Option.some.injEq] at hsig
  rw [getZipRecodIn]
  dsimp only
  split at hr
  · rename_i hne
    rw [if_pos (mt hsig.mp hne)]
    exact Option.some.inj hr
  · rename_i heq
    rw [if_neg (not_not.mpr (hsig.mpr (not_not.mp heq)))]
    obtain ⟨b0, hb0, hr⟩ := Option.bind_eq_some_iff.mp hr
    obtain ⟨b1, hb1, hr⟩ := Option.bind_eq_some_iff.mp hr
    obtain ⟨b2, hb2, hr⟩ := Option.bind_eq_some_iff.mp hr
    obtain ⟨b3, hb3, hr⟩ := Option.bind_eq_some_iff.mp hr
    obtain ⟨n0, hn0, hr⟩ := Option.bind_eq_some_iff.mp hr
    obtain ⟨n1, hn1, hr⟩ := Option.bind_eq_some_iff.mp hr
    obtain ⟨e0, he0, hr⟩ := Option.bind_eq_some_iff.mp hr
    obtain ⟨e1, he1, hr⟩ := Option.bind_eq_some_iff.mp hr
    obtain ⟨filename, hfilename, hr⟩ := Option.bind_eq_some_iff.mp hr
    rw [eq_of_load h hb0, eq_of_load h hb1, eq_of_load h hb2, eq_of_load h hb3,
      eq_of_load h hn0, eq_of_load h hn1, eq_of_load h he0, eq_of_load h he1,
      map_range_of_loadRange h hfilename]
    exact Option.some.inj hr

/-- The loop of the reader on a loaded buffer is the loop over memory that holds
this buffer, as long as it does not leave it. -/
theorem recordLoopIn_eq (hf : f.Loaded content) {data : Nat → Nat → UInt8}
    (h : ∀ round, Holds (data round) f.data) {rounds : Nat} {o : UInt64}
    {names : List (List UInt8)} (hr : recordLoop reads f rounds o = some names) :
    ∃ walk, recordLoopIn data f.size rounds o = some walk ∧ walk.names = names := by
  induction rounds generalizing o names with
  | zero => cases hr
  | succ rounds ih =>
      rw [recordLoop] at hr
      rw [recordLoopIn]
      split at hr
      · rename_i hlt
        rw [if_pos hlt]
        have ho := (lt_size_iff hf).mp hlt
        obtain ⟨r, hrecod, hr⟩ := Option.bind_eq_some_iff.mp hr
        rw [getZipRecodIn_eq hf (h rounds) (Nat.le_of_lt ho) hrecod]
        rcases hname : r.filename with _ | filename
        · simp only [hname] at hr ⊢
          exact ⟨_, rfl, Option.some.inj hr⟩
        · simp only [hname] at hr ⊢
          obtain ⟨rest, hrest, hr⟩ := Option.bind_eq_some_iff.mp hr
          obtain ⟨walk, hwalk, hnames⟩ := ih hrest
          rw [hwalk]
          refine ⟨_, rfl, ?_⟩
          rw [hnames]
          exact Option.some.inj hr
      · rename_i hge
        rw [if_neg hge]
        exact ⟨_, rfl, Option.some.inj hr⟩

end Loaded

end CHomework.ZipJpeg
