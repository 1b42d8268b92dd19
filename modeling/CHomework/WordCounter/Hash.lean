import CHomework.Lib.OneAtATime
import CHomework.WordCounter.Model

namespace CHomework.WordCounter

open CHomework.CString

/-- One round of the cited function, whose bytes are unsigned. -/
def oneAtATimeStep (hash : UInt32) (byte : UInt8) : UInt32 :=
  let hash := hash + byte.toUInt32
  let hash := hash + (hash <<< 10)
  hash ^^^ (hash >>> 6)

/-- The cited function. -/
def oneAtATime (bytes : List UInt8) : UInt32 :=
  let hash := bytes.foldl oneAtATimeStep 0
  let hash := hash + (hash <<< 3)
  let hash := hash ^^^ (hash >>> 11)
  hash + (hash <<< 15)

def signedWord (byte : UInt8) : BitVec 32 := byte.toBitVec.signExtend 32

def unsignedWord (byte : UInt8) : BitVec 32 := byte.toBitVec.setWidth 32

theorem toBitVec_foldl {round : UInt32 → UInt8 → UInt32} {word : UInt8 → BitVec 32}
    (hround : ∀ h b, (round h b).toBitVec = OneAtATime.step h.toBitVec (word b))
    (bytes : List UInt8) (h : UInt32) :
    (bytes.foldl round h).toBitVec = (bytes.map word).foldl OneAtATime.step h.toBitVec := by
  induction bytes generalizing h with
  | nil => rfl
  | cons b bytes ih => rw [List.foldl_cons, ih, hround, List.map_cons, List.foldl_cons]

theorem toBitVec_hashStep (h : UInt32) (b : UInt8) :
    (hashStep h b).toBitVec = OneAtATime.step h.toBitVec (signedWord b) :=
  rfl

theorem toBitVec_oneAtATimeStep (h : UInt32) (b : UInt8) :
    (oneAtATimeStep h b).toBitVec = OneAtATime.step h.toBitVec (unsignedWord b) :=
  rfl

theorem toBitVec_hash (val : CStr) :
    (hash val).toBitVec = OneAtATime.hash (val.bytes.map signedWord) := by
  show OneAtATime.finish (val.bytes.foldl hashStep 0).toBitVec = _
  rw [toBitVec_foldl toBitVec_hashStep]
  rfl

theorem toBitVec_oneAtATime (bytes : List UInt8) :
    (oneAtATime bytes).toBitVec = OneAtATime.hash (bytes.map unsignedWord) := by
  show OneAtATime.finish (bytes.foldl oneAtATimeStep 0).toBitVec = _
  rw [toBitVec_foldl toBitVec_oneAtATimeStep]
  rfl

theorem signedWord_injective : Function.Injective signedWord := by
  intro a b h
  have htoInt : a.toBitVec.toInt = b.toBitVec.toInt := by
    have hext := congrArg BitVec.toInt h
    rwa [signedWord, signedWord, BitVec.toInt_signExtend_of_le (by decide),
      BitVec.toInt_signExtend_of_le (by decide)] at hext
  exact UInt8.toBitVec_inj.mp (BitVec.toInt_inj.mp htoInt)

theorem signedWord_of_lt {b : UInt8} (h : b < 0x80) : signedWord b = unsignedWord b := by
  apply BitVec.signExtend_eq_setWidth_of_msb_false
  rw [BitVec.msb_eq_decide, decide_eq_false_iff_not, Nat.not_le]
  exact UInt8.lt_iff_toNat_lt.mp h

/-- The sign extension of a byte with the top bit takes 256 off it. -/
theorem signedWord_of_le {b : UInt8} (h : 0x80 ≤ b) : signedWord b + 256 = unsignedWord b := by
  have hle : 128 ≤ b.toNat := UInt8.le_iff_toNat_le.mp h
  have hlt := b.toNat_lt
  have hmsb : b.toBitVec.msb = true := by
    rw [BitVec.msb_eq_decide]
    exact decide_eq_true hle
  have hsigned : (signedWord b).toNat = b.toNat + (2 ^ 32 - 2 ^ 8) := by
    rw [signedWord, BitVec.toNat_signExtend, BitVec.toNat_setWidth, hmsb, if_pos rfl,
      UInt8.toNat_toBitVec, Nat.mod_eq_of_lt (by omega)]
  have hunsigned : (unsignedWord b).toNat = b.toNat := by
    rw [unsignedWord, BitVec.toNat_setWidth, UInt8.toNat_toBitVec, Nat.mod_eq_of_lt (by omega)]
  apply BitVec.eq_of_toNat_eq
  rw [BitVec.toNat_add, hsigned, hunsigned]
  show (b.toNat + (2 ^ 32 - 2 ^ 8) + 256) % 2 ^ 32 = b.toNat
  omega

theorem map_signedWord_of_lt {bytes : List UInt8} (h : ∀ b ∈ bytes, b < 0x80) :
    bytes.map signedWord = bytes.map unsignedWord :=
  List.map_congr_left fun b hb => signedWord_of_lt (h b hb)

/-- The bytes up to the last one with the top bit decide: the registers in front of
that byte must differ by just as much as its sign extension takes off it. -/
theorem hash_eq_oneAtATime_iff_of_last {val : CStr} {before after : List UInt8} {b : UInt8}
    (hval : val.bytes = before ++ b :: after) (hb : 0x80 ≤ b) (hafter : ∀ c ∈ after, c < 0x80) :
    hash val = oneAtATime val.bytes ↔
      before.foldl hashStep 0 = before.foldl oneAtATimeStep 0 + 256 := by
  have hsigned := toBitVec_foldl toBitVec_hashStep before 0
  have hunsigned := toBitVec_foldl toBitVec_oneAtATimeStep before 0
  rw [← UInt32.toBitVec_inj, toBitVec_hash, toBitVec_oneAtATime, OneAtATime.hash_inj, hval,
    List.map_append, List.map_append, List.map_cons, List.map_cons, map_signedWord_of_lt hafter,
    List.foldl_append, List.foldl_append, List.foldl_cons, List.foldl_cons,
    (OneAtATime.foldl_step_injective (after.map unsignedWord)).eq_iff, OneAtATime.step,
    OneAtATime.step, OneAtATime.mix_injective.eq_iff, ← signedWord_of_le hb]
  show (before.map signedWord).foldl OneAtATime.step (0 : UInt32).toBitVec + signedWord b =
    (before.map unsignedWord).foldl OneAtATime.step (0 : UInt32).toBitVec + _ ↔ _
  rw [← hsigned, ← hunsigned, BitVec.add_comm (signedWord b), ← BitVec.add_assoc,
    BitVec.add_left_inj, ← UInt32.toBitVec_inj]
  rfl

theorem hash_eq_oneAtATime_of_lt {val : CStr} (h : ∀ b ∈ val.bytes, b < 0x80) :
    hash val = oneAtATime val.bytes := by
  rw [← UInt32.toBitVec_inj, toBitVec_hash, toBitVec_oneAtATime, map_signedWord_of_lt h]

/-- With a single byte of the top half, the registers in front of it are the same. -/
theorem hash_ne_oneAtATime_of_one {val : CStr} {before after : List UInt8} {b : UInt8}
    (hval : val.bytes = before ++ b :: after) (hb : 0x80 ≤ b)
    (hbefore : ∀ c ∈ before, c < 0x80) (hafter : ∀ c ∈ after, c < 0x80) :
    hash val ≠ oneAtATime val.bytes := by
  rw [Ne, hash_eq_oneAtATime_iff_of_last hval hb hafter]
  have hsame : before.foldl hashStep 0 = before.foldl oneAtATimeStep 0 := by
    rw [← UInt32.toBitVec_inj, toBitVec_foldl toBitVec_hashStep,
      toBitVec_foldl toBitVec_oneAtATimeStep, map_signedWord_of_lt hbefore]
  rw [hsame]
  simp

/-- `hash` is the cited function on the strings without a byte of the top half, and is
not on those with exactly one. -/
theorem hash_eq_oneAtATime (val : CStr) :
    ((∀ b ∈ val.bytes, b < 0x80) → hash val = oneAtATime val.bytes) ∧
      ∀ before b after, val.bytes = before ++ b :: after → 0x80 ≤ b →
        (∀ c ∈ before, c < 0x80) → (∀ c ∈ after, c < 0x80) →
          hash val ≠ oneAtATime val.bytes := by
  constructor
  · exact hash_eq_oneAtATime_of_lt
  · intro before b after hval hb hbefore hafter
    exact hash_ne_oneAtATime_of_one hval hb hbefore hafter

/-- The cp1251 letter 0xe9 alone. -/
theorem not_hash_eq_oneAtATime : ¬ ∀ val : CStr, hash val = oneAtATime val.bytes := by
  intro h
  have hletter := h (ofBuffer [0xe9])
  revert hletter
  decide

/-- Two bytes of the top half can make up for each other. -/
theorem hash_eq_oneAtATime_of_cancelled :
    hash (ofBuffer [0x80, 103, 109, 121, 107, 103, 103, 119, 0x80]) =
      oneAtATime [0x80, 103, 109, 121, 107, 103, 103, 119, 0x80] := by
  decide

theorem exists_eq_append_of_differ {α : Type*} {s t : List α} (hlen : s.length = t.length)
    (hdiff : ∃! i : Nat, s[i]? ≠ t[i]?) :
    ∃ before a b after, s = before ++ a :: after ∧ t = before ++ b :: after ∧ a ≠ b := by
  obtain ⟨i, hi, hunique⟩ := hdiff
  have hsame : ∀ j, j ≠ i → s[j]? = t[j]? := by
    intro j hj
    by_contra hne
    exact hj (hunique j hne)
  have his : i < s.length := by
    by_contra hout
    exact hi (by rw [List.getElem?_eq_none (by omega), List.getElem?_eq_none (by omega)])
  have hit : i < t.length := by omega
  have hbefore : s.take i = t.take i := by
    apply List.ext_getElem?
    intro j
    rw [List.getElem?_take, List.getElem?_take]
    split
    · exact hsame j (by omega)
    · rfl
  have hafter : s.drop (i + 1) = t.drop (i + 1) := by
    apply List.ext_getElem?
    intro j
    rw [List.getElem?_drop, List.getElem?_drop]
    exact hsame _ (by omega)
  refine ⟨s.take i, s[i], t[i], s.drop (i + 1), ?_, ?_, ?_⟩
  · rw [← List.drop_eq_getElem_cons, List.take_append_drop]
  · rw [hbefore, hafter, ← List.drop_eq_getElem_cons, List.take_append_drop]
  · intro heq
    exact hi (by rw [List.getElem?_eq_getElem his, List.getElem?_eq_getElem hit, heq])

theorem hash_ne_of_one_change (s t : CStr) (hlen : s.bytes.length = t.bytes.length)
    (hdiff : ∃! i : Nat, s.bytes[i]? ≠ t.bytes[i]?) : hash s ≠ hash t := by
  obtain ⟨before, a, b, after, hs, ht, hab⟩ := exists_eq_append_of_differ hlen hdiff
  rw [Ne, ← UInt32.toBitVec_inj, toBitVec_hash, toBitVec_hash, hs, ht, List.map_append,
    List.map_append, List.map_cons, List.map_cons]
  exact OneAtATime.hash_ne_of_word_ne (signedWord_injective.ne hab) _ _

theorem hash_ne_of_one_change_letters : hash (ofBuffer [97, 98]) ≠ hash (ofBuffer [97, 99]) := by
  apply hash_ne_of_one_change
  · rfl
  · refine ⟨1, by decide, ?_⟩
    intro i hi
    by_contra hne
    apply hi
    rcases i with _ | _ | i
    · rfl
    · exact absurd rfl hne
    · rfl

end CHomework.WordCounter
