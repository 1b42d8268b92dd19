import Mathlib.Logic.Function.Iterate
import CHomework.Lib.LittleEndian

/-!
Reflected cyclic redundancy checks of any width: the shift register that takes
one bit after another, and its lift to several bits at once through a table.
-/

namespace CHomework.Crc

open CHomework.LittleEndian

variable {w : Nat} (poly : BitVec w)

/-- One shift of the register. The bit that falls out selects the polynomial. -/
def shift (r : BitVec w) : BitVec w :=
  (r >>> 1) ^^^ (if r.getLsbD 0 then poly else 0#w)

def shifts (n : Nat) (r : BitVec w) : BitVec w := (shift poly)^[n] r

/-- The last `n` bits of the register. -/
def low (n : Nat) (r : BitVec w) : BitVec w := (r.setWidth n).setWidth w

def high (n : Nat) (r : BitVec w) : BitVec w := (r >>> n) <<< n

/-- Take in one byte, bit after bit. -/
def byteStep (r byte : BitVec w) : BitVec w := shifts poly 8 (r ^^^ byte)

/-- The register starts with ones, and what is left in it is complemented. -/
def checksum (bytes : List UInt8) : BitVec w :=
  ~~~ bytes.foldl (fun r byte => byteStep poly r (byte.toBitVec.setWidth w)) (BitVec.allOnes w)

@[simp] theorem shifts_zero (r : BitVec w) : shifts poly 0 r = r := rfl

theorem shifts_succ (n : Nat) (r : BitVec w) :
    shifts poly (n + 1) r = shifts poly n (shift poly r) := rfl

theorem xor_xor_xor_comm (a b c d : BitVec w) :
    (a ^^^ b) ^^^ (c ^^^ d) = (a ^^^ c) ^^^ (b ^^^ d) := by
  rw [BitVec.xor_assoc, ← BitVec.xor_assoc b, BitVec.xor_comm b c, BitVec.xor_assoc c,
    BitVec.xor_assoc]

theorem select_xor (a b : Bool) :
    (if (a ^^ b) then poly else 0#w) =
      (if a then poly else 0#w) ^^^ (if b then poly else 0#w) := by
  cases a <;> cases b <;> simp

theorem shift_xor (r s : BitVec w) : shift poly (r ^^^ s) = shift poly r ^^^ shift poly s := by
  rw [shift, BitVec.getLsbD_xor, select_xor, BitVec.ushiftRight_xor_distrib,
    xor_xor_xor_comm]
  rfl

theorem shifts_xor (n : Nat) (r s : BitVec w) :
    shifts poly n (r ^^^ s) = shifts poly n r ^^^ shifts poly n s := by
  induction n generalizing r s with
  | zero => rfl
  | succ n ih => rw [shifts_succ, shift_xor, ih, shifts_succ, shifts_succ]

theorem shift_shiftLeft (r : BitVec w) {k n : Nat} (h : k < n) :
    shift poly ((r >>> n) <<< (k + 1)) = (r >>> n) <<< k := by
  have hlow : ((r >>> n) <<< (k + 1)).getLsbD 0 = false := by
    simp [BitVec.getLsbD_shiftLeft]
  rw [shift, hlow]
  apply BitVec.eq_of_getLsbD_eq
  intro i hi
  simp only [Bool.false_eq_true, if_false, BitVec.xor_zero, BitVec.getLsbD_ushiftRight,
    BitVec.getLsbD_shiftLeft]
  rcases Nat.lt_or_ge i k with hik | hik
  · simp [hik, show 1 + i < k + 1 by omega]
  · have hsub : 1 + i - (k + 1) = i - k := by omega
    rw [hsub]
    rcases Nat.lt_or_ge (1 + i) w with hiw | hiw
    · simp [hiw, hi, show ¬ 1 + i < k + 1 by omega, show ¬ i < k by omega]
    · have hout : w ≤ n + (i - k) := by omega
      simp [BitVec.getLsbD_of_ge _ _ hout]

/-- Bits above the last `n` only move down through `n` shifts. -/
theorem shifts_shiftLeft (r : BitVec w) {k n : Nat} (h : k ≤ n) :
    shifts poly k ((r >>> n) <<< k) = r >>> n := by
  induction k with
  | zero => simp
  | succ k ih => rw [shifts_succ, shift_shiftLeft poly r (by omega), ih (by omega)]

theorem high_xor_low (n : Nat) (r : BitVec w) : high n r ^^^ low n r = r := by
  apply BitVec.eq_of_getLsbD_eq
  intro i hi
  simp only [high, low, BitVec.getLsbD_xor, BitVec.getLsbD_shiftLeft,
    BitVec.getLsbD_ushiftRight, BitVec.getLsbD_setWidth]
  rcases Nat.lt_or_ge i n with hin | hin
  · simp [hi, hin]
  · simp [hi, show ¬ i < n by omega, show n + (i - n) = i by omega]

/-- Several shifts at once: those of the last bits, which a table can hold, and
the rest moved down. -/
theorem shifts_eq_low_xor (n : Nat) (r : BitVec w) :
    shifts poly n r = (r >>> n) ^^^ shifts poly n (low n r) := by
  calc
    shifts poly n r = shifts poly n (high n r ^^^ low n r) := by rw [high_xor_low]
    _ = shifts poly n (high n r) ^^^ shifts poly n (low n r) := shifts_xor poly n _ _
    _ = (r >>> n) ^^^ shifts poly n (low n r) := by
      rw [high, shifts_shiftLeft poly r (Nat.le_refl n)]

theorem setWidth_ushiftRight_eight (byte : BitVec 8) : byte.setWidth w >>> 8 = 0#w := by
  apply BitVec.eq_of_getLsbD_eq
  intro i hi
  simp [BitVec.getLsbD_ushiftRight, BitVec.getLsbD_setWidth]

/-- A byte step with a table of the shifts of every byte value. -/
theorem byteStep_eq (r : BitVec w) (byte : BitVec 8) :
    byteStep poly r (byte.setWidth w) =
      (r >>> 8) ^^^ shifts poly 8 (low 8 (r ^^^ byte.setWidth w)) := by
  rw [byteStep, shifts_eq_low_xor, BitVec.ushiftRight_xor_distrib,
    setWidth_ushiftRight_eight, BitVec.xor_zero]

theorem shifts_add (m n : Nat) (r : BitVec w) :
    shifts poly (m + n) r = shifts poly m (shifts poly n r) :=
  Function.iterate_add_apply _ m n r

theorem shifts_zero_register (n : Nat) : shifts poly n 0#w = 0#w := by
  have h := shifts_xor poly n 0#w 0#w
  rwa [BitVec.xor_self, BitVec.xor_self] at h

theorem low_shiftLeft (n : Nat) (r : BitVec w) : low n (r <<< n) = 0#w := by
  apply BitVec.eq_of_getLsbD_eq
  intro i hi
  simp only [low, BitVec.getLsbD_setWidth, BitVec.getLsbD_shiftLeft, BitVec.getLsbD_zero]
  rcases Nat.lt_or_ge i n with hin | hin
  · simp [hin]
  · simp [Nat.not_lt.mpr hin]

/-- Shifting undoes a move up that loses no bit. -/
theorem shifts_shiftLeft_of_lt {n m : Nat} (r : BitVec w) (hr : r.toNat < 2 ^ m)
    (h : n + m ≤ w) : shifts poly n (r <<< n) = r := by
  rw [shifts_eq_low_xor, low_shiftLeft, shifts_zero_register, BitVec.xor_zero]
  apply BitVec.eq_of_getLsbD_eq
  intro i hi
  simp only [BitVec.getLsbD_ushiftRight, BitVec.getLsbD_shiftLeft]
  rcases Nat.lt_or_ge (n + i) w with hiw | hiw
  · simp [hiw]
  · have hbit : r.getLsbD i = false :=
      Nat.testBit_lt_two_pow (Nat.lt_of_lt_of_le hr (Nat.pow_le_pow_right Nat.two_pos (by omega)))
    simp [Nat.not_lt.mpr hiw, hbit]

theorem ofNat_ofBytes_cons (byte : UInt8) (bytes : List UInt8) :
    BitVec.ofNat w (ofBytes (byte :: bytes)) =
      byte.toBitVec.setWidth w ^^^ (BitVec.ofNat w (ofBytes bytes) <<< 8) := by
  apply BitVec.eq_of_getLsbD_eq
  intro i hi
  have hbyte : byte.toNat < 2 ^ 8 := byte.toNat_lt
  rw [ofBytes_cons, Nat.add_comm]
  simp only [BitVec.getLsbD_ofNat, BitVec.getLsbD_xor, BitVec.getLsbD_setWidth,
    BitVec.getLsbD_shiftLeft, hi, decide_true, Bool.true_and]
  rw [Nat.testBit_two_pow_mul_add (i := 8) _ hbyte]
  rcases Nat.lt_or_ge i 8 with hlow | hlow
  · simp only [hlow, if_true]
    simp
    rfl
  · have hout : byte.toBitVec.getLsbD i = false := BitVec.getLsbD_of_ge _ _ hlow
    have hsub : i - 8 < w := by omega
    simp [Nat.not_lt.mpr hlow, hout, hsub]

/-- A few bytes, taken in one by one, are taken in as one number. -/
theorem foldl_byteStep_eq {bytes : List UInt8} (h : 8 * bytes.length ≤ w) (r : BitVec w) :
    bytes.foldl (fun r byte => byteStep poly r (byte.toBitVec.setWidth w)) r =
      shifts poly (8 * bytes.length) (r ^^^ BitVec.ofNat w (ofBytes bytes)) := by
  induction bytes generalizing r with
  | nil => simp
  | cons byte bytes ih =>
      have hlen : 8 * bytes.length + 8 ≤ w := by
        rw [List.length_cons] at h
        omega
      have hlt : (BitVec.ofNat w (ofBytes bytes)).toNat < 2 ^ (8 * bytes.length) := by
        have hbytes := ofBytes_lt bytes
        rw [Nat.pow_mul, BitVec.toNat_ofNat]
        exact Nat.lt_of_le_of_lt (Nat.mod_le _ _) hbytes
      have hrest := shifts_shiftLeft_of_lt poly (BitVec.ofNat w (ofBytes bytes)) hlt
        (n := 8) (by omega)
      rw [List.foldl_cons, ih (by omega), byteStep]
      nth_rewrite 1 [← hrest]
      rw [← shifts_xor, ← shifts_add, BitVec.xor_assoc, ← ofNat_ofBytes_cons,
        List.length_cons, Nat.mul_succ]

section Burst

variable {poly}

/-- With a polynomial of full degree the bit that falls out is seen at the
other end of the register, so no shift loses information. -/
theorem eq_zero_of_shift_eq_zero (hpoly : poly.msb = true) {r : BitVec w}
    (h : shift poly r = 0#w) : r = 0#w := by
  have hmoved : r >>> 1 = if r.getLsbD 0 then poly else 0#w := BitVec.xor_eq_zero_iff.mp h
  cases hbit : r.getLsbD 0 with
  | true =>
      rw [hbit, if_pos rfl] at hmoved
      rw [← hmoved, BitVec.msb_eq_getLsbD_last, BitVec.getLsbD_ushiftRight] at hpoly
      have hout : r.getLsbD (1 + (w - 1)) = false := BitVec.getLsbD_of_ge _ _ (by omega)
      rw [hout] at hpoly
      cases hpoly
  | false =>
      rw [hbit, if_neg (by decide)] at hmoved
      apply BitVec.eq_of_getLsbD_eq
      intro i hi
      rw [BitVec.getLsbD_zero]
      cases i with
      | zero => exact hbit
      | succ i =>
          have hbits := congrArg (fun x : BitVec w => x.getLsbD i) hmoved
          simp only [BitVec.getLsbD_ushiftRight, BitVec.getLsbD_zero] at hbits
          rwa [Nat.add_comm] at hbits

theorem shift_injective (hpoly : poly.msb = true) : Function.Injective (shift poly) := by
  intro r s h
  have hzero : shift poly (r ^^^ s) = 0#w := by rw [shift_xor, h, BitVec.xor_self]
  exact BitVec.xor_eq_zero_iff.mp (eq_zero_of_shift_eq_zero hpoly hzero)

theorem shifts_injective (hpoly : poly.msb = true) (n : Nat) :
    Function.Injective (shifts poly n) :=
  (shift_injective hpoly).iterate n

theorem foldl_byteStep_injective (hpoly : poly.msb = true) (bytes : List UInt8) :
    Function.Injective fun r =>
      bytes.foldl (fun r byte => byteStep poly r (byte.toBitVec.setWidth w)) r := by
  induction bytes with
  | nil => exact Function.injective_id
  | cons byte bytes ih =>
      intro r s h
      have hstep : byteStep poly r (byte.toBitVec.setWidth w) =
          byteStep poly s (byte.toBitVec.setWidth w) := ih h
      have hxor := shifts_injective hpoly 8 hstep
      rwa [BitVec.xor_left_inj] at hxor

theorem foldl_byteStep_ne (hpoly : poly.msb = true) {window window' : List UInt8}
    (hlen : window.length = window'.length) (hfits : 8 * window.length ≤ w)
    (hne : window ≠ window') (r : BitVec w) :
    window.foldl (fun r byte => byteStep poly r (byte.toBitVec.setWidth w)) r ≠
      window'.foldl (fun r byte => byteStep poly r (byte.toBitVec.setWidth w)) r := by
  intro h
  rw [foldl_byteStep_eq poly hfits, foldl_byteStep_eq poly (hlen ▸ hfits), ← hlen] at h
  have hnumber := (BitVec.xor_right_inj r).mp (shifts_injective hpoly _ h)
  have hlt : ∀ bytes : List UInt8, bytes.length = window.length → ofBytes bytes < 2 ^ w := by
    intro bytes hbytes
    have hpow : 256 ^ bytes.length ≤ 2 ^ w := by
      rw [show 256 = 2 ^ 8 from rfl, ← Nat.pow_mul, hbytes]
      exact Nat.pow_le_pow_right Nat.two_pos hfits
    exact Nat.lt_of_lt_of_le (ofBytes_lt bytes) hpow
  have htoNat := congrArg BitVec.toNat hnumber
  rw [BitVec.toNat_ofNat, BitVec.toNat_ofNat, Nat.mod_eq_of_lt (hlt window rfl),
    Nat.mod_eq_of_lt (hlt window' hlen.symm)] at htoNat
  exact hne (ofBytes_inj hlen htoNat)

/-- Damage to a window that fits into the register changes the checksum. -/
theorem checksum_ne_of_window_ne (hpoly : poly.msb = true) {window window' : List UInt8}
    (hlen : window.length = window'.length) (hfits : 8 * window.length ≤ w)
    (hne : window ≠ window') (before after : List UInt8) :
    checksum poly (before ++ (window ++ after)) ≠
      checksum poly (before ++ (window' ++ after)) := by
  intro h
  have hregister := BitVec.not_inj.mp h
  simp only [List.foldl_append] at hregister
  exact foldl_byteStep_ne hpoly hlen hfits hne _ (foldl_byteStep_injective hpoly after hregister)

end Burst

end CHomework.Crc
