import Mathlib.Data.Nat.Digits.Defs

/-!
Little-endian numbers of fixed width, and their assembly by shifts.
-/

namespace CHomework.LittleEndian

def ofBytes (bytes : List UInt8) : Nat :=
  Nat.ofDigits 256 (bytes.map UInt8.toNat)

def toBytes : Nat → Nat → List UInt8
  | 0, _ => []
  | width + 1, n => UInt8.ofNat n :: toBytes width (n / 256)

@[simp] theorem ofBytes_nil : ofBytes [] = 0 := rfl

@[simp] theorem ofBytes_cons (b : UInt8) (bytes : List UInt8) :
    ofBytes (b :: bytes) = b.toNat + 256 * ofBytes bytes := by
  simp [ofBytes, Nat.ofDigits_cons]

theorem ofBytes_lt (bytes : List UInt8) : ofBytes bytes < 256 ^ bytes.length := by
  have hlt := Nat.ofDigits_lt_base_pow_length (b := 256) (l := bytes.map UInt8.toNat)
    (by decide) (by
      intro d hd
      rcases List.mem_map.mp hd with ⟨b, -, rfl⟩
      exact b.toNat_lt)
  rwa [List.length_map] at hlt

theorem ofBytes_inj {bytes bytes' : List UInt8} (hlen : bytes.length = bytes'.length)
    (h : ofBytes bytes = ofBytes bytes') : bytes = bytes' := by
  have hlt : ∀ (bytes : List UInt8), ∀ d ∈ bytes.map UInt8.toNat, d < 256 := by
    intro bytes d hd
    rcases List.mem_map.mp hd with ⟨b, -, rfl⟩
    exact b.toNat_lt
  have hmap := Nat.ofDigits_inj_of_len_eq (by decide : 1 < 256)
    (by rw [List.length_map, List.length_map, hlen]) (hlt bytes) (hlt bytes') h
  exact (List.map_inj_right fun _ _ => UInt8.toNat_inj.mp).mp hmap

@[simp] theorem length_toBytes (width n : Nat) : (toBytes width n).length = width := by
  induction width generalizing n with
  | zero => rfl
  | succ width ih => simp [toBytes, ih]

theorem ofBytes_toBytes {width n : Nat} (h : n < 256 ^ width) :
    ofBytes (toBytes width n) = n := by
  induction width generalizing n with
  | zero =>
      have hzero : n = 0 := by simpa using h
      simp [toBytes, hzero]
  | succ width ih =>
      have hdiv : n / 256 < 256 ^ width := by
        apply Nat.div_lt_of_lt_mul
        rwa [Nat.pow_succ'] at h
      rw [toBytes, ofBytes_cons, ih hdiv, UInt8.toNat_ofNat']
      have := Nat.mod_add_div n 256
      omega

theorem or_shiftLeft {a b i : Nat} (h : a < 2 ^ i) : a ||| b <<< i = a + b * 2 ^ i := by
  have := Nat.two_pow_add_eq_or_of_lt h b
  rw [Nat.or_comm, Nat.shiftLeft_eq, Nat.mul_comm b, ← this]
  omega

def word16 (b0 b1 : UInt8) : UInt16 := b0.toUInt16 ||| (b1.toUInt16 <<< 8)

/-- A word assembled from its bytes. The arithmetic of the shifts is that of
32 bits. -/
def word32 (b0 b1 b2 b3 : UInt8) : UInt32 :=
  b0.toUInt32 ||| (b1.toUInt32 <<< 8) ||| (b2.toUInt32 <<< 16) ||| (b3.toUInt32 <<< 24)

theorem word16_toNat (b0 b1 : UInt8) : (word16 b0 b1).toNat = ofBytes [b0, b1] := by
  have h0 := b0.toNat_lt
  have h1 := b1.toNat_lt
  have hshift : (b1.toUInt16 <<< 8).toNat = b1.toNat <<< 8 := by
    rw [UInt16.toNat_shiftLeft]
    simp [Nat.shiftLeft_eq]
    omega
  rw [word16, UInt16.toNat_or, hshift, UInt8.toNat_toUInt16, or_shiftLeft (by omega)]
  simp
  omega

theorem word32_toNat (b0 b1 b2 b3 : UInt8) :
    (word32 b0 b1 b2 b3).toNat = ofBytes [b0, b1, b2, b3] := by
  have h0 := b0.toNat_lt
  have h1 := b1.toNat_lt
  have h2 := b2.toNat_lt
  have h3 := b3.toNat_lt
  have hshift1 : (b1.toUInt32 <<< 8).toNat = b1.toNat <<< 8 := by
    rw [UInt32.toNat_shiftLeft]
    simp [Nat.shiftLeft_eq]
    omega
  have hshift2 : (b2.toUInt32 <<< 16).toNat = b2.toNat <<< 16 := by
    rw [UInt32.toNat_shiftLeft]
    simp [Nat.shiftLeft_eq]
    omega
  have hshift3 : (b3.toUInt32 <<< 24).toNat = b3.toNat <<< 24 := by
    rw [UInt32.toNat_shiftLeft]
    simp [Nat.shiftLeft_eq]
    omega
  rw [word32, UInt32.toNat_or, UInt32.toNat_or, UInt32.toNat_or, hshift1, hshift2, hshift3,
    UInt8.toNat_toUInt32]
  -- The bytes below each shift are summed first, which bounds them for the next one.
  rw [or_shiftLeft (a := b0.toNat) h0]
  rw [or_shiftLeft (a := b0.toNat + b1.toNat * 2 ^ 8) (i := 16) (by omega)]
  rw [or_shiftLeft (i := 24) (by omega)]
  simp
  omega

end CHomework.LittleEndian
