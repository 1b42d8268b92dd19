import Mathlib.Data.Finite.Defs
import Mathlib.Data.Fintype.EquivFin
import CHomework.Lib.Crc
import CHomework.Lib.XorLinear

/-!
Checksums of sequences that are put together, that end with their own checksum, or that
differ in single bits.
-/

namespace CHomework.Crc

open CHomework.LittleEndian CHomework.XorLinear

variable {w : Nat} (poly : BitVec w)

/-- The register after these bytes. -/
def takeIn (r : BitVec w) (bytes : List UInt8) : BitVec w :=
  bytes.foldl (fun r byte => byteStep poly r (byte.toBitVec.setWidth w)) r

theorem takeIn_append (r : BitVec w) (bytes bytes' : List UInt8) :
    takeIn poly r (bytes ++ bytes') = takeIn poly (takeIn poly r bytes) bytes' :=
  List.foldl_append

theorem takeIn_xor (r s : BitVec w) (bytes : List UInt8) :
    takeIn poly (r ^^^ s) bytes = takeIn poly r bytes ^^^ shifts poly (8 * bytes.length) s := by
  induction bytes generalizing r s with
  | nil => rfl
  | cons byte bytes ih =>
      have hstep : byteStep poly (r ^^^ s) (byte.toBitVec.setWidth w) =
          byteStep poly r (byte.toBitVec.setWidth w) ^^^ shifts poly 8 s := by
        rw [byteStep, byteStep, ← shifts_xor, BitVec.xor_assoc, BitVec.xor_assoc,
          BitVec.xor_comm s]
      have hcons : ∀ r, takeIn poly r (byte :: bytes) =
          takeIn poly (byteStep poly r (byte.toBitVec.setWidth w)) bytes := fun _ => rfl
      rw [hcons, hstep, ih, hcons, ← shifts_add, List.length_cons, Nat.mul_succ]

/-- The second part only moves the checksum of the first part on. -/
theorem checksum_append (bytes bytes' : List UInt8) :
    checksum poly (bytes ++ bytes') =
      checksum poly bytes' ^^^ shifts poly (8 * bytes'.length) (checksum poly bytes) := by
  have hfirst : takeIn poly (BitVec.allOnes w) bytes = BitVec.allOnes w ^^^ checksum poly bytes := by
    rw [BitVec.allOnes_xor, checksum, BitVec.not_not]
    rfl
  show ~~~ takeIn poly (BitVec.allOnes w) (bytes ++ bytes') =
    ~~~ takeIn poly (BitVec.allOnes w) bytes' ^^^ _
  rw [takeIn_append, hfirst, takeIn_xor, BitVec.not_xor_left]

section Windows

variable {poly} {n : Nat}

/-- The checksum of a sequence with its own checksum behind it. -/
def residue (poly : BitVec w) : BitVec w := ~~~ shifts poly w (BitVec.allOnes w)

theorem ofNat_ofBytes_toBytes (hn : 8 * n = w) (r : BitVec w) :
    BitVec.ofNat w (ofBytes (toBytes n r.toNat)) = r := by
  have hlt : r.toNat < 256 ^ n := by
    rw [show 256 = 2 ^ 8 from rfl, ← Nat.pow_mul, hn]
    exact r.isLt
  rw [ofBytes_toBytes hlt, BitVec.ofNat_toNat, BitVec.setWidth_eq]

theorem ofNat_ofBytes_eq_iff {bytes : List UInt8} (hlength : bytes.length = n) (hn : 8 * n = w)
    (r : BitVec w) : BitVec.ofNat w (ofBytes bytes) = r ↔ bytes = toBytes n r.toNat := by
  have hpow : 256 ^ n = 2 ^ w := by
    rw [show 256 = 2 ^ 8 from rfl, ← Nat.pow_mul, hn]
  have hlt : ofBytes bytes < 2 ^ w := by
    rw [← hpow, ← hlength]
    exact ofBytes_lt bytes
  constructor
  · rintro rfl
    apply ofBytes_inj (by rw [hlength, length_toBytes])
    rw [BitVec.toNat_ofNat, Nat.mod_eq_of_lt hlt, ofBytes_toBytes (hpow ▸ hlt)]
  · rintro rfl
    exact ofNat_ofBytes_toBytes hn r

theorem takeIn_window {window : List UInt8} (hn : 8 * window.length = w) (r : BitVec w) :
    takeIn poly r window = shifts poly w (r ^^^ BitVec.ofNat w (ofBytes window)) := by
  rw [takeIn, foldl_byteStep_eq poly (Nat.le_of_eq hn), hn]

theorem surjective_of_injective {f : BitVec w → BitVec w} (h : Function.Injective f) :
    Function.Surjective f := by
  have hfinite : Finite (BitVec w) :=
    Finite.of_injective BitVec.toFin fun _ _ => BitVec.toFin_inj.mp
  exact Finite.surjective_of_injective h

/-- A window takes the register to any value, and one window only does. -/
theorem existsUnique_window (hpoly : poly.msb = true) (hn : 8 * n = w) (r s : BitVec w) :
    ∃! window : List UInt8, window.length = n ∧ takeIn poly r window = s := by
  obtain ⟨t, ht⟩ := surjective_of_injective (shifts_injective hpoly w) s
  refine ⟨toBytes n (r ^^^ t).toNat, ⟨length_toBytes .., ?_⟩, ?_⟩
  · rw [takeIn_window (by rw [length_toBytes, hn]), ofNat_ofBytes_toBytes hn, ← BitVec.xor_assoc,
      BitVec.xor_self, BitVec.zero_xor, ht]
  · rintro window ⟨hlength, hwindow⟩
    by_contra hne
    have hsame : window.length = (toBytes n (r ^^^ t).toNat).length := by
      rw [hlength, length_toBytes]
    apply foldl_byteStep_ne hpoly hsame (by rw [hlength, hn]) hne r
    show takeIn poly r window = takeIn poly r _
    rw [hwindow, takeIn_window (by rw [length_toBytes, hn]), ofNat_ofBytes_toBytes hn,
      ← BitVec.xor_assoc, BitVec.xor_self, BitVec.zero_xor, ht]

/-- Any checksum can be had by a change of one window, in one way only. -/
theorem existsUnique_checksum (hpoly : poly.msb = true) (hn : 8 * n = w)
    (before after : List UInt8) (target : BitVec w) :
    ∃! window : List UInt8, window.length = n ∧
      checksum poly (before ++ (window ++ after)) = target := by
  have hafter : Function.Injective fun r => takeIn poly r after :=
    foldl_byteStep_injective hpoly after
  obtain ⟨s, hs⟩ := surjective_of_injective hafter (~~~ target)
  have hiff : ∀ window, checksum poly (before ++ (window ++ after)) = target ↔
      takeIn poly (takeIn poly (BitVec.allOnes w) before) window = s := by
    intro window
    show ~~~ takeIn poly _ (before ++ (window ++ after)) = target ↔ _
    rw [takeIn_append, takeIn_append, BitVec.not_eq_comm, ← hs]
    exact hafter.eq_iff
  simp only [hiff]
  exact existsUnique_window hpoly hn _ s

/-- Behind a sequence stands its checksum exactly if the whole has the residue. -/
theorem checksum_append_eq_residue_iff (hpoly : poly.msb = true) (hn : 8 * n = w)
    (bytes : List UInt8) {suffix : List UInt8} (hsuffix : suffix.length = n) :
    checksum poly (bytes ++ suffix) = residue poly ↔
      suffix = toBytes n (checksum poly bytes).toNat := by
  let r := takeIn poly (BitVec.allOnes w) bytes
  have hwhole : ∀ window : List UInt8, window.length = n →
      checksum poly (bytes ++ window) =
        ~~~ shifts poly w (r ^^^ BitVec.ofNat w (ofBytes window)) := by
    intro window hwindow
    rw [← takeIn_window (by rw [hwindow, hn])]
    exact congrArg _ (takeIn_append ..)
  have hnumber : ∀ number, r ^^^ number = BitVec.allOnes w ↔ number = ~~~ r := by
    intro number
    rw [← BitVec.xor_allOnes, ← BitVec.xor_right_inj r (x := number), ← BitVec.xor_assoc,
      BitVec.xor_self, BitVec.zero_xor]
  rw [hwhole suffix hsuffix, residue, BitVec.not_inj, (shifts_injective hpoly w).eq_iff, hnumber]
  exact ofNat_ofBytes_eq_iff hsuffix hn _

end Windows

/-- One shift that takes in a bit. -/
def bitStep (r : BitVec w) (b : Bool) : BitVec w := shift poly r ^^^ (if b then poly else 0#w)

def bit (bytes : List UInt8) (i : Nat) : Bool := (bytes.getD (i / 8) 0).toBitVec.getLsbD (i % 8)

/-- The bits of a sequence, those of a byte from the least significant one on. -/
def bitsOf (bytes : List UInt8) : List Bool := (List.range (8 * bytes.length)).map (bit bytes)

theorem shift_bitStep (r x : BitVec w) :
    shift poly (r ^^^ x) = bitStep poly r (x.getLsbD 0) ^^^ (x >>> 1) := by
  have hx : shift poly x = (if x.getLsbD 0 then poly else 0#w) ^^^ (x >>> 1) :=
    BitVec.xor_comm _ _
  rw [shift_xor, hx, bitStep, BitVec.xor_assoc]

/-- A number of `n` bits, taken in bit by bit. -/
theorem shifts_eq_foldl_bitStep {n : Nat} {x : BitVec w} (hx : x.toNat < 2 ^ n) (r : BitVec w) :
    shifts poly n (r ^^^ x) = ((List.range n).map x.getLsbD).foldl (bitStep poly) r := by
  induction n generalizing r x with
  | zero =>
      have hzero : x = 0#w := BitVec.eq_of_toNat_eq (by simpa using hx)
      rw [hzero, BitVec.xor_zero]
      rfl
  | succ n ih =>
      have hlt : (x >>> 1).toNat < 2 ^ n := by
        rw [BitVec.toNat_ushiftRight, Nat.shiftRight_eq_div_pow]
        omega
      have hbits : (List.range (n + 1)).map x.getLsbD =
          x.getLsbD 0 :: (List.range n).map (x >>> 1).getLsbD := by
        rw [List.range_succ_eq_map, List.map_cons, List.map_map]
        congr 1
        apply List.map_congr_left
        intro i _
        rw [Function.comp_apply, BitVec.getLsbD_ushiftRight, Nat.add_comm]
      rw [shifts_succ, shift_bitStep, ih hlt, hbits, List.foldl_cons]

theorem byteStep_eq_foldl_bitStep (hw : 8 ≤ w) (r : BitVec w) (byte : UInt8) :
    byteStep poly r (byte.toBitVec.setWidth w) =
      ((List.range 8).map byte.toBitVec.getLsbD).foldl (bitStep poly) r := by
  have hlt : (byte.toBitVec.setWidth w).toNat < 2 ^ 8 := by
    rw [BitVec.toNat_setWidth]
    exact Nat.lt_of_le_of_lt (Nat.mod_le _ _) byte.toBitVec.isLt
  have hbits : (List.range 8).map (byte.toBitVec.setWidth w).getLsbD =
      (List.range 8).map byte.toBitVec.getLsbD := by
    apply List.map_congr_left
    intro i hi
    rw [BitVec.getLsbD_setWidth]
    simp [Nat.lt_of_lt_of_le (List.mem_range.mp hi) hw]
  rw [byteStep, shifts_eq_foldl_bitStep poly hlt, hbits]

theorem bitsOf_cons (byte : UInt8) (bytes : List UInt8) :
    bitsOf (byte :: bytes) = (List.range 8).map byte.toBitVec.getLsbD ++ bitsOf bytes := by
  rw [bitsOf, List.length_cons, Nat.mul_succ, Nat.add_comm, List.range_add, List.map_append,
    List.map_map, bitsOf]
  congr 1
  apply List.map_congr_left
  intro i _
  simp [bit]

theorem takeIn_eq_foldl_bitStep (hw : 8 ≤ w) (r : BitVec w) (bytes : List UInt8) :
    takeIn poly r bytes = (bitsOf bytes).foldl (bitStep poly) r := by
  induction bytes generalizing r with
  | nil => rfl
  | cons byte bytes ih =>
      rw [bitsOf_cons, List.foldl_append, ← byteStep_eq_foldl_bitStep poly hw]
      exact ih _

theorem foldl_bitStep_xor (l : List Bool) (r s : BitVec w) :
    l.foldl (bitStep poly) (r ^^^ s) = l.foldl (bitStep poly) r ^^^ shifts poly l.length s := by
  induction l generalizing r s with
  | nil => rfl
  | cons b l ih =>
      have hstep : bitStep poly (r ^^^ s) b = bitStep poly r b ^^^ shift poly s := by
        rw [bitStep, bitStep, shift_xor, BitVec.xor_assoc, BitVec.xor_assoc,
          BitVec.xor_comm (shift poly s)]
      rw [List.foldl_cons, hstep, ih]
      rfl

/-- A bit that is flipped is seen in the register as the polynomial, moved on by the bits
behind it. -/
theorem foldl_bitStep_modify (l : List Bool) {p : Nat} (hp : p < l.length) (r : BitVec w) :
    (l.modify p not).foldl (bitStep poly) r =
      l.foldl (bitStep poly) r ^^^ shifts poly (l.length - 1 - p) poly := by
  induction l generalizing p r with
  | nil => cases hp
  | cons b l ih =>
      cases p with
      | zero =>
          have hflip : bitStep poly r (!b) = bitStep poly r b ^^^ poly := by
            cases b
            · simp [bitStep]
            · rw [bitStep, bitStep, BitVec.xor_assoc]
              simp
          rw [List.modify_zero_cons, List.foldl_cons, hflip, foldl_bitStep_xor]
          rfl
      | succ p =>
          have hlen : (b :: l).length - 1 - (p + 1) = l.length - 1 - p := by
            rw [List.length_cons]
            omega
          rw [List.modify_succ_cons, List.foldl_cons, hlen]
          exact ih (Nat.lt_of_succ_lt_succ hp) _

/-- Two flipped bits are not seen exactly if the polynomial comes back to itself between
them. -/
theorem foldl_bitStep_modify_modify_iff (hpoly : poly.msb = true) (l : List Bool) {p q : Nat}
    (hpq : p < q) (hq : q < l.length) (r : BitVec w) :
    ((l.modify p not).modify q not).foldl (bitStep poly) r = l.foldl (bitStep poly) r ↔
      shifts poly (q - p) poly = poly := by
  have hsplit : l.length - 1 - p = (l.length - 1 - q) + (q - p) := by omega
  rw [foldl_bitStep_modify poly _ (by rw [List.length_modify]; exact hq), List.length_modify,
    foldl_bitStep_modify poly l (hpq.trans hq), BitVec.xor_assoc, hsplit, shifts_add,
    ← shifts_xor]
  have hzero : shifts poly (l.length - 1 - q) (shifts poly (q - p) poly ^^^ poly) = 0#w ↔
      shifts poly (q - p) poly = poly := by
    constructor
    · intro h
      apply BitVec.xor_eq_zero_iff.mp
      apply shifts_injective hpoly (l.length - 1 - q)
      rw [h, shifts_zero_register]
    · intro h
      rw [h, BitVec.xor_self, shifts_zero_register]
  rw [← hzero]
  generalize shifts poly (l.length - 1 - q) (shifts poly (q - p) poly ^^^ poly) = s
  constructor
  · intro h
    rwa [← BitVec.xor_zero (x := l.foldl (bitStep poly) r), BitVec.xor_assoc, BitVec.zero_xor,
      BitVec.xor_right_inj] at h
  · rintro rfl
    exact BitVec.xor_zero

theorem linear_shift : Linear (shift poly) := ⟨shift_xor poly⟩

theorem shifts_eq_jump {k n : Nat} (hn : n < 2 ^ k) (r : BitVec w) :
    shifts poly n r = jump k n (columns (shift poly)) r :=
  (jump_columns (linear_shift poly) hn r).symm

end CHomework.Crc
