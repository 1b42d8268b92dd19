import Mathlib.Data.List.Basic
import CHomework.Lib.LittleEndian

/-!
The UTF-8 encoding of the code points that need one byte or two, over 16-bit
numbers, and of texts without a NUL. The reference is the encoder of the core
library.
-/

namespace CHomework.Utf8

open CHomework.LittleEndian

def charOf (u : UInt16) : Char := Char.ofNat u.toNat

theorem toNat_charOf {u : UInt16} (h : u ≤ 0x7ff) : (charOf u).toNat = u.toNat := by
  have hle : u.toNat ≤ 0x7ff := UInt16.le_iff_toNat_le.mp h
  have hvalid : u.toNat.isValidChar := Or.inl (by omega)
  rw [charOf, Char.ofNat, dif_pos hvalid]
  rfl

theorem utf8EncodeChar_of_le {u : UInt16} (h : u ≤ 0x7f) :
    String.utf8EncodeChar (charOf u) = [u.toUInt8] := by
  have hle : u.toNat ≤ 0x7f := UInt16.le_iff_toNat_le.mp h
  have htoNat : (charOf u).val.toNat = u.toNat :=
    toNat_charOf (UInt16.le_iff_toNat_le.mpr (by show u.toNat ≤ 0x7ff; omega))
  simp only [String.utf8EncodeChar, htoNat, hle, if_true]
  rfl

def twoBytes (u : UInt16) : List UInt8 :=
  [((u >>> 6) ||| 0xc0).toUInt8, ((u &&& 0x3f) ||| 0x80).toUInt8]

theorem twoBytes_eq {u : UInt16} (h : u ≤ 0x7ff) :
    twoBytes u = [UInt8.ofNat (u.toNat / 64 + 0xc0), UInt8.ofNat (u.toNat % 64 + 0x80)] := by
  have hle : u.toNat ≤ 0x7ff := UInt16.le_iff_toNat_le.mp h
  have hshift : (u >>> 6).toNat = u.toNat / 64 := by
    rw [UInt16.toNat_shiftRight]
    exact Nat.shiftRight_eq_div_pow _ 6
  have hmask : (u &&& 0x3f).toNat = u.toNat % 64 := by
    rw [UInt16.toNat_and]
    exact Nat.and_two_pow_sub_one_eq_mod _ 6
  have hlead : (u >>> 6) ||| 0xc0 = UInt16.ofNat (u.toNat / 64 + 0xc0) := by
    apply UInt16.toNat_inj.mp
    rw [UInt16.toNat_or, hshift, UInt16.toNat_ofNat', Nat.mod_eq_of_lt (by omega)]
    exact or_shiftLeft (b := 3) (i := 6) (by omega)
  have hcont : (u &&& 0x3f) ||| 0x80 = UInt16.ofNat (u.toNat % 64 + 0x80) := by
    apply UInt16.toNat_inj.mp
    have hlt : u.toNat % 64 < 2 ^ 6 := Nat.mod_lt _ (by decide)
    rw [UInt16.toNat_or, hmask, UInt16.toNat_ofNat', Nat.mod_eq_of_lt (b := 2 ^ 16) (by omega)]
    exact or_shiftLeft (b := 2) hlt
  rw [twoBytes, hlead, hcont, UInt16.toUInt8_ofNat', UInt16.toUInt8_ofNat']

theorem utf8EncodeChar_of_lt {u : UInt16} (hlow : 0x7f < u) (hhigh : u ≤ 0x7ff) :
    String.utf8EncodeChar (charOf u) = twoBytes u := by
  have hlt : 0x7f < u.toNat := UInt16.lt_iff_toNat_lt.mp hlow
  have hle : u.toNat ≤ 0x7ff := UInt16.le_iff_toNat_le.mp hhigh
  have htoNat : (charOf u).val.toNat = u.toNat := toNat_charOf hhigh
  have hdiv : u.toNat / 64 % 32 = u.toNat / 64 := Nat.mod_eq_of_lt (by omega)
  have hnot : ¬ u.toNat ≤ 0x7f := by omega
  rw [twoBytes_eq hhigh]
  simp only [String.utf8EncodeChar, htoNat, hnot, hle, if_true, if_false, hdiv]

theorem map_toNat_twoBytes {u : UInt16} (h : u ≤ 0x7ff) :
    (twoBytes u).map UInt8.toNat = [u.toNat / 64 + 0xc0, u.toNat % 64 + 0x80] := by
  have hle : u.toNat ≤ 0x7ff := UInt16.le_iff_toNat_le.mp h
  have hlead : (u.toNat / 64 + 0xc0) % 2 ^ 8 = u.toNat / 64 + 0xc0 := Nat.mod_eq_of_lt (by omega)
  have hcont : (u.toNat % 64 + 0x80) % 2 ^ 8 = u.toNat % 64 + 0x80 := Nat.mod_eq_of_lt (by omega)
  rw [twoBytes_eq h, List.map_cons, List.map_singleton, UInt8.toNat_ofNat', UInt8.toNat_ofNat',
    hlead, hcont]

theorem twoBytes_inj {u v : UInt16} (hu : u ≤ 0x7ff) (hv : v ≤ 0x7ff)
    (h : twoBytes u = twoBytes v) : u = v := by
  have hmap := congrArg (List.map UInt8.toNat) h
  rw [map_toNat_twoBytes hu, map_toNat_twoBytes hv, List.cons.injEq, List.singleton_inj] at hmap
  rcases hmap with ⟨hlead, hcont⟩
  apply UInt16.toNat_inj.mp
  have hdivu := Nat.div_add_mod u.toNat 64
  have hdivv := Nat.div_add_mod v.toNat 64
  omega

theorem le_toNat_of_cons_prefix_twoBytes {u : UInt16} (h : u ≤ 0x7ff) {b : UInt8}
    (hpre : [b] <+: twoBytes u) : 0xc0 ≤ b.toNat := by
  have hmap : [b.toNat] <+: (twoBytes u).map UInt8.toNat := hpre.map UInt8.toNat
  rw [map_toNat_twoBytes h, List.cons_prefix_cons] at hmap
  omega

/-- Where the pieces agree in length, two concatenations are equal only piece
by piece. -/
theorem flatMap_eq_flatMap_iff {α β : Type*} {f g : α → List β} {l : List α}
    (h : ∀ a ∈ l, (f a).length = (g a).length) :
    l.flatMap f = l.flatMap g ↔ ∀ a ∈ l, f a = g a := by
  induction l with
  | nil => simp
  | cons a l ih =>
      have ih := ih fun b hb => h b (List.mem_cons_of_mem _ hb)
      simp only [List.flatMap_cons, List.forall_mem_cons, ← ih]
      constructor
      · intro heq
        exact List.append_inj heq (h a List.mem_cons_self)
      · rintro ⟨ha, hl⟩
        rw [ha, hl]

theorem toList_loop_eq (bytes : ByteArray) (i : Nat) (r : List UInt8) :
    ByteArray.toList.loop bytes i r = r.reverse ++ bytes.data.toList.drop i := by
  induction hrest : bytes.size - i generalizing i r with
  | zero =>
      rw [ByteArray.toList.loop, if_neg (by omega), List.drop_eq_nil_of_le, List.append_nil]
      rw [Array.length_toList]
      exact Nat.le_of_sub_eq_zero hrest
  | succ rest ih =>
      have hi : i < bytes.data.toList.length := by
        rw [Array.length_toList]
        show i < bytes.size
        omega
      have hget : bytes.get! i = bytes.data.toList[i] := by
        rw [Array.getElem_toList]
        exact getElem!_pos bytes.data i hi
      rw [ByteArray.toList.loop, if_pos (by omega), ih (i + 1) _ (by omega),
        List.drop_eq_getElem_cons hi, List.reverse_cons, List.append_assoc, hget]
      rfl

theorem toList_toUTF8 (text : String) :
    text.toUTF8.toList = text.toList.flatMap String.utf8EncodeChar := by
  rw [ByteArray.toList, toList_loop_eq, String.toUTF8_eq_toByteArray, ← String.utf8Encode_toList,
    List.utf8Encode, List.toList_data_toByteArray]
  rfl

/-- Only the character NUL is encoded with a byte 0. -/
theorem zero_notMem_utf8EncodeChar {c : Char} (h : c.toNat ≠ 0) :
    (0 : UInt8) ∉ String.utf8EncodeChar c := by
  have hbyte : ∀ n, n % 256 ≠ 0 → (0 : UInt8) ≠ UInt8.ofNat n := by
    intro n hn heq
    have htoNat := congrArg UInt8.toNat heq
    rw [UInt8.toNat_ofNat'] at htoNat
    exact hn htoNat.symm
  have hne : c.val.toNat ≠ 0 := h
  simp only [String.utf8EncodeChar]
  split
  · simp only [List.mem_singleton]
    exact hbyte _ (by omega)
  · split
    · simp only [List.mem_cons, List.not_mem_nil, or_false, not_or]
      exact ⟨hbyte _ (by omega), hbyte _ (by omega)⟩
    · split
      · simp only [List.mem_cons, List.not_mem_nil, or_false, not_or]
        exact ⟨hbyte _ (by omega), hbyte _ (by omega), hbyte _ (by omega)⟩
      · simp only [List.mem_cons, List.not_mem_nil, or_false, not_or]
        exact ⟨hbyte _ (by omega), hbyte _ (by omega), hbyte _ (by omega), hbyte _ (by omega)⟩

theorem zero_notMem_toUTF8 {text : String} (h : 0 ∉ text.toList.map Char.toNat) :
    (0 : UInt8) ∉ text.toUTF8.toList := by
  rw [toList_toUTF8, List.mem_flatMap]
  rintro ⟨c, hc, hbyte⟩
  have hne : c.toNat ≠ 0 := by
    intro hzero
    exact h (List.mem_map.mpr ⟨c, hc, hzero⟩)
  exact zero_notMem_utf8EncodeChar hne hbyte

theorem zero_notMem_repr (n : Nat) : 0 ∉ n.repr.toList.map Char.toNat := by
  rw [Nat.toList_repr, List.mem_map]
  rintro ⟨c, hc, hzero⟩
  have hdigit := Nat.isDigit_of_mem_toDigits (by decide) (by decide) hc
  have hnul : c = '\x00' := Char.ext (UInt32.toNat_inj.mp hzero)
  rw [hnul] at hdigit
  cases hdigit

theorem zero_notMem_toString (i : Int) : 0 ∉ (toString i).toList.map Char.toNat := by
  rw [Int.toString_eq_repr, Int.repr_eq_if]
  split
  · exact zero_notMem_repr _
  · rw [String.toList_append, List.map_append, List.mem_append, not_or]
    exact ⟨by decide, zero_notMem_repr _⟩

end CHomework.Utf8
