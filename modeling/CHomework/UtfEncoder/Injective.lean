import CHomework.Lib.PrefixCode
import CHomework.UtfEncoder.Conversion

namespace CHomework.UtfEncoder

open CHomework.LittleEndian
open CHomework.PrefixCode
open CHomework.Utf8

/-- The table entries that are written as two bytes are all different. -/
theorem nodup_filter_map (page : CodePage) :
    ((page.map.map UInt16.toNat).filter (0x7f < ·)).Nodup := by
  cases page with
  | cp1251 => decide +kernel
  | koi8 => decide +kernel
  | iso8859_5 => decide +kernel

theorem toNat_lt_length_map (page : CodePage) (b : UInt8) : b.toNat < page.map.length := by
  have hlen : page.map.length = 256 := by
    cases page with
    | cp1251 => decide +kernel
    | koi8 => decide +kernel
    | iso8859_5 => decide +kernel
  rw [hlen]
  exact b.toNat_lt

theorem codePoint_eq_getElem {page : CodePage} {b : UInt8} (h : b.toNat < page.map.length) :
    page.codePoint b = page.map[b.toNat] := by
  rw [CodePage.codePoint, List.getD_eq_getElem?_getD, List.getElem?_eq_getElem h]
  rfl

/-- A byte that is written as it is lies below the lead bytes, also where it is
the undefined one. -/
theorem toNat_lt_of_codePoint_le {page : CodePage} {b : UInt8}
    (h : page.codePoint b ≤ 0x7f) : b.toNat < 0xc0 := by
  by_cases hundefined : page = .cp1251 ∧ b = 0x98
  · rw [hundefined.2]
    decide
  · have heq := congrArg UInt8.toNat ((toUInt8_codePoint_eq_iff h).mpr hundefined)
    rw [UInt16.toNat_toUInt8] at heq
    have hle : (page.codePoint b).toNat ≤ 0x7f := UInt16.le_iff_toNat_le.mp h
    omega

theorem codePoint_ne_of_lt {page : CodePage} {b c : UInt8} (hb : 0x7f < page.codePoint b)
    (hlt : b.toNat < c.toNat) : page.codePoint b ≠ page.codePoint c := by
  intro heq
  have hpairs := List.pairwise_map.mp (List.pairwise_filter.mp (nodup_filter_map page))
  have hlenb := toNat_lt_length_map page b
  have hlenc := toNat_lt_length_map page c
  have hne := List.pairwise_iff_getElem.mp hpairs b.toNat c.toNat hlenb hlenc hlt
  rw [← codePoint_eq_getElem hlenb, ← codePoint_eq_getElem hlenc, ← heq] at hne
  have hgt : 0x7f < (page.codePoint b).toNat := UInt16.lt_iff_toNat_lt.mp hb
  exact hne (decide_eq_true hgt) (decide_eq_true hgt) rfl

theorem eq_of_codePoint_eq {page : CodePage} {b c : UInt8} (hb : 0x7f < page.codePoint b)
    (h : page.codePoint b = page.codePoint c) : b = c := by
  rcases Nat.lt_trichotomy b.toNat c.toNat with hlt | heq | hgt
  · exact absurd h (codePoint_ne_of_lt hb hlt)
  · exact UInt8.toNat_inj.mp heq
  · rw [h] at hb
    exact absurd h.symm (codePoint_ne_of_lt hb hgt)

theorem prefixFree_piece (page : CodePage) :
    PrefixFree (fun b => piece b (page.codePoint b)) (fun b => page.codePoint b ≤ 0x7ff) where
  ne_nil := fun b _ => piece_ne_nil b (page.codePoint b)
  eq_of_isPrefix := by
    intro b c hb hc hpre
    simp only [piece] at hpre
    split at hpre <;> split at hpre
    · exact (List.cons_prefix_cons.mp hpre).1
    · rename_i hascii _
      -- The raw byte would have to be a lead byte.
      have hlt := toNat_lt_of_codePoint_le hascii
      have hge := le_toNat_of_cons_prefix_twoBytes hc hpre
      omega
    · have hlen := hpre.length_le
      simp [twoBytes] at hlen
    · rename_i hword _
      have heq : twoBytes (page.codePoint b) = twoBytes (page.codePoint c) :=
        hpre.eq_of_length rfl
      exact eq_of_codePoint_eq (UInt16.not_le.mp hword) (twoBytes_inj hb hc heq)

theorem encodingToUtf8_injective (page : CodePage) {input input' : List UInt8} {f f' : UtfFile}
    (hf : encodingToUtf8 page.name input = .ok f)
    (hf' : encodingToUtf8 page.name input' = .ok f') (h : f.emitted = f'.emitted) :
    input = input' := by
  rcases eq_of_encodingToUtf8 hf with ⟨hreach, hemitted⟩
  rcases eq_of_encodingToUtf8 hf' with ⟨hreach', hemitted'⟩
  rw [hemitted, hemitted'] at h
  exact (prefixFree_piece page).eq_of_flatMap_eq hreach hreach' (map_some_inj h)

/-- The undefined byte of cp1251 and a letter, on both sides. -/
theorem encodingToUtf8_injective_undefined :
    encodingToUtf8 CodePage.cp1251.name [0x98, 0xe4] =
        .ok { content := [some 0x98, some 0xd0, some 0xb4, none, some 0], size := 4 } ∧
      ([0x98, 0xe4] : List UInt8) = [0x98, 0xe4] := by
  have hf : encodingToUtf8 CodePage.cp1251.name [0x98, 0xe4] =
      .ok { content := [some 0x98, some 0xd0, some 0xb4, none, some 0], size := 4 } := by
    decide +kernel
  exact ⟨hf, encodingToUtf8_injective .cp1251 hf hf rfl⟩

end CHomework.UtfEncoder
