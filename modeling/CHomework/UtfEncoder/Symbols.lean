import CHomework.UtfEncoder.Injective

namespace CHomework.UtfEncoder

open CHomework.PrefixCode
open CHomework.Utf8

/-- The character that a byte stands for. The undefined byte of cp1251 stands for none. -/
def CodePage.symbol (page : CodePage) (b : UInt8) : Option UInt16 :=
  if page = .cp1251 ∧ b = 0x98 then none else some (page.codePoint b)

/-- What is written for a symbol, whatever the code page. -/
def word : Option UInt16 → List UInt8
  | none => [0x98]
  | some u => if u ≤ 0x7f then [u.toUInt8] else twoBytes u

def InReach (symbol : Option UInt16) : Prop :=
  ∀ u, symbol = some u → u ≤ 0x7ff

theorem inReach_symbol_iff (page : CodePage) (b : UInt8) :
    InReach (page.symbol b) ↔ page.codePoint b ≤ 0x7ff := by
  rw [CodePage.symbol]
  split
  · rename_i hundefined
    obtain ⟨rfl, rfl⟩ := hundefined
    rw [codePoint_cp1251_undefined]
    simp [InReach]
  · simp [InReach]

theorem piece_eq_word (page : CodePage) (b : UInt8) :
    piece b (page.codePoint b) = word (page.symbol b) := by
  rw [CodePage.symbol]
  split
  · rename_i hundefined
    obtain ⟨rfl, rfl⟩ := hundefined
    rw [codePoint_cp1251_undefined]
    rfl
  · rename_i hdefined
    rw [piece, word]
    split
    · rename_i hascii
      rw [(toUInt8_codePoint_eq_iff hascii).mpr hdefined]
    · rfl

theorem emission_eq_flatMap_word (page : CodePage) (input : List UInt8) :
    emission page input = (input.map page.symbol).flatMap word := by
  rw [emission, List.flatMap_map]
  congr 1
  funext b
  exact piece_eq_word page b

theorem toNat_toUInt8_of_le {u : UInt16} (h : u ≤ 0x7f) : u.toUInt8.toNat = u.toNat := by
  have hle : u.toNat ≤ 0x7f := UInt16.le_iff_toNat_le.mp h
  rw [UInt16.toNat_toUInt8]
  omega

/-- A word is a single byte that is no lead byte, or the two bytes of a code point. -/
theorem word_cases {symbol : Option UInt16} (h : InReach symbol) :
    (∃ b : UInt8, b.toNat < 0xc0 ∧ word symbol = [b]) ∨
      ∃ u, u ≤ 0x7ff ∧ word symbol = twoBytes u := by
  cases symbol with
  | none => exact Or.inl ⟨0x98, by decide, rfl⟩
  | some u =>
      rw [word]
      split
      · rename_i hascii
        have hle : u.toNat ≤ 0x7f := UInt16.le_iff_toNat_le.mp hascii
        exact Or.inl ⟨u.toUInt8, by rw [toNat_toUInt8_of_le hascii]; omega, rfl⟩
      · exact Or.inr ⟨u, h u rfl, rfl⟩

theorem word_none_ne (u : UInt16) : word none ≠ word (some u) := by
  intro h
  rw [word, word] at h
  split at h
  · rename_i hascii
    have hbyte : 0x98 = u.toUInt8.toNat := congrArg UInt8.toNat (List.singleton_inj.mp h)
    have hle : u.toNat ≤ 0x7f := UInt16.le_iff_toNat_le.mp hascii
    rw [toNat_toUInt8_of_le hascii] at hbyte
    omega
  · simp [twoBytes] at h

theorem word_some_inj {u v : UInt16} (hu : u ≤ 0x7ff) (hv : v ≤ 0x7ff)
    (h : word (some u) = word (some v)) : u = v := by
  simp only [word] at h
  split at h <;> split at h
  · rename_i hu hv
    have hbyte := congrArg UInt8.toNat (List.singleton_inj.mp h)
    rw [toNat_toUInt8_of_le hu, toNat_toUInt8_of_le hv] at hbyte
    exact UInt16.toNat_inj.mp hbyte
  · simp [twoBytes] at h
  · simp [twoBytes] at h
  · exact twoBytes_inj hu hv h

theorem word_injOn {symbol symbol' : Option UInt16} (hs : InReach symbol)
    (hs' : InReach symbol') (h : word symbol = word symbol') : symbol = symbol' := by
  cases symbol with
  | none =>
      cases symbol' with
      | none => rfl
      | some u => exact absurd h (word_none_ne u)
  | some u =>
      cases symbol' with
      | none => exact absurd h.symm (word_none_ne u)
      | some v => rw [word_some_inj (hs u rfl) (hs' v rfl) h]

theorem prefixFree_word : PrefixFree word InReach where
  ne_nil := by
    intro symbol hs
    rcases word_cases hs with ⟨b, -, h⟩ | ⟨u, -, h⟩
    · rw [h]
      exact List.cons_ne_nil _ _
    · rw [h]
      exact List.cons_ne_nil _ _
  eq_of_isPrefix := by
    intro symbol symbol' hs hs' hpre
    apply word_injOn hs hs'
    rcases word_cases hs with ⟨b, hb, h⟩ | ⟨u, hu, h⟩
    · rcases word_cases hs' with ⟨c, hc, h'⟩ | ⟨v, hv, h'⟩
      · rw [h, h'] at hpre ⊢
        exact hpre.eq_of_length rfl
      · -- The single byte would have to be a lead byte.
        rw [h, h'] at hpre
        have hge := le_toNat_of_cons_prefix_twoBytes hv hpre
        omega
    · rcases word_cases hs' with ⟨c, hc, h'⟩ | ⟨v, hv, h'⟩
      · rw [h, h'] at hpre
        have hlen := hpre.length_le
        simp [twoBytes] at hlen
      · rw [h, h'] at hpre ⊢
        exact hpre.eq_of_length rfl

/-- What is emitted determines the result. -/
theorem encodingToUtf8_eq_ok_iff (page : CodePage) (input : List UInt8) (f : UtfFile) :
    encodingToUtf8 page.name input = .ok f ↔
      (∀ symbol ∈ input.map page.symbol, InReach symbol) ∧
        f = (filled ((input.map page.symbol).flatMap word)).terminate := by
  have hreach : (∀ symbol ∈ input.map page.symbol, InReach symbol) ↔
      ∀ b ∈ input, page.codePoint b ≤ 0x7ff := by
    simp [inReach_symbol_iff]
  rw [hreach, ← emission_eq_flatMap_word]
  constructor
  · intro h
    have hle := (eq_of_encodingToUtf8 h).1
    rw [encodingToUtf8_of_le hle, Except.ok.injEq] at h
    exact ⟨hle, h.symm⟩
  · rintro ⟨hle, rfl⟩
    exact encodingToUtf8_of_le hle

theorem terminate_filled_inj {bytes bytes' : List UInt8}
    (h : (filled bytes).terminate = (filled bytes').terminate) : bytes = bytes' := by
  have hemitted := congrArg UtfFile.emitted h
  rw [emitted_terminate_filled, emitted_terminate_filled] at hemitted
  exact map_some_inj hemitted

/-- A second text, in the same code page or another, has the result of the first one
exactly when it stands for the same symbols. -/
theorem encodingToUtf8_eq_iff {page page' : CodePage} {input input' : List UInt8} {f : UtfFile}
    (hf : encodingToUtf8 page.name input = .ok f) :
    encodingToUtf8 page'.name input' = .ok f ↔ input'.map page'.symbol = input.map page.symbol := by
  obtain ⟨hreach, rfl⟩ := (encodingToUtf8_eq_ok_iff page input f).mp hf
  rw [encodingToUtf8_eq_ok_iff]
  constructor
  · rintro ⟨hreach', heq⟩
    exact (prefixFree_word.eq_of_flatMap_eq hreach hreach' (terminate_filled_inj heq)).symm
  · intro hsymbols
    rw [hsymbols]
    exact ⟨hreach, rfl⟩

/-- The same two letters in KOI8-R and in cp1251. -/
theorem encodingToUtf8_eq_letters :
    encodingToUtf8 CodePage.cp1251.name [0xe4, 0xe0] =
        .ok (filled [0xd0, 0xb4, 0xd0, 0xb0]).terminate ↔
      [0xe4, 0xe0].map CodePage.cp1251.symbol = [0xc4, 0xc1].map CodePage.koi8.symbol := by
  have hf : encodingToUtf8 CodePage.koi8.name [0xc4, 0xc1] =
      .ok (filled [0xd0, 0xb4, 0xd0, 0xb0]).terminate := by
    decide +kernel
  exact encodingToUtf8_eq_iff hf

end CHomework.UtfEncoder
