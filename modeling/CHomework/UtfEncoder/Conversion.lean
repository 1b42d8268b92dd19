import CHomework.Lib.Utf8
import CHomework.UtfEncoder.Model

namespace CHomework.UtfEncoder

open CHomework.Buffer
open CHomework.CString
open CHomework.Utf8

inductive CodePage where
  | cp1251
  | koi8
  | iso8859_5
  deriving DecidableEq

namespace CodePage

def name : CodePage → CStr
  | cp1251 => cp1251Name
  | koi8 => koi8Name
  | iso8859_5 => iso8859_5Name

def map : CodePage → List UInt16
  | cp1251 => cp1251Map
  | koi8 => koi8Map
  | iso8859_5 => iso8859_5Map

def codePoint (page : CodePage) (b : UInt8) : UInt16 := page.map.getD b.toNat 0

/-- The text that the input stands for. -/
def chars (page : CodePage) (input : List UInt8) : List Char :=
  input.map fun b => charOf (page.codePoint b)

theorem codePage_name (page : CodePage) : codePage page.name = .ok page.map := by
  cases page
  · rfl
  · rfl
  · rfl

end CodePage

def piece (encodingChar : UInt8) (unicodeChar : UInt16) : List UInt8 :=
  if unicodeChar ≤ 0x7f then [encodingChar] else twoBytes unicodeChar

theorem piece_ne_nil (encodingChar : UInt8) (unicodeChar : UInt16) :
    piece encodingChar unicodeChar ≠ [] := by
  rw [piece]
  split
  · exact List.cons_ne_nil _ _
  · exact List.cons_ne_nil _ _

theorem encodeChar_eq (result : UtfFile) (encodingChar : UInt8) (unicodeChar : UInt16) :
    encodeChar result encodingChar unicodeChar =
      if unicodeChar ≤ 0x7ff then .ok (result.append (piece encodingChar unicodeChar))
      else .error "Encoding isn't support yet." := by
  simp only [encodeChar, piece, gt_iff_lt, UInt16.le_iff_toNat_le, UInt16.lt_iff_toNat_lt,
    UInt16.reduceToNat]
  rcases (Nat.lt_or_ge 127 unicodeChar.toNat).symm with hascii | hge
  · have hnot : ¬ 128 ≤ unicodeChar.toNat := by omega
    have hle : unicodeChar.toNat ≤ 2047 := by omega
    simp [hascii, hnot, hle]
  · have hascii : ¬ unicodeChar.toNat ≤ 127 := by omega
    have hge : 128 ≤ unicodeChar.toNat := by omega
    rcases (Nat.lt_or_ge 2047 unicodeChar.toNat).symm with hle | hgt
    · have hnot : ¬ 2047 < unicodeChar.toNat := by omega
      simp [hascii, hge, hle, hnot, twoBytes]
    · have hnot : ¬ unicodeChar.toNat ≤ 2047 := by omega
      simp [hgt, hnot]

def filled (bytes : List UInt8) : UtfFile where
  content := bytes.map some
  size := bytes.length

theorem append_filled (bytes more : List UInt8) :
    (filled bytes).append more = filled (bytes ++ more) := by
  have hcontent := overwrite_realloc none (bytes.map some) (more.map some)
  rw [List.length_map, List.length_map] at hcontent
  simp only [UtfFile.append, filled, Nat.add_sub_cancel, hcontent, List.map_append,
    List.length_append]

def emission (page : CodePage) (input : List UInt8) : List UInt8 :=
  input.flatMap fun b => piece b (page.codePoint b)

theorem emission_eq_nil_iff (page : CodePage) (input : List UInt8) :
    emission page input = [] ↔ input = [] := by
  constructor
  · intro h
    cases input with
    | nil => rfl
    | cons b input => exact absurd (List.append_eq_nil_iff.mp h).1 (piece_ne_nil _ _)
  · rintro rfl
    rfl

/-- The loop appends the emission of the rest of the input, as long as all code
points of it are in reach. -/
theorem encodeLoop_filled (page : CodePage) {input : List UInt8} (bytes : List UInt8)
    (h : ∀ b ∈ input, page.codePoint b ≤ 0x7ff) :
    encodeLoop page.map input (filled bytes) = .ok (filled (bytes ++ emission page input)) := by
  induction input generalizing bytes with
  | nil => simp [encodeLoop, emission]
  | cons b input ih =>
      rcases List.forall_mem_cons.mp h with ⟨hb, hrest⟩
      rw [encodeLoop, encodeChar_eq]
      show (if page.codePoint b ≤ 0x7ff then Except.ok ((filled bytes).append
        (piece b (page.codePoint b))) else _) >>= encodeLoop page.map input = _
      rw [if_pos hb, append_filled]
      show encodeLoop page.map input _ = _
      rw [ih _ hrest, List.append_assoc, emission, emission, List.flatMap_cons]

theorem encodeLoop_error (page : CodePage) {input : List UInt8} {b : UInt8} (hb : b ∈ input)
    (h : ¬ page.codePoint b ≤ 0x7ff) (result : UtfFile) :
    encodeLoop page.map input result = .error "Encoding isn't support yet." := by
  induction input generalizing result with
  | nil => simp at hb
  | cons c input ih =>
      rw [encodeLoop, encodeChar_eq]
      show (if page.codePoint c ≤ 0x7ff then Except.ok (result.append
        (piece c (page.codePoint c))) else _) >>= encodeLoop page.map input = _
      split
      · rename_i hc
        rcases List.mem_cons.mp hb with rfl | hmem
        · exact absurd hc h
        · exact ih hmem _
      · rfl

/-- The terminator is stored one cell too far, and the cell before it is left
as it was allocated. -/
theorem terminate_filled (bytes : List UInt8) :
    (filled bytes).terminate =
      { content := bytes.map some ++ [none, some 0], size := bytes.length + 1 } := by
  have hrealloc : realloc none (bytes.length + 1 + 1) (bytes.map some) =
      bytes.map some ++ [none, none] := by
    have hle : (bytes.map some).length ≤ bytes.length + 1 + 1 := by
      rw [List.length_map]
      omega
    rw [realloc_of_le none hle, List.length_map, Nat.add_assoc, Nat.add_sub_cancel_left]
    rfl
  simp only [UtfFile.terminate, filled, hrealloc]
  rw [List.set_append_right _ _ (by simp)]
  simp

theorem encodingToUtf8_of_le {page : CodePage} {input : List UInt8}
    (h : ∀ b ∈ input, page.codePoint b ≤ 0x7ff) :
    encodingToUtf8 page.name input = .ok (filled (emission page input)).terminate := by
  rw [encodingToUtf8, page.codePage_name]
  show encodeLoop page.map input (filled []) >>= _ = _
  rw [encodeLoop_filled page [] h]
  rfl

theorem encodingToUtf8_error {page : CodePage} {input : List UInt8} {b : UInt8}
    (hb : b ∈ input) (h : ¬ page.codePoint b ≤ 0x7ff) :
    encodingToUtf8 page.name input = .error "Encoding isn't support yet." := by
  rw [encodingToUtf8, page.codePage_name]
  show encodeLoop page.map input _ >>= _ = _
  rw [encodeLoop_error page hb h]
  rfl

/-- The bytes that count as output: all but the last one of the stated size. -/
def UtfFile.emitted (f : UtfFile) : List (Option UInt8) := f.content.take (f.size - 1)

theorem emitted_terminate_filled (bytes : List UInt8) :
    (filled bytes).terminate.emitted = bytes.map some := by
  rw [terminate_filled, UtfFile.emitted]
  simp

/-- The input is accepted when all its code points are in reach, and the output
is then the UTF-8 encoding of the text, which a decoder gives back. -/
structure Converts (page : CodePage) (input : List UInt8) : Prop where
  accepts_iff : (∃ f, encodingToUtf8 page.name input = .ok f) ↔
    ∀ b ∈ input, page.codePoint b ≤ 0x7ff
  emits : ∀ f, encodingToUtf8 page.name input = .ok f →
    f.emitted = ((page.chars input).flatMap String.utf8EncodeChar).map some
  decodes : ∀ (f : UtfFile) (bytes : List UInt8), encodingToUtf8 page.name input = .ok f →
    f.emitted = bytes.map some →
      ∃ text, bytes.toByteArray.utf8Decode? = some text ∧
        text.toList.map Char.toNat = input.map fun b => (page.codePoint b).toNat

theorem accepts_iff_codePoint_le (page : CodePage) (input : List UInt8) :
    (∃ f, encodingToUtf8 page.name input = .ok f) ↔
      ∀ b ∈ input, page.codePoint b ≤ 0x7ff := by
  constructor
  · rintro ⟨f, hf⟩ b hb
    by_contra hgt
    rw [encodingToUtf8_error hb hgt] at hf
    cases hf
  · intro h
    exact ⟨_, encodingToUtf8_of_le h⟩

/-- Where a table maps an index into ASCII, it maps it to itself, with one
exception. -/
theorem map_getD_eq_iff (page : CodePage) : ∀ i < 256, page.map.getD i 0 ≤ 0x7f →
    ((page.map.getD i 0).toNat = i ↔ ¬ (page = .cp1251 ∧ i = 0x98)) := by
  cases page with
  | cp1251 => decide +kernel
  | koi8 => decide +kernel
  | iso8859_5 => decide +kernel

theorem toUInt8_codePoint_eq_iff {page : CodePage} {b : UInt8}
    (h : page.codePoint b ≤ 0x7f) :
    (page.codePoint b).toUInt8 = b ↔ ¬ (page = .cp1251 ∧ b = 0x98) := by
  have hle : (page.codePoint b).toNat ≤ 0x7f := UInt16.le_iff_toNat_le.mp h
  have htoNat : (page.codePoint b).toUInt8.toNat = (page.codePoint b).toNat := by
    rw [UInt16.toNat_toUInt8]
    omega
  have hbyte : b = 0x98 ↔ b.toNat = 0x98 := UInt8.toNat_inj.symm
  rw [← UInt8.toNat_inj, htoNat, hbyte]
  exact map_getD_eq_iff page b.toNat b.toNat_lt h

theorem codePoint_cp1251_undefined : CodePage.codePoint .cp1251 0x98 = 0 := by
  decide +kernel

theorem piece_eq_iff {page : CodePage} {b : UInt8} (h : page.codePoint b ≤ 0x7ff) :
    piece b (page.codePoint b) = String.utf8EncodeChar (charOf (page.codePoint b)) ↔
      ¬ (page = .cp1251 ∧ b = 0x98) := by
  rw [piece]
  split
  · rename_i hascii
    rw [utf8EncodeChar_of_le hascii, ← toUInt8_codePoint_eq_iff hascii, List.singleton_inj,
      eq_comm]
  · rename_i hascii
    have hlow : 0x7f < page.codePoint b := UInt16.not_le.mp hascii
    rw [utf8EncodeChar_of_lt hlow h]
    simp only [true_iff]
    rintro ⟨rfl, rfl⟩
    rw [codePoint_cp1251_undefined] at hascii
    exact hascii (by decide)

theorem length_piece {page : CodePage} {b : UInt8} (h : page.codePoint b ≤ 0x7ff) :
    (piece b (page.codePoint b)).length =
      (String.utf8EncodeChar (charOf (page.codePoint b))).length := by
  rw [piece]
  split
  · rename_i hascii
    rw [utf8EncodeChar_of_le hascii]
    rfl
  · rename_i hascii
    rw [utf8EncodeChar_of_lt (UInt16.not_le.mp hascii) h]

/-- An accepted input is turned into its UTF-8 encoding when no byte of it is
undefined. The pieces agree in length, so the bytes agree piece by piece. -/
theorem emission_eq_iff {page : CodePage} {input : List UInt8}
    (h : ∀ b ∈ input, page.codePoint b ≤ 0x7ff) :
    emission page input = (page.chars input).flatMap String.utf8EncodeChar ↔
      ¬ (page = .cp1251 ∧ (0x98 : UInt8) ∈ input) := by
  rw [emission, CodePage.chars, List.flatMap_map,
    flatMap_eq_flatMap_iff fun b hb => length_piece (h b hb)]
  constructor
  · rintro hpieces ⟨rfl, hmem⟩
    exact (piece_eq_iff (h _ hmem)).mp (hpieces _ hmem) ⟨rfl, rfl⟩
  · intro hdefined b hb
    rw [piece_eq_iff (h b hb)]
    rintro ⟨hpage, rfl⟩
    exact hdefined ⟨hpage, hb⟩

theorem toNat_chars {page : CodePage} {input : List UInt8}
    (h : ∀ b ∈ input, page.codePoint b ≤ 0x7ff) :
    (page.chars input).map Char.toNat = input.map fun b => (page.codePoint b).toNat := by
  rw [CodePage.chars, List.map_map]
  apply List.map_congr_left
  intro b hb
  exact toNat_charOf (h b hb)

theorem map_some_inj {s t : List UInt8} (h : s.map some = t.map some) : s = t :=
  List.map_injective_iff.mpr (Option.some_injective _) h

theorem eq_of_encodingToUtf8 {page : CodePage} {input : List UInt8} {f : UtfFile}
    (h : encodingToUtf8 page.name input = .ok f) :
    (∀ b ∈ input, page.codePoint b ≤ 0x7ff) ∧ f.emitted = (emission page input).map some := by
  have hreach := (accepts_iff_codePoint_le page input).mp ⟨f, h⟩
  rw [encodingToUtf8_of_le hreach, Except.ok.injEq] at h
  refine ⟨hreach, ?_⟩
  rw [← h, emitted_terminate_filled]

/-- The conversion is right except on accepted cp1251 text with the undefined
byte `0x98`. -/
theorem converts_iff (page : CodePage) (input : List UInt8) :
    Converts page input ↔
      ¬ (page = .cp1251 ∧ (0x98 : UInt8) ∈ input ∧
        ∀ b ∈ input, page.codePoint b ≤ 0x7ff) := by
  constructor
  · rintro hconverts ⟨hpage, hmem, hreach⟩
    rcases hconverts.accepts_iff.mpr hreach with ⟨f, hf⟩
    have hemits := hconverts.emits f hf
    rw [(eq_of_encodingToUtf8 hf).2] at hemits
    exact (emission_eq_iff hreach).mp (map_some_inj hemits) ⟨hpage, hmem⟩
  · intro hdefined
    have hemission : ∀ f, encodingToUtf8 page.name input = .ok f →
        f.emitted = ((page.chars input).flatMap String.utf8EncodeChar).map some := by
      intro f hf
      rcases eq_of_encodingToUtf8 hf with ⟨hreach, hemitted⟩
      rw [hemitted, (emission_eq_iff hreach).mpr]
      rintro ⟨hpage, hmem⟩
      exact hdefined ⟨hpage, hmem, hreach⟩
    refine ⟨accepts_iff_codePoint_le page input, hemission, ?_⟩
    intro f bytes hf hbytes
    rw [hemission f hf] at hbytes
    refine ⟨(page.chars input).toArray, ?_, ?_⟩
    · rw [← map_some_inj hbytes]
      exact List.utf8Decode?_utf8Encode
    · rw [List.toList_toArray]
      exact toNat_chars (eq_of_encodingToUtf8 hf).1

/-- The undefined byte of cp1251 goes to the output as it is. -/
theorem not_converts_of_undefined : ¬ ∀ page input, Converts page input := by
  intro h
  have hf : encodingToUtf8 CodePage.cp1251.name [0x98] =
      .ok { content := [some 0x98, none, some 0], size := 2 } := by
    decide +kernel
  have hemits := (h .cp1251 [0x98]).emits _ hf
  revert hemits
  decide +kernel

end CHomework.UtfEncoder
