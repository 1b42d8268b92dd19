import CHomework.CJson.RoundTrip

namespace CHomework.CJson

open CHomework.Buffer CHomework.CString CHomework.Json

/-- A byte that stands for itself. -/
theorem escapeByte_of_plain {byte : UInt8}
    (h : 31 < byte ∧ byte ≠ '"'.toUInt8 ∧ byte ≠ '\\'.toUInt8) : escapeByte byte = [byte] :=
  if_pos h

theorem escapeText_of_plain {bytes : List UInt8}
    (h : ∀ byte ∈ bytes, 31 < byte ∧ byte ≠ '"'.toUInt8 ∧ byte ≠ '\\'.toUInt8) :
    escapeText bytes = bytes := by
  induction bytes with
  | nil => rfl
  | cons byte bytes ih =>
      obtain ⟨hbyte, hbytes⟩ := List.forall_mem_cons.mp h
      rw [escapeText, List.flatMap_cons, ← escapeText, ih hbytes, escapeByte_of_plain hbyte]
      rfl

/-- The bytes of a character that is not escaped are not escaped either. -/
theorem plain_of_mem_utf8EncodeChar {c : Char} (hlow : 0x20 ≤ c.toNat) (hquote : c ≠ '"')
    (hescape : c ≠ '\\') {byte : UInt8} (h : byte ∈ String.utf8EncodeChar c) :
    31 < byte ∧ byte ≠ '"'.toUInt8 ∧ byte ≠ '\\'.toUInt8 := by
  refine ⟨?_, ?_, ?_⟩
  · rw [UInt8.lt_iff_toNat_lt]
    show 31 < byte.toNat
    by_contra hbyte
    have hc := toNat_of_mem_utf8EncodeChar h (by omega)
    omega
  · rintro rfl
    exact hquote (Char.toNat_inj.mp (toNat_of_mem_utf8EncodeChar h (by decide)).symm)
  · rintro rfl
    exact hescape (Char.toNat_inj.mp (toNat_of_mem_utf8EncodeChar h (by decide)).symm)

theorem charText_escapeText (c : Char) : CharText (escapeText (String.utf8EncodeChar c)) c := by
  by_cases hplain : 0x20 ≤ c.toNat ∧ c ≠ '"' ∧ c ≠ '\\'
  · obtain ⟨hlow, hquote, hescape⟩ := hplain
    rw [escapeText_of_plain fun byte hbyte =>
      plain_of_mem_utf8EncodeChar hlow hquote hescape hbyte]
    exact .plain hlow hquote hescape
  by_cases hquote : c = '"'
  · subst hquote
    exact .letter (by decide : ('"', '"') ∈ escapes)
  by_cases hescape : c = '\\'
  · subst hescape
    exact .letter (by decide : ('\\', '\\') ∈ escapes)
  have hlow : c.toNat < 0x20 := by
    by_contra hlow
    exact hplain ⟨by omega, hquote, hescape⟩
  have hall : ∀ n < 0x20,
      (∃ p ∈ escapes, p.2 = Char.ofNat n ∧
        escapeText (String.utf8EncodeChar (Char.ofNat n)) = escaped p.1.toUInt8 []) ∨
      escapeText (String.utf8EncodeChar (Char.ofNat n)) =
        '\\'.toUInt8 :: codePointText (UInt8.ofNat n) := by
    decide
  have hescaped := hall c.toNat hlow
  rw [Char.ofNat_toNat] at hescaped
  rcases hescaped with ⟨⟨letter, _⟩, hletter, rfl, htext⟩ | htext
  · rw [htext]
    exact .letter hletter
  · have htoNat : (UInt8.ofNat c.toNat).toNat = c.toNat := by
      rw [UInt8.toNat_ofNat', Nat.mod_eq_of_lt (by omega)]
    have hchar := (charText_codePointText (by omega : (UInt8.ofNat c.toNat).toNat < 0x20)).1
    rw [htoNat, Char.ofNat_toNat] at hchar
    rw [htext]
    exact hchar

theorem stringText_escapeText (chars : List Char) :
    StringText (escapeText (chars.flatMap String.utf8EncodeChar)) chars := by
  induction chars with
  | nil => exact .nil
  | cons c chars ih =>
      rw [List.flatMap_cons, escapeText, List.flatMap_append]
      exact .cons (charText_escapeText c) ih

theorem head?_digits_ne {n : Nat} (h : 0 < n) :
    ((Nat.toDigits 10 n).map Char.toUInt8).head? ≠ some '0'.toUInt8 := by
  induction n using Nat.strong_induction_on with
  | h n ih =>
      rcases Nat.lt_or_ge n 10 with hlt | hge
      · have hall : ∀ n < 10, 0 < n →
            ([n.digitChar].map Char.toUInt8).head? ≠ some '0'.toUInt8 := by
          decide
        rw [Nat.toDigits_of_lt_base hlt]
        exact hall n hlt h
      · have hhead := ih (n / 10) (Nat.div_lt_self h (by decide)) (Nat.div_pos hge (by decide))
        rw [Nat.toDigits_of_base_le (by decide) hge]
        cases hdigits : Nat.toDigits 10 (n / 10) with
        | nil => exact absurd hdigits Nat.toDigits_ne_nil
        | cons c digits =>
            rw [hdigits] at hhead
            exact hhead

theorem exists_number_decimal (n : Int32) : ∃ x : Json.Number, x.text = decimal n := by
  refine ⟨{
    sign := if n.toInt < 0 then ['-'.toUInt8] else []
    integer := (Nat.toDigits 10 n.toInt.natAbs).map Char.toUInt8
    fraction := []
    exponent := []
    sign_eq := ?_
    digits := ⟨?_, ?_⟩
    noZero := ?_
    fraction_eq := Or.inl rfl
    exponent_eq := Or.inl rfl }, ?_⟩
  · split
    · exact Or.inr rfl
    · exact Or.inl rfl
  · simp
  · rw [List.forall_mem_map]
    exact fun c hc => digit_of_mem_toDigits hc
  · rcases Nat.eq_zero_or_pos n.toInt.natAbs with hzero | hpos
    · rw [hzero]
      exact Or.inl rfl
    · exact Or.inr (head?_digits_ne hpos)
  · simp [Json.Number.text, decimal]

section Values

variable {D : Type} {num : Numbers D} {fmt : Formats D}

/-- `printf` prints standard numbers. -/
structure PrintsNumbers (fmt : Formats D) : Prop where
  g15 : ∀ d, fmt.isNanOrInf d = false → ∃ x : Json.Number, x.text = (fmt.g15 d).bytes
  g17 : ∀ d, fmt.isNanOrInf d = false → ∃ x : Json.Number, x.text = (fmt.g17 d).bytes

theorem exists_number_numberText (h : PrintsNumbers fmt) {x : Number D}
    (hfinite : fmt.isNanOrInf x.valuedouble = false) :
    ∃ number : Json.Number, number.text = numberText num fmt x := by
  rw [numberText, hfinite]
  simp only [Bool.false_eq_true, if_false]
  split
  · exact exists_number_decimal _
  · split
    · exact h.g17 _ hfinite
    · exact h.g15 _ hfinite

/-- A string is UTF-8, up to its first NUL. -/
def IsUtf8 (s : List UInt8) : Prop :=
  ∃ chars : List Char, (ofBuffer s).bytes = chars.flatMap String.utf8EncodeChar

open Classical in
noncomputable def decodeUtf8 (s : List UInt8) : List Char :=
  if h : IsUtf8 s then h.choose else []

theorem flatMap_decodeUtf8 {s : List UInt8} (h : IsUtf8 s) :
    (decodeUtf8 s).flatMap String.utf8EncodeChar = (ofBuffer s).bytes := by
  rw [decodeUtf8, dif_pos h]
  exact h.choose_spec.symm

theorem readsAs_standard (h : PrintsNumbers fmt) :
    ReadsAs num fmt (standard 25) IsUtf8 decodeUtf8 fun x =>
      if fmt.isNanOrInf x.valuedouble then .null else .number (numberText num fmt x) where
  space _ hbyte := hbyte
  string s hs := by
    rw [← flatMap_decodeUtf8 hs]
    exact stringText_escapeText _
  number x n := by
    cases hfinite : fmt.isNanOrInf x.valuedouble with
    | true =>
        rw [numberText, hfinite]
        exact .null
    | false =>
        exact .number ⟨rfl, (numberText_cases num fmt x).1, exists_number_numberText h hfinite⟩

end Values

theorem printsNumbers_textFormats : PrintsNumbers textFormats := by
  have hg15 : ∀ text, textFormats.isNanOrInf text = false →
      ∃ x : Json.Number, x.text = (textFormats.g15 text).bytes := by
    intro text h
    obtain ⟨n, hn⟩ := g15_textFormats h
    rw [hn]
    exact exists_number_decimal n
  exact ⟨hg15, hg15⟩

end CHomework.CJson
