import CHomework.CJson.Grammar
import CHomework.CJson.Standard

namespace CHomework.CJson

open CHomework.Buffer CHomework.CString CHomework.Json

/-- A code point is printed as an escape of this character. -/
theorem charText_codePointText {byte : UInt8} (h : byte.toNat < 0x20) :
    CharText ('\\'.toUInt8 :: codePointText byte) (Char.ofNat byte.toNat) ∧
      String.utf8EncodeChar (Char.ofNat byte.toNat) = [byte] := by
  have hchar : ∀ n < 0x20, (Char.ofNat n).toNat = n ∧
      String.utf8EncodeChar (Char.ofNat n) = [UInt8.ofNat n] := by
    decide
  obtain ⟨hnat, hencode⟩ := hchar byte.toNat h
  rw [UInt8.ofNat_toNat] at hencode
  have hunit := CodeUnit.mk (a := 0) (b := 0) (c := byte.toNat / 16) (d := byte.toNat % 16)
    ⟨by decide, Or.inl rfl⟩ ⟨by decide, Or.inl rfl⟩ ⟨by omega, Or.inl rfl⟩ ⟨by omega, Or.inl rfl⟩
  have hsum : ((0 * 16 + 0) * 16 + byte.toNat / 16) * 16 + byte.toNat % 16 =
      (Char.ofNat byte.toNat).toNat := by
    rw [hnat]
    omega
  rw [hsum] at hunit
  exact ⟨.unit hunit, hencode⟩

/-- A byte behind its escape in front of a string. -/
theorem isString_escapeByte (byte : UInt8) {t s : List UInt8} (h : IsString t s) :
    IsString (escapeByte byte ++ t) (byte :: s) := by
  rw [escapeByte]
  split
  · rename_i hplain
    exact ⟨.plain hplain.2.1 hplain.2.2 h.1, by
      rw [List.singleton_append, unescape_plain hplain.2.2, h.2, Option.map_some]⟩
  · rename_i hplain
    cases hletter : escapeLetter byte with
    | some letter =>
        have hall : ∀ byte : UInt8, ∀ letter ∈ escapeLetter byte,
            letter ≠ 'u'.toUInt8 ∧ unescaped letter = some byte :=
          forall_byte (by decide +kernel)
        obtain ⟨hu, hunescaped⟩ := hall byte letter hletter
        exact isString_letter hu hunescaped h
    | none =>
        have hall : ∀ byte : UInt8, ¬ (31 < byte ∧ byte ≠ '"'.toUInt8 ∧ byte ≠ '\\'.toUInt8) →
            escapeLetter byte = none → byte.toNat < 0x20 :=
          forall_byte (by decide +kernel)
        obtain ⟨hchar, hencode⟩ := charText_codePointText (hall byte hplain hletter)
        have hstring := isString_charText hchar h
        rw [hencode] at hstring
        exact hstring

/-- A string is printed as a text that is read back as this string. -/
theorem isString_escapeText (bytes : List UInt8) : IsString (escapeText bytes) bytes := by
  induction bytes with
  | nil => exact ⟨.nil, by rw [escapeText, List.flatMap_nil, unescape]⟩
  | cons byte bytes ih =>
      rw [escapeText, List.flatMap_cons, ← escapeText]
      exact isString_escapeByte byte ih

section Values

variable {D : Type} (num : Numbers D) (fmt : Formats D)

/-- `strtod` reads every number that is printed as a whole. -/
structure ReadsBack : Prop where
  decimal : ∀ n, (num.strtod (decimal n)).2 = (decimal n).length
  g15 : ∀ d, fmt.isNanOrInf d = false →
    IsNumber num (fmt.g15 d).bytes (num.number (num.strtod (fmt.g15 d).bytes).1)
  g17 : ∀ d, fmt.isNanOrInf d = false →
    IsNumber num (fmt.g17 d).bytes (num.number (num.strtod (fmt.g17 d).bytes).1)

theorem startsNumber_decimal (n : Int32) : ∀ byte ∈ decimal n, StartsNumber byte := by
  have hdigits : ∀ byte ∈ (Nat.toDigits 10 n.toInt.natAbs).map Char.toUInt8,
      StartsNumber byte := by
    rw [List.forall_mem_map]
    exact fun c hc => Or.inr (digit_of_mem_toDigits hc)
  rw [decimal, List.forall_mem_append]
  refine ⟨fun byte hbyte => ?_, hdigits⟩
  split at hbyte
  · exact Or.inl (List.mem_singleton.mp hbyte)
  · cases hbyte

theorem isNumber_decimal {n : Int32} (h : (num.strtod (decimal n)).2 = (decimal n).length) :
    IsNumber num (decimal n) (num.number (num.strtod (decimal n)).1) := by
  have hne : decimal n ≠ [] := by
    rw [decimal]
    exact List.append_ne_nil_of_right_ne_nil _ (by simp)
  refine ⟨⟨_, List.head?_eq_some_head hne, startsNumber_decimal n _ (List.head_mem hne)⟩,
    fun byte hbyte => ?_, Nat.le_trans (length_decimal_le n) (by decide), h, rfl⟩
  exact isNumberByte_of_startsNumber (startsNumber_decimal n byte hbyte)

variable {num fmt}

theorem isNumber_numberText (h : ReadsBack num fmt) {x : Number D}
    (hfinite : fmt.isNanOrInf x.valuedouble = false) :
    IsNumber num (numberText num fmt x)
      (num.number (num.strtod (numberText num fmt x)).1) := by
  rw [numberText, hfinite]
  simp only [Bool.false_eq_true, if_false]
  split
  · exact isNumber_decimal num (h.decimal _)
  · split
    · exact h.g17 _ hfinite
    · exact h.g15 _ hfinite

/-- The item that is read back: a string ends at its first NUL, a number is the one that its
text stands for, and there is no text for infinity and NaN. -/
def reread (num : Numbers D) (fmt : Formats D) : Item D → Item D :=
  readAs (fun s => (ofBuffer s).bytes) fun x =>
    if fmt.isNanOrInf x.valuedouble then .null
    else .number (num.number (num.strtod (numberText num fmt x)).1)

theorem readsAs_lexis (h : ReadsBack num fmt) :
    ReadsAs num fmt (lexis num) (fun _ => True) (fun s => (ofBuffer s).bytes) fun x =>
      if fmt.isNanOrInf x.valuedouble then .null
      else .number (num.number (num.strtod (numberText num fmt x)).1) where
  space _ := isSpace_of_standard
  string s _ := isString_escapeText (ofBuffer s).bytes
  number x n := by
    cases hfinite : fmt.isNanOrInf x.valuedouble with
    | true =>
        rw [numberText, hfinite]
        exact .null
    | false => exact .number (isNumber_numberText h hfinite)

end Values

theorem g15_textFormats {text : List UInt8} (h : textFormats.isNanOrInf text = false) :
    ∃ n, (textFormats.g15 text).bytes = decimal n := by
  obtain ⟨n, rfl⟩ : ∃ n, text = decimal n := ⟨_, not_not.mp (of_decide_eq_false h)⟩
  refine ⟨n, ?_⟩
  show ((decimal n).take 25).takeWhile (· != 0) = decimal n
  rw [List.take_of_length_le (Nat.le_trans (length_decimal_le n) (by decide)),
    List.takeWhile_eq_self_iff]
  intro byte hbyte
  have hne : byte ≠ 0 := by
    rintro rfl
    exact zero_notMem_decimal _ hbyte
  simp [hne]

theorem readsBack_textFormats : ReadsBack textNumbers textFormats := by
  have hdecimal : ∀ n, (textNumbers.strtod (decimal n)).2 = (decimal n).length := by
    intro n
    have hall : ∀ byte ∈ decimal n, isNumberByte byte = true := fun byte hbyte =>
      isNumberByte_of_startsNumber (startsNumber_decimal n byte hbyte)
    exact congrArg List.length (List.takeWhile_eq_self_iff.mpr hall)
  have hg15 : ∀ text, textFormats.isNanOrInf text = false →
      IsNumber textNumbers (textFormats.g15 text).bytes
        (textNumbers.number (textNumbers.strtod (textFormats.g15 text).bytes).1) := by
    intro text h
    obtain ⟨n, hn⟩ := g15_textFormats h
    rw [hn]
    exact isNumber_decimal textNumbers (hdecimal n)
  exact ⟨hdecimal, hg15, hg15⟩

end CHomework.CJson
