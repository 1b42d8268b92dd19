import CHomework.CJson.Complete
import CHomework.Lib.LittleEndian

namespace CHomework.CJson

open CHomework.Buffer CHomework.CString CHomework.Json CHomework.LittleEndian

theorem continuation_eq (codepoint : Nat) :
    (codepoint ||| 0x80) &&& 0xbf = codepoint % 0x40 + 0x80 := by
  have hsmall : ∀ x < 2 ^ 8, (x ||| 0x80) &&& 0xbf = x % 0x40 + 0x80 := by decide +kernel
  have hmod : (codepoint ||| 0x80) &&& 0xbf = (codepoint % 2 ^ 8 ||| 0x80) &&& 0xbf := by
    apply Nat.eq_of_testBit_eq
    intro i
    simp only [Nat.testBit_and, Nat.testBit_or, Nat.testBit_mod_two_pow]
    rcases Nat.lt_or_ge i 8 with hi | hi
    · simp [hi]
    · have hlow : 0xbf < 2 ^ i :=
        Nat.lt_of_lt_of_le (by decide) (Nat.pow_le_pow_right (by decide) hi)
      simp [Nat.testBit_lt_two_pow hlow]
  rw [hmod, hsmall _ (Nat.mod_lt _ (by decide))]
  omega

theorem encodeUtf8_one {codepoint : Nat} (h : codepoint < 0x80) :
    encodeUtf8 1 0 codepoint = [UInt8.ofNat codepoint] := by
  have hmask : codepoint &&& 0x7f = codepoint := by
    rw [show 0x7f = 2 ^ 7 - 1 from rfl, Nat.and_two_pow_sub_one_eq_mod, Nat.mod_eq_of_lt h]
  rw [encodeUtf8, if_neg (by decide)]
  exact congrArg (fun n => [UInt8.ofNat n]) hmask

theorem encodeUtf8_two {codepoint : Nat} (h : codepoint < 0x800) :
    encodeUtf8 2 0xc0 codepoint =
      [UInt8.ofNat (codepoint / 64 % 0x20 + 0xc0), UInt8.ofNat (codepoint % 0x40 + 0x80)] := by
  have hfirst : ∀ x < 0x20, (x ||| 0xc0) &&& 0xff = x % 0x20 + 0xc0 := by decide
  rw [encodeUtf8, if_pos (by decide)]
  simp only [encodeContinuation, continuation_eq, Nat.shiftRight_eq_div_pow]
  rw [hfirst _ (by omega)]

theorem encodeUtf8_three {codepoint : Nat} (h : codepoint < 0x10000) :
    encodeUtf8 3 0xe0 codepoint =
      [UInt8.ofNat (codepoint / 4096 % 0x10 + 0xe0), UInt8.ofNat (codepoint / 64 % 0x40 + 0x80),
        UInt8.ofNat (codepoint % 0x40 + 0x80)] := by
  have hfirst : ∀ x < 0x10, (x ||| 0xe0) &&& 0xff = x % 0x10 + 0xe0 := by decide
  rw [encodeUtf8, if_pos (by decide)]
  simp only [encodeContinuation, continuation_eq, Nat.shiftRight_eq_div_pow, Nat.div_div_eq_div_mul]
  rw [hfirst _ (by omega)]

theorem encodeUtf8_four {codepoint : Nat} (h : codepoint ≤ 0x10ffff) :
    encodeUtf8 4 0xf0 codepoint =
      [UInt8.ofNat (codepoint / 262144 % 0x08 + 0xf0),
        UInt8.ofNat (codepoint / 4096 % 0x40 + 0x80), UInt8.ofNat (codepoint / 64 % 0x40 + 0x80),
        UInt8.ofNat (codepoint % 0x40 + 0x80)] := by
  have hfirst : ∀ x < 0x08, (x ||| 0xf0) &&& 0xff = x % 0x08 + 0xf0 := by decide
  rw [encodeUtf8, if_pos (by decide)]
  simp only [encodeContinuation, continuation_eq, Nat.shiftRight_eq_div_pow, Nat.div_div_eq_div_mul]
  rw [hfirst _ (by omega)]

/-- The encoder agrees with the one of the core library. -/
theorem utf8Bytes_toNat (c : Char) : utf8Bytes c.toNat = some (String.utf8EncodeChar c) := by
  have hvalid : c.toNat < 0x110000 := by
    rcases c.valid with hlow | ⟨-, hhigh⟩
    · have hlt : c.toNat < 0xd800 := hlow
      omega
    · exact hhigh
  have hval : c.val.toNat = c.toNat := rfl
  rw [utf8Bytes, String.utf8EncodeChar]
  simp only [hval]
  rcases Nat.lt_or_ge c.toNat 0x80 with h1 | h1
  · rw [if_pos h1, if_pos (by omega), encodeUtf8_one h1]
  rw [if_neg (Nat.not_lt.mpr h1), if_neg (show ¬ c.toNat ≤ 0x7f by omega)]
  rcases Nat.lt_or_ge c.toNat 0x800 with h2 | h2
  · rw [if_pos h2, if_pos (by omega), encodeUtf8_two h2]
  rw [if_neg (Nat.not_lt.mpr h2), if_neg (show ¬ c.toNat ≤ 0x7ff by omega)]
  rcases Nat.lt_or_ge c.toNat 0x10000 with h3 | h3
  · rw [if_pos h3, if_pos (by omega), encodeUtf8_three h3]
  rw [if_neg (Nat.not_lt.mpr h3), if_neg (show ¬ c.toNat ≤ 0xffff by omega), if_pos (by omega),
    encodeUtf8_four (by omega)]

/-- Where a byte of a character is no part of a longer sequence, it is the character. -/
theorem toNat_of_mem_utf8EncodeChar {c : Char} {byte : UInt8}
    (h : byte ∈ String.utf8EncodeChar c) (hbyte : byte.toNat < 0x80) : byte.toNat = c.toNat := by
  have hval : c.val.toNat = c.toNat := rfl
  have hhigh : ∀ n, 0x80 ≤ n → n < 0x100 → byte ≠ UInt8.ofNat n := by
    rintro n hlow hhigh rfl
    rw [UInt8.toNat_ofNat', Nat.mod_eq_of_lt hhigh] at hbyte
    omega
  have hclass : ∀ x, x < 0x80 → byte ≠ UInt8.ofNat (x + 0x80) :=
    fun x hx => hhigh _ (Nat.le_add_left _ _) (by omega)
  simp only [String.utf8EncodeChar, hval] at h
  split at h
  · rw [List.mem_singleton] at h
    rw [h, UInt8.toNat_ofNat', Nat.mod_eq_of_lt (by omega)]
  split at h
  · simp only [List.mem_cons, List.not_mem_nil, or_false] at h
    rcases h with h | h
    · exact absurd h (hhigh _ (by omega) (by omega))
    · exact absurd h (hclass _ (by omega))
  split at h
  · simp only [List.mem_cons, List.not_mem_nil, or_false] at h
    rcases h with h | h | h
    · exact absurd h (hhigh _ (by omega) (by omega))
    · exact absurd h (hclass _ (by omega))
    · exact absurd h (hclass _ (by omega))
  · simp only [List.mem_cons, List.not_mem_nil, or_false] at h
    rcases h with h | h | h | h
    · exact absurd h (hhigh _ (by omega) (by omega))
    · exact absurd h (hclass _ (by omega))
    · exact absurd h (hclass _ (by omega))
    · exact absurd h (hclass _ (by omega))

theorem hexDigit_of_hexDigit {byte : UInt8} {digit : Nat} (h : HexDigit byte digit) :
    hexDigit byte = some digit := by
  have hlower : ∀ digit < 16, hexDigit digit.digitChar.toUInt8 = some digit := by decide
  have hupper : ∀ digit < 16, hexDigit digit.digitChar.toUpper.toUInt8 = some digit := by decide
  rcases h with ⟨hlt, rfl | rfl⟩
  · exact hlower digit hlt
  · exact hupper digit hlt

theorem ne_of_hexDigit {byte : UInt8} {digit : Nat} (h : hexDigit byte = some digit) :
    byte ≠ '"'.toUInt8 ∧ byte ≠ '\\'.toUInt8 := by
  constructor <;> rintro rfl <;> cases h

theorem unquoted_plain {bytes t : List UInt8}
    (hbytes : ∀ byte ∈ bytes, byte ≠ '"'.toUInt8 ∧ byte ≠ '\\'.toUInt8) (h : Unquoted t) :
    Unquoted (bytes ++ t) := by
  induction bytes with
  | nil => exact h
  | cons byte bytes ih =>
      obtain ⟨⟨hquote, hescape⟩, hbytes⟩ := List.forall_mem_cons.mp hbytes
      exact .plain hquote hescape (ih hbytes)

theorem unescape_plain_append {bytes : List UInt8} (hbytes : ∀ byte ∈ bytes, byte ≠ '\\'.toUInt8)
    (t : List UInt8) : unescape (bytes ++ t) = (unescape t).map (bytes ++ ·) := by
  induction bytes with
  | nil => simp
  | cons byte bytes ih =>
      obtain ⟨hbyte, hbytes⟩ := List.forall_mem_cons.mp hbytes
      rw [List.cons_append, unescape_plain hbyte, ih hbytes, Option.map_map]
      rfl

theorem isString_letter {byte c : UInt8} {t s : List UInt8} (hbyte : byte ≠ 'u'.toUInt8)
    (hc : unescaped byte = some c) (h : IsString t s) : IsString (escaped byte t) (c :: s) := by
  refine ⟨.escape h.1, ?_⟩
  rw [unescape_letter hbyte, hc, h.2]
  rfl

/-- The four digits of a code unit are plain bytes of the string. -/
theorem exists_digits {digits : List UInt8} {unit : Nat} (h : CodeUnit digits unit) :
    ∃ p q r s, digits = [p, q, r, s] ∧ hex4 p q r s = unit ∧
      ∀ byte ∈ digits, byte ≠ '"'.toUInt8 ∧ byte ≠ '\\'.toUInt8 := by
  obtain ⟨hp, hq, hr, hs⟩ := h
  have hp := hexDigit_of_hexDigit hp
  have hq := hexDigit_of_hexDigit hq
  have hr := hexDigit_of_hexDigit hr
  have hs := hexDigit_of_hexDigit hs
  refine ⟨_, _, _, _, rfl, hex4_of_digits hp hq hr hs, ?_⟩
  simp only [List.forall_mem_cons]
  exact ⟨ne_of_hexDigit hp, ne_of_hexDigit hq, ne_of_hexDigit hr, ne_of_hexDigit hs,
    List.forall_mem_nil _⟩

theorem isString_literal (digits : List UInt8) {t s : List UInt8} {c : Char}
    (hdigits : Unquoted t → Unquoted (digits ++ t))
    (hliteral : literal (digits ++ t) = some (c.toNat, t)) (h : IsString t s) :
    IsString (escaped 'u'.toUInt8 (digits ++ t)) (String.utf8EncodeChar c ++ s) := by
  refine ⟨.escape (hdigits h.1), ?_⟩
  rw [unescape_literal, hliteral, Option.bind_some, utf8Bytes_toNat, Option.bind_some, h.2]
  rfl

theorem surrogatePair_eq {x : Nat} (hx : x < 0x100000) :
    ((0xd800 + x / 0x400) &&& 0x3ff) <<< 10 ||| ((0xdc00 + x % 0x400) &&& 0x3ff) = x := by
  rw [show 0x3ff = 2 ^ 10 - 1 from rfl, Nat.and_two_pow_sub_one_eq_mod,
    Nat.and_two_pow_sub_one_eq_mod, Nat.or_comm, or_shiftLeft (Nat.mod_lt _ (by decide))]
  omega

/-- A character behind its text in front of a string. -/
theorem isString_charText {text t s : List UInt8} {c : Char} (hc : CharText text c)
    (h : IsString t s) : IsString (text ++ t) (String.utf8EncodeChar c ++ s) := by
  cases hc with
  | plain hlow hquote hescape =>
      have hne : ∀ byte ∈ String.utf8EncodeChar c,
          byte ≠ '"'.toUInt8 ∧ byte ≠ '\\'.toUInt8 := by
        intro byte hbyte
        constructor
        · rintro rfl
          exact hquote (Char.toNat_inj.mp (toNat_of_mem_utf8EncodeChar hbyte (by decide)).symm)
        · rintro rfl
          exact hescape (Char.toNat_inj.mp (toNat_of_mem_utf8EncodeChar hbyte (by decide)).symm)
      refine ⟨unquoted_plain hne h.1, ?_⟩
      rw [unescape_plain_append (fun byte hbyte => (hne byte hbyte).2), h.2]
      rfl
  | @letter letter _ hletter =>
      have hall : ∀ p ∈ escapes, p.1.toUInt8 ≠ 'u'.toUInt8 ∧
          unescaped p.1.toUInt8 = some p.2.toUInt8 ∧
          String.utf8EncodeChar p.2 = [p.2.toUInt8] := by decide
      obtain ⟨hu, hunescaped, hencode⟩ := hall _ hletter
      rw [hencode]
      exact isString_letter hu hunescaped h
  | unit hunit =>
      obtain ⟨p, q, r, s, rfl, hhex, hplain⟩ := exists_digits hunit
      refine isString_literal [p, q, r, s] (unquoted_plain hplain) ?_ h
      have hvalid : c.toNat < 0xd800 ∨ 0xdfff < c.toNat ∧ c.toNat < 0x110000 := c.valid
      simp only [List.cons_append, List.nil_append, literal, hhex]
      rw [if_neg (by omega), if_neg (by omega)]
  | @pair high low _ hlow hhigh hunit =>
      obtain ⟨p, q, r, s, rfl, hhex, hplain⟩ := exists_digits hhigh
      obtain ⟨p', q', r', s', rfl, hhex', hplain'⟩ := exists_digits hunit
      have hvalid : c.toNat < 0xd800 ∨ 0xdfff < c.toNat ∧ c.toNat < 0x110000 := c.valid
      have hpair := surrogatePair_eq (x := c.toNat - 0x10000) (by omega)
      have hsum : 0x10000 + (c.toNat - 0x10000) = c.toNat := by omega
      refine isString_literal ([p, q, r, s] ++ escaped 'u'.toUInt8 [p', q', r', s'])
        (fun ht => ?_) ?_ h
      · show Unquoted ([p, q, r, s] ++ escaped 'u'.toUInt8 ([p', q', r', s'] ++ t))
        exact unquoted_plain hplain (.escape (unquoted_plain hplain' ht))
      · simp only [List.cons_append, List.nil_append, escaped, literal, surrogatePair, hhex, hhex',
          ne_eq, not_true_eq_false, if_false, hpair, hsum]
        rw [if_neg (by omega), if_pos (by omega), if_neg (by omega)]

theorem isString_of_stringText {text : List UInt8} {s : List Char} (h : StringText text s) :
    IsString text (s.flatMap String.utf8EncodeChar) := by
  induction h with
  | nil => exact ⟨.nil, by rw [unescape]; rfl⟩
  | cons hc _ ih => exact isString_charText hc ih

theorem isNumberByte_of_digits {text : List UInt8} (h : Digits text) :
    ∀ byte ∈ text, isNumberByte byte = true := by
  intro byte hbyte
  exact isNumberByte_of_startsNumber (Or.inr (h.2 byte hbyte))

theorem isNumberByte_of_number (x : Json.Number) : ∀ byte ∈ x.text, isNumberByte byte = true := by
  have hsign : ∀ byte ∈ x.sign, isNumberByte byte = true := by
    rcases x.sign_eq with hsign | hsign <;> rw [hsign] <;> decide +kernel
  have hfraction : ∀ byte ∈ x.fraction, isNumberByte byte = true := by
    rcases x.fraction_eq with hfraction | ⟨digits, hdigits, hfraction⟩ <;> rw [hfraction]
    · exact List.forall_mem_nil _
    · exact List.forall_mem_cons.mpr ⟨by decide, isNumberByte_of_digits hdigits⟩
  have hexponent : ∀ byte ∈ x.exponent, isNumberByte byte = true := by
    rcases x.exponent_eq with hexponent | ⟨e, sign, digits, he, hsign, hdigits, hexponent⟩ <;>
      rw [hexponent]
    · exact List.forall_mem_nil _
    · refine List.forall_mem_cons.mpr ⟨?_, List.forall_mem_append.mpr
        ⟨?_, isNumberByte_of_digits hdigits⟩⟩
      · rcases he with rfl | rfl <;> decide
      · rcases hsign with rfl | rfl | rfl <;> decide +kernel
  rw [Number.text]
  exact List.forall_mem_append.mpr ⟨hsign, List.forall_mem_append.mpr
    ⟨isNumberByte_of_digits x.digits, List.forall_mem_append.mpr ⟨hfraction, hexponent⟩⟩⟩

theorem startsNumber_of_number (x : Json.Number) : ∃ byte ∈ x.text.head?, StartsNumber byte := by
  rw [Number.text]
  rcases x.sign_eq with hsign | hsign <;> rw [hsign]
  · obtain ⟨hne, hdigits⟩ := x.digits
    cases hinteger : x.integer with
    | nil => exact absurd hinteger hne
    | cons byte digits =>
        exact ⟨byte, rfl, Or.inr (hdigits byte (by rw [hinteger]; exact List.mem_cons_self))⟩
  · exact ⟨_, rfl, Or.inl rfl⟩

variable {D : Type} {num : Numbers D}

theorem isNumber_of_number (hstrtod : ∀ x : Json.Number, (num.strtod x.text).2 = x.text.length)
    (x : Json.Number) (hlength : x.text.length ≤ 63) :
    IsNumber num x.text (num.number (num.strtod x.text).1) where
  starts := startsNumber_of_number x
  isNumberByte := isNumberByte_of_number x
  length_le := hlength
  strtod := hstrtod x
  eq_number := rfl

/-- The item of a tree of the standard grammar. -/
def itemOf (num : Numbers D) : Json.Tree (List Char) (List UInt8) → Item D :=
  Json.Tree.map (List.flatMap String.utf8EncodeChar) fun text => num.number (num.strtod text).1

theorem isSpace_of_standard {byte : UInt8} (h : IsSpace byte) : isSpace byte = true := by
  rcases h with rfl | rfl | rfl | rfl <;> rfl

theorem text_of_standard (hstrtod : ∀ x : Json.Number, (num.strtod x.text).2 = x.text.length)
    {n : Nat} {tree : Json.Tree (List Char) (List UInt8)} {text : List UInt8}
    (h : Text (standard 63) n tree text) : Text (lexis num) n (itemOf num tree) text := by
  refine h.map (fun _ => isSpace_of_standard) (fun _ _ hs => isString_of_stringText hs) ?_
  rintro text _ ⟨rfl, hlength, x, rfl⟩
  exact isNumber_of_number hstrtod x hlength

theorem strtod_textNumbers (x : Json.Number) :
    (textNumbers.strtod x.text).2 = x.text.length := by
  have hall := isNumberByte_of_number x
  rw [← List.takeWhile_eq_self_iff] at hall
  exact congrArg List.length hall

end CHomework.CJson
