import CHomework.CJson.Cursor

/-!
What the two passes of `parse_string` compute, as functions of the text behind the
opening quote, and the size of the block between them.
-/

namespace CHomework.CJson

open CHomework.Buffer CHomework.Json

theorem load_of_drop {content t : List UInt8} {i : Nat} {byte : UInt8}
    (h : content.drop i = byte :: t) : load content i = some byte := by
  rw [load, ← Nat.add_zero i, ← List.getElem?_drop, h]
  rfl

theorem drop_of_drop {content s t : List UInt8} {i : Nat} (h : content.drop i = s ++ t) :
    content.drop (i + s.length) = t := by
  rw [← List.drop_drop, h, List.drop_left]

theorem drop_succ_of_drop {content t : List UInt8} {i : Nat} {byte : UInt8}
    (h : content.drop i = byte :: t) : content.drop (i + 1) = t :=
  drop_of_drop (s := [byte]) h

theorem length_of_drop {content t : List UInt8} {i : Nat} (h : content.drop i = t) (ht : t ≠ []) :
    content.length = i + t.length := by
  have hlength := congrArg List.length h
  have hpos := List.length_pos_iff.mpr ht
  rw [List.length_drop] at hlength
  omega

/-- The cases of a pass over a string, with the lone backslash that ends the text. -/
@[elab_as_elim] theorem literal_induction {motive : List UInt8 → Prop} (nil : motive [])
    (quote : ∀ t, motive ('"'.toUInt8 :: t)) (lone : motive ['\\'.toUInt8])
    (escape : ∀ byte t, motive t → motive ('\\'.toUInt8 :: byte :: t))
    (plain : ∀ byte t, byte ≠ '"'.toUInt8 → byte ≠ '\\'.toUInt8 → motive t → motive (byte :: t))
    (t : List UInt8) : motive t := by
  induction hn : t.length using Nat.strong_induction_on generalizing t with
  | h n ih =>
      cases t with
      | nil => exact nil
      | cons byte t =>
          have htail := ih t.length (by rw [← hn]; simp) t rfl
          rcases eq_or_ne byte '"'.toUInt8 with rfl | hquote
          · exact quote t
          rcases eq_or_ne byte '\\'.toUInt8 with rfl | hescape
          · cases t with
            | nil => exact lone
            | cons byte t => exact escape byte t (ih t.length
                (by rw [← hn, List.length_cons, List.length_cons]; omega) t rfl)
          · exact plain byte t hquote hescape htail

/-- What stands in front of the closing quote. -/
def literalBody : List UInt8 → Option (List UInt8)
  | [] => none
  | [byte] => if byte = '"'.toUInt8 then some [] else none
  | byte :: escape :: t =>
      if byte = '"'.toUInt8 then some []
      else if byte = '\\'.toUInt8 then (literalBody t).map fun body => byte :: escape :: body
      else (literalBody (escape :: t)).map (byte :: ·)

def escapeCount : List UInt8 → Nat
  | [] => 0
  | [_] => 0
  | byte :: escape :: t =>
      if byte = '\\'.toUInt8 then escapeCount t + 1 else escapeCount (escape :: t)

/-- A text with a closing quote behind it ends there. -/
inductive Unquoted : List UInt8 → Prop
  | nil : Unquoted []
  | plain {byte : UInt8} {t : List UInt8} : byte ≠ '"'.toUInt8 → byte ≠ '\\'.toUInt8 →
      Unquoted t → Unquoted (byte :: t)
  | escape {byte : UInt8} {t : List UInt8} : Unquoted t → Unquoted ('\\'.toUInt8 :: byte :: t)

theorem escapeCount_cons_of_ne {byte : UInt8} (h : byte ≠ '\\'.toUInt8) (t : List UInt8) :
    escapeCount (byte :: t) = escapeCount t := by
  cases t with
  | nil => rfl
  | cons escape t => rw [escapeCount, if_neg h]

theorem escapeCount_escape (byte : UInt8) (t : List UInt8) :
    escapeCount ('\\'.toUInt8 :: byte :: t) = escapeCount t + 1 := by
  rw [escapeCount, if_pos rfl]

/-- A byte in front adds no escape or one. -/
theorem escapeCount_cons (byte : UInt8) (t : List UInt8) :
    escapeCount t ≤ escapeCount (byte :: t) ∧ escapeCount (byte :: t) ≤ escapeCount t + 1 := by
  induction hn : t.length using Nat.strong_induction_on generalizing byte t with
  | h n ih =>
      cases t with
      | nil => exact ⟨Nat.zero_le _, Nat.zero_le _⟩
      | cons escape t =>
          have hstep := ih t.length (by rw [← hn]; simp) escape t rfl
          rw [escapeCount]
          split <;> omega

theorem escapeCount_le (t : List UInt8) : escapeCount t ≤ t.length := by
  induction t with
  | nil => exact Nat.le_refl _
  | cons byte t ih =>
      have hcons := (escapeCount_cons byte t).2
      rw [List.length_cons]
      omega

theorem literalBody_quote (t : List UInt8) : literalBody ('"'.toUInt8 :: t) = some [] := by
  cases t with
  | nil => rw [literalBody, if_pos rfl]
  | cons escape t => rw [literalBody, if_pos rfl]

theorem literalBody_escape (byte : UInt8) (t : List UInt8) :
    literalBody ('\\'.toUInt8 :: byte :: t) =
      (literalBody t).map fun body => '\\'.toUInt8 :: byte :: body := by
  rw [literalBody, if_neg (by decide), if_pos rfl]

theorem literalBody_plain {byte : UInt8} (hquote : byte ≠ '"'.toUInt8)
    (hescape : byte ≠ '\\'.toUInt8) (t : List UInt8) :
    literalBody (byte :: t) = (literalBody t).map (byte :: ·) := by
  cases t with
  | nil =>
      show (if byte = '"'.toUInt8 then some [] else none) = none
      exact if_neg hquote
  | cons escape t => rw [literalBody, if_neg hquote, if_neg hescape]

theorem literalBody_append {body : List UInt8} (h : Unquoted body) (t : List UInt8) :
    literalBody (body ++ '"'.toUInt8 :: t) = some body := by
  induction h with
  | nil => exact literalBody_quote t
  | plain hquote hescape _ ih =>
      rw [List.cons_append, literalBody_plain hquote hescape, ih, Option.map_some]
  | escape _ ih => rw [List.cons_append, List.cons_append, literalBody_escape, ih, Option.map_some]

theorem unquoted_of_literalBody {t body : List UInt8} (h : literalBody t = some body) :
    Unquoted body ∧ ∃ rest, t = body ++ '"'.toUInt8 :: rest := by
  induction t using literal_induction generalizing body with
  | nil => cases h
  | quote t =>
      rw [literalBody_quote] at h
      cases h
      exact ⟨.nil, _, rfl⟩
  | lone => cases h
  | escape byte t ih =>
      rw [literalBody_escape] at h
      obtain ⟨body, hbody, rfl⟩ := Option.map_eq_some_iff.mp h
      obtain ⟨hunquoted, rest, rfl⟩ := ih hbody
      exact ⟨.escape hunquoted, rest, rfl⟩
  | plain byte t hquote hescape ih =>
      rw [literalBody_plain hquote hescape] at h
      obtain ⟨body, hbody, rfl⟩ := Option.map_eq_some_iff.mp h
      obtain ⟨hunquoted, rest, rfl⟩ := ih hbody
      exact ⟨.plain hquote hescape hunquoted, rest, rfl⟩

theorem findStringEnd_of_drop {content t : List UInt8} {byte : UInt8} {i : Nat}
    (h : content.drop i = byte :: t) (rounds skippedBytes : Nat) :
    findStringEnd content (rounds + 1) i skippedBytes =
      if byte = '"'.toUInt8 then some (some (i, skippedBytes))
      else if byte = '\\'.toUInt8 then
        if t = [] then some none
        else findStringEnd content rounds (i + 2) (skippedBytes + 1)
      else findStringEnd content rounds (i + 1) skippedBytes := by
  have hlength := length_of_drop h (by simp)
  rw [List.length_cons] at hlength
  have hend : content.length ≤ i + 1 ↔ t = [] := by
    rw [← List.length_eq_zero_iff]
    omega
  rw [findStringEnd, if_pos (by omega), load_of_drop h]
  simp only [hend]
  rfl

theorem findStringEnd_eq {content t : List UInt8} {rounds i skippedBytes : Nat}
    (h : content.drop i = t ++ [0]) (hrounds : t.length ≤ rounds) :
    findStringEnd content (rounds + 2) i skippedBytes =
      some ((literalBody t).map fun body =>
        (i + body.length, skippedBytes + escapeCount body)) := by
  induction t using literal_induction generalizing rounds i skippedBytes with
  | nil =>
      have hlength := length_of_drop h (by simp)
      rw [findStringEnd_of_drop h, if_neg (by decide), if_neg (by decide), findStringEnd,
        if_neg (by rw [hlength]; simp)]
      rfl
  | quote t =>
      rw [List.cons_append] at h
      rw [findStringEnd_of_drop h, if_pos rfl, literalBody_quote]
      rfl
  | lone =>
      have hlength := length_of_drop h (by simp)
      rw [List.cons_append] at h
      rw [findStringEnd_of_drop h, if_neg (by decide), if_pos rfl, if_neg (by simp), findStringEnd,
        if_neg (by rw [hlength]; simp)]
      rfl
  | escape byte t ih =>
      obtain ⟨rounds, rfl⟩ := Nat.exists_eq_add_of_le' (Nat.le_trans (Nat.le_add_left 1 _) hrounds)
      have htail : content.drop (i + 2) = t ++ [0] := drop_of_drop (s := [_, _]) h
      rw [List.cons_append] at h
      rw [findStringEnd_of_drop h, if_neg (by decide), if_pos rfl, if_neg (by simp),
        ih htail (by simp at hrounds; omega), literalBody_escape, Option.map_map]
      cases literalBody t with
      | none => rfl
      | some body =>
          simp only [Option.map_some, Function.comp_apply, escapeCount_escape, List.length_cons]
          congr 3 <;> omega
  | plain byte t hquote hescape ih =>
      obtain ⟨rounds, rfl⟩ := Nat.exists_eq_add_of_le' (Nat.le_trans (Nat.le_add_left 1 _) hrounds)
      have htail := drop_succ_of_drop h
      rw [List.cons_append] at h
      rw [findStringEnd_of_drop h, if_neg hquote, if_neg hescape,
        ih htail (by simpa using hrounds), literalBody_plain hquote hescape, Option.map_map]
      cases literalBody t with
      | none => rfl
      | some body =>
          simp only [Option.map_some, Function.comp_apply, escapeCount_cons_of_ne hescape,
            List.length_cons]
          congr 3
          omega

/-- The code unit that four digits stand for, which is 0 if one of them is no digit. -/
def hex4 (p q r s : UInt8) : Nat :=
  match hexDigit p, hexDigit q, hexDigit r, hexDigit s with
  | some a, some b, some c, some d => ((a * 16 + b) * 16 + c) * 16 + d
  | _, _, _, _ => 0

theorem hexDigit_lt {byte : UInt8} {digit : Nat} (h : hexDigit byte = some digit) : digit < 16 := by
  simp only [hexDigit, UInt8.le_iff_toNat_le] at h
  split at h
  · rename_i hrange
    have hle : byte.toNat ≤ 57 := hrange.2
    cases h
    show byte.toNat - 48 < 16
    omega
  split at h
  · rename_i hrange
    have hle : byte.toNat ≤ 70 := hrange.2
    cases h
    show 10 + byte.toNat - 65 < 16
    omega
  split at h
  · rename_i hrange
    have hle : byte.toNat ≤ 102 := hrange.2
    cases h
    show 10 + byte.toNat - 97 < 16
    omega
  · cases h

theorem hex4_of_digits {p q r s : UInt8} {a b c d : Nat} (hp : hexDigit p = some a)
    (hq : hexDigit q = some b) (hr : hexDigit r = some c) (hs : hexDigit s = some d) :
    hex4 p q r s = ((a * 16 + b) * 16 + c) * 16 + d := by
  simp only [hex4, hp, hq, hr, hs]

theorem hex4_cases (p q r s : UInt8) :
    hex4 p q r s = 0 ∨ ∃ a b c d, hexDigit p = some a ∧ hexDigit q = some b ∧
      hexDigit r = some c ∧ hexDigit s = some d := by
  rw [hex4]
  split
  · exact Or.inr ⟨_, _, _, _, ‹_›, ‹_›, ‹_›, ‹_›⟩
  · exact Or.inl rfl

theorem hex4_lt (p q r s : UInt8) : hex4 p q r s < 0x10000 := by
  rcases hex4_cases p q r s with hzero | ⟨a, b, c, d, hp, hq, hr, hs⟩
  · omega
  · have ha := hexDigit_lt hp
    have hb := hexDigit_lt hq
    have hc := hexDigit_lt hr
    have hd := hexDigit_lt hs
    rw [hex4_of_digits hp hq hr hs]
    omega

theorem parseHex4_of_drop {content t : List UInt8} {i : Nat} {p q r s : UInt8}
    (h : content.drop i = p :: q :: r :: s :: t) :
    parseHex4 content i = some (hex4 p q r s) := by
  have hq := drop_succ_of_drop h
  have hr := drop_succ_of_drop hq
  have hs := drop_succ_of_drop hr
  simp only [parseHex4, parseHexLoop, load_of_drop h, load_of_drop hq, load_of_drop hr,
    load_of_drop hs, Option.bind_eq_bind, Option.bind_some, hex4]
  cases hexDigit p with
  | none => rfl
  | some a =>
      cases hexDigit q with
      | none => rfl
      | some b =>
          cases hexDigit r with
          | none => rfl
          | some c =>
              cases hexDigit s with
              | none => rfl
              | some d => simp [Nat.shiftLeft_eq]

/-- The code point of a surrogate pair, from its first code unit and the text behind it,
and what is left. -/
def surrogatePair (firstCode : Nat) : List UInt8 → Option (Nat × List UInt8)
  | backslash :: u :: p :: q :: r :: s :: t =>
      if backslash ≠ '\\'.toUInt8 then none
      else if u ≠ 'u'.toUInt8 then none
      else if hex4 p q r s < 0xdc00 ∨ 0xdfff < hex4 p q r s then none
      else some (0x10000 + (((firstCode &&& 0x3ff) <<< 10) ||| (hex4 p q r s &&& 0x3ff)), t)
  | _ => none

/-- The code point of a literal from the text behind its `\u`, and what is left. -/
def literal : List UInt8 → Option (Nat × List UInt8)
  | p :: q :: r :: s :: t =>
      if 0xdc00 ≤ hex4 p q r s ∧ hex4 p q r s ≤ 0xdfff then none
      else if 0xd800 ≤ hex4 p q r s ∧ hex4 p q r s ≤ 0xdbff then surrogatePair (hex4 p q r s) t
      else some (hex4 p q r s, t)
  | _ => none

theorem literal_of_length_lt {t : List UInt8} (h : t.length < 4) : literal t = none := by
  match t with
  | [] | [_] | [_, _] | [_, _, _] => rfl
  | _ :: _ :: _ :: _ :: _ => simp at h; omega

theorem surrogatePair_of_length_lt {firstCode : Nat} {t : List UInt8} (h : t.length < 6) :
    surrogatePair firstCode t = none := by
  match t with
  | [] | [_] | [_, _] | [_, _, _] | [_, _, _, _] | [_, _, _, _, _] => rfl
  | _ :: _ :: _ :: _ :: _ :: _ :: _ => simp at h; omega

theorem utf16Literal_eq {content t rest : List UInt8} {i : Nat}
    (h : content.drop i = escaped 'u'.toUInt8 t ++ rest) :
    utf16Literal content i (i + (t.length + 2)) =
      some ((literal t).map fun result => (result.1, t.length + 2 - result.2.length)) := by
  match t with
  | [] | [_] | [_, _] | [_, _, _] =>
      rw [utf16Literal, if_pos (by simp), literal_of_length_lt (by simp)]
      rfl
  | p :: q :: r :: s :: t =>
      have hfirst : parseHex4 content (i + 2) = some (hex4 p q r s) :=
        parseHex4_of_drop (t := t ++ rest) (drop_of_drop (s := [_, _]) h)
      have hsecond : content.drop (i + 6) = t ++ rest :=
        drop_of_drop (s := [_, _, _, _, _, _]) h
      rw [utf16Literal, if_neg (by simp), hfirst, literal]
      simp only [Option.bind_eq_bind, Option.bind_some]
      split
      · rfl
      split
      · match t with
        | [] | [_] | [_, _] | [_, _, _] | [_, _, _, _] | [_, _, _, _, _] =>
            rw [if_pos (by simp), surrogatePair_of_length_lt (by simp)]
            rfl
        | backslash :: u :: p' :: q' :: r' :: s' :: t =>
            have hletter := drop_succ_of_drop hsecond
            have hdigits : parseHex4 content (i + 6 + 2) = some (hex4 p' q' r' s') :=
              parseHex4_of_drop (t := t ++ rest) (drop_of_drop (s := [_, _]) hsecond)
            rw [if_neg (by simp; omega), load_of_drop hsecond, load_of_drop hletter, hdigits,
              surrogatePair]
            simp only [Option.bind_some]
            split
            · rfl
            split
            · rfl
            split
            · rfl
            · simp only [Option.map_some, List.length_cons]
              congr 3
              omega
      · simp only [Option.map_some, List.length_cons]
        congr 3
        omega

/-- A literal is one code unit or a pair of them, and only one code unit can be 0. -/
theorem literal_cases {t rest : List UInt8} {codepoint : Nat}
    (h : literal t = some (codepoint, rest)) :
    (∃ p q r s, t = p :: q :: r :: s :: rest ∧ codepoint = hex4 p q r s) ∨
    (∃ p q r s p' q' r' s',
      t = p :: q :: r :: s :: escaped 'u'.toUInt8 (p' :: q' :: r' :: s' :: rest) ∧
      hex4 p q r s ≠ 0 ∧ hex4 p' q' r' s' ≠ 0) := by
  match t with
  | [] | [_] | [_, _] | [_, _, _] => cases h
  | p :: q :: r :: s :: t =>
      rw [literal] at h
      split at h
      · cases h
      split at h
      · rename_i hfirst
        match t with
        | [] | [_] | [_, _] | [_, _, _] | [_, _, _, _] | [_, _, _, _, _] => cases h
        | backslash :: u :: p' :: q' :: r' :: s' :: t =>
            rw [surrogatePair] at h
            split at h
            · cases h
            split at h
            · cases h
            split at h
            · cases h
            · rename_i hbackslash hu hsecond
              rw [not_not] at hbackslash hu
              subst hbackslash hu
              cases h
              exact Or.inr ⟨_, _, _, _, _, _, _, _, rfl, by omega, by omega⟩
      · cases h
        exact Or.inl ⟨_, _, _, _, rfl, rfl⟩

theorem suffix_of_literal {t rest : List UInt8} {codepoint : Nat}
    (h : literal t = some (codepoint, rest)) : ∃ digits, digits ≠ [] ∧ t = digits ++ rest := by
  rcases literal_cases h with ⟨p, q, r, s, rfl, -⟩ | ⟨p, q, r, s, p', q', r', s', rfl, -⟩
  · exact ⟨[p, q, r, s], List.cons_ne_nil _ _, rfl⟩
  · exact ⟨p :: q :: r :: s :: escaped 'u'.toUInt8 [p', q', r', s'], List.cons_ne_nil _ _, rfl⟩

theorem length_of_literal {t rest : List UInt8} {codepoint : Nat}
    (h : literal t = some (codepoint, rest)) : rest.length < t.length := by
  obtain ⟨digits, hne, rfl⟩ := suffix_of_literal h
  have hpos := List.length_pos_iff.mpr hne
  rw [List.length_append]
  omega

/-- What a string stands for. A lone backslash at the end takes the closing quote for
the byte behind it. -/
def unescape : List UInt8 → Option (List UInt8)
  | [] => some []
  | [byte] => some [if byte = '\\'.toUInt8 then '"'.toUInt8 else byte]
  | byte :: escape :: t =>
      if byte ≠ '\\'.toUInt8 then (unescape (escape :: t)).map (byte :: ·)
      else if escape = 'u'.toUInt8 then
        match _ : literal t with
        | none => none
        | some (codepoint, rest) =>
            (utf8Bytes codepoint).bind fun bytes => (unescape rest).map (bytes ++ ·)
      else (unescaped escape).bind fun byte => (unescape t).map (byte :: ·)
termination_by t => t.length
decreasing_by
  · simp
  · have hlt := length_of_literal ‹_›
    simp only [List.length_cons]
    omega
  · simp only [List.length_cons]
    omega

theorem escapeCount_digits {p q r s : UInt8} (h : hex4 p q r s ≠ 0) (t : List UInt8) :
    escapeCount (p :: q :: r :: s :: t) = escapeCount t := by
  have hdigit : ∀ {byte : UInt8} {digit : Nat}, hexDigit byte = some digit →
      byte ≠ '\\'.toUInt8 := by
    rintro byte digit hdigit rfl
    cases hdigit
  rcases hex4_cases p q r s with hzero | ⟨a, b, c, d, hp, hq, hr, hs⟩
  · exact absurd hzero h
  · rw [escapeCount_cons_of_ne (hdigit hp), escapeCount_cons_of_ne (hdigit hq),
      escapeCount_cons_of_ne (hdigit hr), escapeCount_cons_of_ne (hdigit hs)]

theorem length_encodeContinuation (n codepoint : Nat) (bytes : List UInt8) :
    (encodeContinuation n codepoint bytes).2.length = n + bytes.length := by
  induction n generalizing codepoint bytes with
  | zero => simp [encodeContinuation]
  | succ n ih =>
      rw [encodeContinuation, ih, List.length_cons]
      omega

theorem length_encodeUtf8 {n : Nat} (hn : 0 < n) (mark codepoint : Nat) :
    (encodeUtf8 n mark codepoint).length = n := by
  rw [encodeUtf8]
  split
  · rw [List.length_cons, length_encodeContinuation, List.length_nil]
    omega
  · rw [List.length_singleton]
    omega

theorem length_utf8Bytes {codepoint : Nat} {bytes : List UInt8}
    (h : utf8Bytes codepoint = some bytes) :
    bytes.length ≤ 4 ∧ (codepoint < 0x10000 → bytes.length ≤ 3) ∧
      (codepoint = 0 → bytes.length = 1) := by
  rw [utf8Bytes] at h
  split at h
  · cases h
    rw [length_encodeUtf8 (by decide)]
    omega
  split at h
  · cases h
    rw [length_encodeUtf8 (by decide)]
    omega
  split at h
  · cases h
    rw [length_encodeUtf8 (by decide)]
    omega
  split at h
  · cases h
    rw [length_encodeUtf8 (by decide)]
    omega
  · cases h

/-- The bytes of a literal fit in its place, with the escapes that the first pass has
counted inside of it. -/
theorem length_utf8Bytes_of_literal {t rest bytes : List UInt8} {codepoint : Nat}
    (h : literal t = some (codepoint, rest)) (hbytes : utf8Bytes codepoint = some bytes) :
    bytes.length + escapeCount (escaped 'u'.toUInt8 t) + rest.length ≤
      t.length + 2 + escapeCount rest := by
  have hlength := length_utf8Bytes hbytes
  rw [escaped, escapeCount_escape]
  rcases literal_cases h with ⟨p, q, r, s, rfl, rfl⟩ | ⟨p, q, r, s, p', q', r', s', rfl, hne, hne'⟩
  · have hlt := hex4_lt p q r s
    simp only [List.length_cons]
    rcases eq_or_ne (hex4 p q r s) 0 with hzero | hne
    · have hp := (escapeCount_cons p (q :: r :: s :: rest)).2
      have hq := (escapeCount_cons q (r :: s :: rest)).2
      have hr := (escapeCount_cons r (s :: rest)).2
      have hs := (escapeCount_cons s rest).2
      have hone := hlength.2.2 hzero
      omega
    · have hthree := hlength.2.1 hlt
      rw [escapeCount_digits hne]
      omega
  · rw [escapeCount_digits hne, escaped, escapeCount_escape, escapeCount_digits hne']
    have hfour := hlength.1
    simp only [List.length_cons]
    omega

/-- The cases of the second pass. -/
@[elab_as_elim] theorem unescape_induction {motive : List UInt8 → Prop} (nil : motive [])
    (lone : motive ['\\'.toUInt8])
    (plain : ∀ byte t, byte ≠ '\\'.toUInt8 → motive t → motive (byte :: t))
    (literal : ∀ t, (∀ codepoint rest, literal t = some (codepoint, rest) → motive rest) →
      motive (escaped 'u'.toUInt8 t))
    (letter : ∀ byte t, byte ≠ 'u'.toUInt8 → motive t → motive (escaped byte t))
    (t : List UInt8) : motive t := by
  induction hn : t.length using Nat.strong_induction_on generalizing t with
  | h n ih =>
      cases t with
      | nil => exact nil
      | cons byte t =>
          rw [List.length_cons] at hn
          rcases eq_or_ne byte '\\'.toUInt8 with rfl | hbyte
          · cases t with
            | nil => exact lone
            | cons escape t =>
                rw [List.length_cons] at hn
                rcases eq_or_ne escape 'u'.toUInt8 with rfl | hescape
                · refine literal t fun codepoint rest h => ih rest.length ?_ rest rfl
                  have hlt := length_of_literal h
                  omega
                · exact letter escape t hescape (ih t.length (by omega) t rfl)
          · exact plain byte t hbyte (ih t.length (by omega) t rfl)

theorem unescape_plain {byte : UInt8} (h : byte ≠ '\\'.toUInt8) (t : List UInt8) :
    unescape (byte :: t) = (unescape t).map (byte :: ·) := by
  cases t with
  | nil => simp [unescape, h]
  | cons escape t => rw [unescape, if_pos h]

theorem unescape_literal (t : List UInt8) :
    unescape (escaped 'u'.toUInt8 t) = (literal t).bind fun result =>
      (utf8Bytes result.1).bind fun bytes => (unescape result.2).map (bytes ++ ·) := by
  rw [escaped, unescape, if_neg (by simp), if_pos rfl]
  split <;> simp_all

theorem unescape_letter {byte : UInt8} (h : byte ≠ 'u'.toUInt8) (t : List UInt8) :
    unescape (escaped byte t) =
      (unescaped byte).bind fun byte => (unescape t).map (byte :: ·) := by
  rw [escaped, unescape, if_neg (by simp), if_neg h]

theorem length_unescape {t s : List UInt8} (h : unescape t = some s) :
    s.length + escapeCount t ≤ t.length := by
  induction t using unescape_induction generalizing s with
  | nil =>
      rw [unescape] at h
      cases h
      exact Nat.le_refl _
  | lone =>
      rw [unescape] at h
      cases h
      exact Nat.le_refl _
  | plain byte t hbyte ih =>
      rw [unescape_plain hbyte] at h
      obtain ⟨s, hs, rfl⟩ := Option.map_eq_some_iff.mp h
      have hle := ih hs
      rw [escapeCount_cons_of_ne hbyte, List.length_cons, List.length_cons]
      omega
  | literal t ih =>
      rw [unescape_literal] at h
      obtain ⟨⟨codepoint, rest⟩, hliteral, h⟩ := Option.bind_eq_some_iff.mp h
      obtain ⟨bytes, hbytes, h⟩ := Option.bind_eq_some_iff.mp h
      obtain ⟨s, hs, rfl⟩ := Option.map_eq_some_iff.mp h
      have hle := ih codepoint rest hliteral hs
      have hroom := length_utf8Bytes_of_literal hliteral hbytes
      rw [List.length_append, show (escaped 'u'.toUInt8 t).length = t.length + 2 from rfl]
      omega
  | letter byte t hbyte ih =>
      rw [unescape_letter hbyte] at h
      obtain ⟨c, -, h⟩ := Option.bind_eq_some_iff.mp h
      obtain ⟨s, hs, rfl⟩ := Option.map_eq_some_iff.mp h
      have hle := ih hs
      rw [escaped, escapeCount_escape, List.length_cons, List.length_cons, List.length_cons]
      omega

theorem append_eq {size : Nat} {output bytes : List UInt8}
    (h : output.length + bytes.length ≤ size) : append size output bytes = some (output ++ bytes) :=
  if_pos h

theorem utf16LiteralToUtf8_eq {content t rest output : List UInt8} {i size : Nat}
    (h : content.drop i = escaped 'u'.toUInt8 t ++ rest)
    (hsize : output.length + (t.length + 2) ≤ size + escapeCount (escaped 'u'.toUInt8 t)) :
    utf16LiteralToUtf8 content i (i + (t.length + 2)) size output =
      some (((literal t).bind fun result => (utf8Bytes result.1).map fun bytes =>
        (t.length + 2 - result.2.length, output ++ bytes)).getD (0, output)) := by
  rw [utf16LiteralToUtf8, utf16Literal_eq h]
  cases hliteral : literal t with
  | none => rfl
  | some result =>
      obtain ⟨codepoint, rest⟩ := result
      simp only [Option.map_some, Option.bind_eq_bind, Option.bind_some]
      cases hbytes : utf8Bytes codepoint with
      | none => rfl
      | some bytes =>
          have hroom := length_utf8Bytes_of_literal hliteral hbytes
          have hcount := escapeCount_le rest
          simp only [append_eq (show output.length + bytes.length ≤ size by omega)]
          rfl

section Steps

variable {content t output : List UInt8} {inputEnd size i : Nat} {byte : UInt8}

theorem unescapeLoop_plain (h : content.drop i = byte :: t) (hlt : i < inputEnd)
    (hbyte : byte ≠ '\\'.toUInt8) (rounds : Nat) :
    unescapeLoop content inputEnd size (rounds + 1) i output =
      (append size output [byte]).bind (unescapeLoop content inputEnd size rounds (i + 1)) := by
  rw [unescapeLoop, if_pos hlt, load_of_drop h]
  simp only [Option.bind_eq_bind, Option.bind_some, ne_eq, hbyte, not_false_eq_true, if_true]

theorem unescapeLoop_literal (h : content.drop i = escaped 'u'.toUInt8 t) (hlt : i < inputEnd)
    (rounds : Nat) :
    unescapeLoop content inputEnd size (rounds + 1) i output =
      (utf16LiteralToUtf8 content i inputEnd size output).bind fun result =>
        if result.1 = 0 then some (none, i)
        else unescapeLoop content inputEnd size rounds (i + result.1) result.2 := by
  rw [unescapeLoop, if_pos hlt, load_of_drop h, load_of_drop (drop_succ_of_drop h)]
  simp only [Option.bind_eq_bind, Option.bind_some, ne_eq, not_true_eq_false, if_false, if_true]
  rfl

theorem unescapeLoop_letter (h : content.drop i = escaped byte t) (hlt : i < inputEnd)
    (hbyte : byte ≠ 'u'.toUInt8) (rounds : Nat) :
    unescapeLoop content inputEnd size (rounds + 1) i output =
      match unescaped byte with
      | none => some (none, i)
      | some byte =>
          (append size output [byte]).bind (unescapeLoop content inputEnd size rounds (i + 2)) := by
  rw [unescapeLoop, if_pos hlt, load_of_drop h, load_of_drop (drop_succ_of_drop h)]
  simp only [Option.bind_eq_bind, Option.bind_some, ne_eq, not_true_eq_false, if_false, hbyte]
  rfl

end Steps

/-- The second pass up to the closing quote, in a block with room for what is left. -/
theorem unescapeLoop_eq {content t rest : List UInt8} {inputEnd i : Nat} (size rounds : Nat)
    (output : List UInt8) (h : content.drop i = t ++ '"'.toUInt8 :: rest)
    (hend : inputEnd = i + t.length)
    (hrounds : t.length ≤ rounds) (hsize : output.length + t.length ≤ size + escapeCount t) :
    ∃ stopped, unescapeLoop content inputEnd size (rounds + 1) i output =
      some ((unescape t).map (output ++ ·), stopped) := by
  induction t using unescape_induction generalizing i output rounds with
  | nil =>
      refine ⟨i, ?_⟩
      rw [unescapeLoop, if_neg (by simp [hend]), unescape, Option.map_some, List.append_nil]
  | lone =>
      obtain ⟨rounds, rfl⟩ := Nat.exists_eq_add_of_le' hrounds
      refine ⟨i + 2, ?_⟩
      rw [unescapeLoop_letter h (by simp [hend]) (by decide),
        show unescaped '"'.toUInt8 = some '"'.toUInt8 from rfl]
      simp only []
      rw [append_eq (by simpa [escapeCount] using hsize), Option.bind_some, List.length_singleton,
        unescapeLoop, if_neg (by simp [hend]), unescape, if_pos rfl, Option.map_some]
  | plain byte t hbyte ih =>
      rw [List.length_cons] at hrounds hend hsize
      obtain ⟨rounds, rfl⟩ := Nat.exists_eq_add_of_le' (Nat.le_trans (Nat.le_add_left 1 _) hrounds)
      have hcount := escapeCount_le t
      rw [escapeCount_cons_of_ne hbyte] at hsize
      have hroom : output.length + [byte].length ≤ size := by
        rw [List.length_singleton]
        omega
      obtain ⟨stopped, hstopped⟩ := ih rounds (output ++ [byte]) (drop_succ_of_drop h) (by omega)
        (Nat.le_of_succ_le_succ hrounds) (by simp; omega)
      refine ⟨stopped, ?_⟩
      rw [unescapeLoop_plain h (by omega) hbyte, append_eq hroom, Option.bind_some, hstopped,
        unescape_plain hbyte, Option.map_map]
      simp [Function.comp_def]
  | literal t ih =>
      have hlength : (escaped 'u'.toUInt8 t).length = t.length + 2 := rfl
      rw [hlength] at hrounds hend hsize
      obtain ⟨rounds, rfl⟩ := Nat.exists_eq_add_of_le' (Nat.le_trans (Nat.le_add_left 1 _) hrounds)
      rw [unescapeLoop_literal h (by omega), hend, utf16LiteralToUtf8_eq h hsize, unescape_literal]
      cases hliteral : literal t with
      | none => exact ⟨i, rfl⟩
      | some result =>
          obtain ⟨codepoint, left⟩ := result
          simp only [Option.bind_some]
          cases hbytes : utf8Bytes codepoint with
          | none => exact ⟨i, rfl⟩
          | some bytes =>
              obtain ⟨digits, hne, rfl⟩ := suffix_of_literal hliteral
              have hroom := length_utf8Bytes_of_literal hliteral hbytes
              have hleft : content.drop (i + (digits.length + 2)) =
                  left ++ '"'.toUInt8 :: rest := by
                have hdrop : content.drop i =
                    escaped 'u'.toUInt8 digits ++ (left ++ '"'.toUInt8 :: rest) := by
                  rw [h, escaped, escaped]
                  simp
                exact drop_of_drop hdrop
              have hskip : (digits ++ left).length + 2 - left.length = digits.length + 2 := by
                rw [List.length_append]
                omega
              rw [List.length_append] at hrounds hend hsize hroom
              obtain ⟨stopped, hstopped⟩ := ih codepoint left hliteral
                rounds (output ++ bytes) hleft (by omega) (by omega)
                (by rw [List.length_append]; omega)
              refine ⟨stopped, ?_⟩
              simp only [Option.map_some, Option.getD_some, Option.bind_some, hskip]
              rw [if_neg (by omega), List.length_append, ← hend, hstopped, Option.map_map]
              simp [Function.comp_def]
  | letter byte t hbyte ih =>
      have hlength : (escaped byte t).length = t.length + 2 := rfl
      rw [hlength] at hrounds hend hsize
      obtain ⟨rounds, rfl⟩ := Nat.exists_eq_add_of_le' (Nat.le_trans (Nat.le_add_left 1 _) hrounds)
      rw [unescapeLoop_letter h (by omega) hbyte, unescape_letter hbyte]
      cases unescaped byte with
      | none => exact ⟨i, rfl⟩
      | some c =>
          have hcount := escapeCount_le t
          rw [escaped, escapeCount_escape] at hsize
          have hroom : output.length + [c].length ≤ size := by
            rw [List.length_singleton]
            omega
          have htail : content.drop (i + 2) = t ++ '"'.toUInt8 :: rest :=
            drop_of_drop (s := [_, _]) h
          obtain ⟨stopped, hstopped⟩ := ih rounds (output ++ [c])
            htail (by omega) (by omega) (by rw [List.length_append, List.length_singleton]; omega)
          refine ⟨stopped, ?_⟩
          simp only [append_eq hroom, Option.bind_some]
          rw [hstopped, Option.map_map]
          simp [Function.comp_def]

/-- The text of a string, between its quotes, and what it stands for. -/
def IsString (text s : List UInt8) : Prop := Unquoted text ∧ unescape text = some s

theorem parseString_eq {b : ParseBuffer} {t : List UInt8} (h : b.Rest ('"'.toUInt8 :: t)) :
    parseString b =
      match literalBody t with
      | none => some (none, { b with offset := b.offset + 1 })
      | some body =>
          let inputEnd := b.offset + 1 + body.length
          let size := inputEnd - b.offset - escapeCount body + 1
          (unescapeLoop b.content inputEnd size (b.length + 1) (b.offset + 1) []).bind fun result =>
            match result with
            | (none, stopped) => some (none, { b with offset := stopped })
            | (some output, _) => (append size output [0]).map fun _ =>
                (some output, { b with offset := inputEnd + 1 }) := by
  have hlength := h.length_eq
  rw [List.length_cons] at hlength
  have hrounds : b.length + 1 = (b.offset + t.length + 1) + 2 := by omega
  rw [parseString, h.first]
  simp only [Option.bind_eq_bind, Option.bind_some, List.headD_cons, ne_eq, not_true_eq_false,
    if_false]
  rw [hrounds, findStringEnd_eq (drop_succ_of_drop h) (by omega)]
  cases literalBody t with
  | none => rfl
  | some body =>
      simp only [Option.map_some, Option.bind_some, Nat.zero_add]
      cases unescapeLoop b.content (b.offset + 1 + body.length)
          (b.offset + 1 + body.length - b.offset - escapeCount body + 1)
          (b.offset + t.length + 1 + 2) (b.offset + 1) [] with
      | none => rfl
      | some result =>
          obtain ⟨output | output, stopped⟩ := result
          · rfl
          · simp only [Option.bind_some]
            cases append _ output [0] <;> rfl

/-- The block between the passes has the room that the second one needs. -/
theorem parseString_of_unquoted {b : ParseBuffer} {body t : List UInt8}
    (h : b.Rest (quoted body ++ t)) (hbody : Unquoted body) :
    ∃ stopped, parseString b = some (match unescape body with
      | none => (none, { b with offset := stopped })
      | some s => (some s, b.skip (quoted body).length)) := by
  have hlength := h.length_eq
  have hcons : b.Rest ('"'.toUInt8 :: (body ++ '"'.toUInt8 :: t)) := by
    rw [ParseBuffer.Rest, h, quoted]
    simp
  have hrest : b.content.drop (b.offset + 1) = body ++ '"'.toUInt8 :: (t ++ [0]) := by
    rw [drop_succ_of_drop hcons]
    simp
  have hcount := escapeCount_le body
  have hbytes : (quoted body).length = body.length + 2 := by simp [quoted]
  rw [List.length_append, hbytes] at hlength
  obtain ⟨stopped, hstopped⟩ :=
    unescapeLoop_eq (b.offset + 1 + body.length - b.offset - escapeCount body + 1) b.length []
      hrest rfl (by omega) (by rw [List.length_nil]; omega)
  refine ⟨stopped, ?_⟩
  rw [parseString_eq hcons, literalBody_append hbody]
  simp only [hstopped, Option.bind_some, List.nil_append]
  cases hs : unescape body with
  | none => rfl
  | some s =>
      have hroom := length_unescape hs
      simp only [Option.map_some]
      have hoffset : b.offset + 1 + body.length + 1 = b.offset + (body.length + 2) := by omega
      rw [append_eq (by rw [List.length_singleton]; omega), Option.map_some, hbytes, hoffset]
      rfl

theorem parseString_quoted {b : ParseBuffer} {body s t : List UInt8}
    (h : b.Rest (quoted body ++ t)) (hs : IsString body s) :
    parseString b = some (some s, b.skip (quoted body).length) := by
  obtain ⟨stopped, hstopped⟩ := parseString_of_unquoted h hs.1
  rw [hstopped, hs.2]

/-- `parse_string` in front of a terminator has a result, which is a string that it has
read or a failure. -/
theorem parseString_cases {b : ParseBuffer} {t : List UInt8} (h : b.Rest t) :
    (∃ stopped, parseString b = some (none, { b with offset := stopped })) ∨
    ∃ body s rest, t = quoted body ++ rest ∧ IsString body s ∧
      parseString b = some (some s, b.skip (quoted body).length) := by
  cases t with
  | nil =>
      refine Or.inl ⟨b.offset + 1, ?_⟩
      rw [parseString, h.first]
      rfl
  | cons byte t =>
      rcases eq_or_ne byte '"'.toUInt8 with rfl | hquote
      · cases hliteral : literalBody t with
        | none =>
            refine Or.inl ⟨b.offset + 1, ?_⟩
            rw [parseString_eq h, hliteral]
        | some body =>
            obtain ⟨hbody, rest, rfl⟩ := unquoted_of_literalBody hliteral
            have heq : '"'.toUInt8 :: (body ++ '"'.toUInt8 :: rest) = quoted body ++ rest := by
              simp [quoted]
            rw [heq] at h
            obtain ⟨stopped, hstopped⟩ := parseString_of_unquoted h hbody
            cases hs : unescape body with
            | none =>
                rw [hs] at hstopped
                exact Or.inl ⟨stopped, hstopped⟩
            | some s =>
                rw [hs] at hstopped
                exact Or.inr ⟨body, s, rest, heq, ⟨hbody, hs⟩, hstopped⟩
      · refine Or.inl ⟨b.offset + 1, ?_⟩
        rw [parseString, h.first]
        simp only [Option.bind_eq_bind, Option.bind_some, List.headD_cons]
        rw [if_pos hquote]
        rfl

end CHomework.CJson
