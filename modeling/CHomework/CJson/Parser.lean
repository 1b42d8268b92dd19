import Mathlib.Data.List.TakeWhile
import CHomework.CJson.Strings

/-!
The parser in front of a terminator: it stays inside the input and inside its blocks, and
what it accepts is a text of the item that it returns.
-/

namespace CHomework.CJson

open CHomework.Buffer CHomework.CString CHomework.Json

variable {D : Type}

def StartsNumber (byte : UInt8) : Prop :=
  byte = '-'.toUInt8 ∨ ('0'.toUInt8 ≤ byte ∧ byte ≤ '9'.toUInt8)

instance (byte : UInt8) : Decidable (StartsNumber byte) :=
  inferInstanceAs (Decidable (_ ∨ _))

structure IsNumber (num : Numbers D) (text : List UInt8) (x : Number D) : Prop where
  starts : ∃ byte ∈ text.head?, StartsNumber byte
  isNumberByte : ∀ byte ∈ text, isNumberByte byte = true
  length_le : text.length ≤ 63
  strtod : (num.strtod text).2 = text.length
  eq_number : x = num.number (num.strtod text).1

/-- What the parser takes for white space, strings and numbers. -/
def lexis (num : Numbers D) : Lexis (List UInt8) (Number D) where
  space byte := isSpace byte = true
  string := IsString
  number := IsNumber num

/-- An outcome of a function that fails or reads a text of its result. -/
def Accepts {α : Type} (b : ParseBuffer) (t : List UInt8) (P : α → List UInt8 → Prop)
    (outcome : Option (Outcome α)) : Prop :=
  (∃ b' : ParseBuffer, outcome = some (none, b') ∧ b'.content = b.content) ∨
  ∃ a text rest, t = text ++ rest ∧ P a text ∧ outcome = some (some a, b.skip text.length)

theorem takeWhile_isNumberByte_append {text rest : List UInt8}
    (h : ∀ byte ∈ rest.head?, isNumberByte byte = false) :
    (text ++ rest).takeWhile isNumberByte = text.takeWhile isNumberByte := by
  rw [List.takeWhile_append]
  split
  · rename_i hlength
    have hall := (List.takeWhile_prefix isNumberByte (l := text)).eq_of_length hlength
    cases rest with
    | nil => rw [List.takeWhile_nil, List.append_nil, hall]
    | cons byte rest => 
        rw [List.takeWhile_cons_of_neg (by simp [h byte rfl]), List.append_nil, hall]
  · rfl

theorem numberCString_append {text rest : List UInt8}
    (h : ∀ byte ∈ rest.head?, isNumberByte byte = false) :
    numberCString (text ++ rest) = numberCString text := by
  rw [numberCString, List.take_append]
  apply takeWhile_isNumberByte_append
  intro byte hbyte
  cases rest with
  | nil => simp at hbyte
  | cons c rest =>
      cases hn : 63 - text.length with
      | zero => simp [hn] at hbyte
      | succ n => 
          rw [hn] at hbyte
          exact h byte hbyte

theorem IsNumber.numberCString_eq {num : Numbers D} {text : List UInt8} {x : Number D}
    (h : IsNumber num text x) : numberCString text = text := by
  rw [numberCString, List.take_of_length_le h.length_le, List.takeWhile_eq_self_iff]
  exact h.isNumberByte

theorem parseNumber_of_isNumber {num : Numbers D} {b : ParseBuffer} {text rest : List UInt8}
    {x : Number D} (h : b.Rest (text ++ rest)) (hx : IsNumber num text x)
    (hrest : ∀ byte ∈ rest.head?, isNumberByte byte = false) :
    parseNumber num b = some (some (.number x), b.skip text.length) := by
  have hstring : numberCString (b.content.drop b.offset) = text := by
    rw [h, numberCString_append (by simp [show isNumberByte 0 = false from rfl]),
      numberCString_append hrest, hx.numberCString_eq]
  obtain ⟨byte, hbyte, -⟩ := hx.starts
  have hne : text.length ≠ 0 := by
    rintro hzero
    rw [List.length_eq_zero_iff.mp hzero] at hbyte
    cases hbyte
  rw [parseNumber, hstring, hx.eq_number, ← hx.strtod, if_neg (hx.strtod ▸ hne)]

theorem parseNumber_cases {num : Numbers D} {b : ParseBuffer} {t : List UInt8} {byte : UInt8}
    (h : b.Rest (byte :: t)) (hbyte : StartsNumber byte) (n : Nat) :
    Accepts b (byte :: t) (Text (lexis num) n) (parseNumber num b) := by
  have hstring : numberCString (b.content.drop b.offset) = numberCString (byte :: t) := by
    rw [h, numberCString_append (by simp [show isNumberByte 0 = false from rfl])]
  have hle := num.strtod_le (numberCString (byte :: t))
  have htake := num.strtod_take (numberCString (byte :: t))
  rw [parseNumber, hstring]
  split
  · exact Or.inl ⟨b, rfl, rfl⟩
  · rename_i hne
    have hprefix : (numberCString (byte :: t)).take (num.strtod (numberCString (byte :: t))).2 <+:
        byte :: t :=
      (List.take_prefix _ _).trans ((List.takeWhile_prefix _).trans (List.take_prefix _ _))
    have hlength := List.length_take_of_le hle
    have hshort := (List.takeWhile_prefix isNumberByte (l := (byte :: t).take 63)).length_le
    have hall : ∀ c ∈ numberCString (byte :: t), isNumberByte c = true :=
      fun c hc => List.mem_takeWhile_imp hc
    generalize htext : (numberCString (byte :: t)).take _ = text at hprefix hlength htake
    obtain ⟨rest, hrest⟩ := hprefix
    have hx : IsNumber num text (num.number (num.strtod (numberCString (byte :: t))).1) := by
      refine ⟨⟨byte, ?_, hbyte⟩, ?_, ?_, ?_, by rw [htake]⟩
      · cases text with
        | nil => exact absurd hlength.symm hne
        | cons c text =>
            cases hrest
            rfl
      · intro c hc
        exact hall c (List.mem_of_mem_take (htext ▸ hc))
      · rw [List.length_take] at hshort
        have hle63 := Nat.le_trans hle hshort
        omega
      · rw [htake, hlength]
    exact Or.inr ⟨_, text, rest, hrest.symm, .number hx, by rw [hlength]⟩

theorem parseValue_of_rest (num : Numbers D) (calls : Nat) {b : ParseBuffer} {t : List UInt8}
    (h : b.Rest t) :
    parseValue num (calls + 1) b =
      if word ['n', 'u', 'l', 'l'] <+: t then some (some .null, b.skip 4)
      else if word ['f', 'a', 'l', 's', 'e'] <+: t then some (some .false, b.skip 5)
      else if word ['t', 'r', 'u', 'e'] <+: t then some (some .true, b.skip 4)
      else if t.headD 0 = '"'.toUInt8 then
        (parseString b).map fun result => (result.1.map .string, result.2)
      else if StartsNumber (t.headD 0) then parseNumber num b
      else if t.headD 0 = '['.toUInt8 then parseArray (parseValue num calls) b
      else if t.headD 0 = '\x7b'.toUInt8 then parseObject (parseValue num calls) b
      else some (none, b) := by
  have hnull := h.reads (word ['n', 'u', 'l', 'l']) (by decide)
  have hfalse := h.reads (word ['f', 'a', 'l', 's', 'e']) (by decide)
  have htrue := h.reads (word ['t', 'r', 'u', 'e']) (by decide)
  rw [parseValue, show [0x6e, 0x75, 0x6c, 0x6c] = word ['n', 'u', 'l', 'l'] from rfl,
    show [0x66, 0x61, 0x6c, 0x73, 0x65] = word ['f', 'a', 'l', 's', 'e'] from rfl,
    show [0x74, 0x72, 0x75, 0x65] = word ['t', 'r', 'u', 'e'] from rfl, hnull, hfalse, htrue,
    h.canAccess, h.first]
  simp only [Option.bind_eq_bind, Option.bind_some, decide_eq_true_eq, Bool.not_true,
    Bool.false_eq_true, if_false, StartsNumber]
  split
  · rfl
  split
  · rfl
  split
  · rfl
  split
  · cases parseString b <;> rfl
  · rfl

section Children

variable {α : Type} {parseChild : ParseBuffer → Option (Outcome α)}
  {R : α → List UInt8 → Prop} {depth : Nat}

/-- A list of children from its text. -/
def Separated (R : α → List UInt8 → Prop) (children : List α) (text : List UInt8) : Prop :=
  ∃ texts, children ≠ [] ∧ List.Forall₂ R children texts ∧ text = commas texts

theorem parseSeparated_cases
    (hchild : ∀ b t, b.depth = depth → b.Rest t → Accepts b t R (parseChild b))
    (rounds : Nat) {b : ParseBuffer} {t : List UInt8} (hdepth : b.depth = depth)
    (h : (b.skip 1).Rest t) (hrounds : t.length < rounds) :
    Accepts (b.skip 1) t (Separated R) (parseSeparated parseChild rounds b) := by
  induction rounds generalizing b t with
  | zero => exact absurd hrounds (Nat.not_lt_zero _)
  | succ rounds ih =>
      rcases hchild (b.skip 1) t hdepth h with
        ⟨b', hb', hcontent⟩ | ⟨child, text, rest, rfl, hR, hb'⟩
      · refine Or.inl ⟨b', ?_, hcontent⟩
        rw [parseSeparated, hb']
        rfl
      · have hrest := h.skip
        have hone : Separated R [child] text :=
          ⟨[text], List.cons_ne_nil _ _, .cons hR .nil, by simp [commas]⟩
        rw [parseSeparated, hb']
        simp only [Option.bind_eq_bind, Option.bind_some,
          hrest.accesses (show ','.toUInt8 ≠ 0 by decide), decide_eq_true_eq]
        cases rest with
        | nil => exact Or.inr ⟨[child], text, [], rfl, hone, rfl⟩
        | cons byte rest =>
            rcases eq_or_ne byte ','.toUInt8 with rfl | hcomma
            · rw [if_pos (by rfl)]
              rw [List.length_append, List.length_cons] at hrounds
              rcases ih (b := (b.skip 1).skip text.length) hdepth hrest.skip_one (by omega) with
                ⟨b', hb', hcontent⟩ | ⟨children, text', rest, rfl, ⟨texts, hne, hR', rfl⟩, hb'⟩
              · exact Or.inl ⟨b', by rw [hb']; rfl, hcontent⟩
              · have htexts : texts ≠ [] := by
                  rintro rfl
                  cases hR'
                  exact hne rfl
                refine Or.inr ⟨child :: children, text ++ ','.toUInt8 :: commas texts, rest, by simp,
                  ⟨text :: texts, List.cons_ne_nil _ _, .cons hR hR',
                    (commas_cons_of_ne_nil text htexts).symm⟩, ?_⟩
                rw [hb']
                simp only [Option.bind_some, ParseBuffer.skip_skip, List.length_append,
                  List.length_cons]
                exact congrArg (fun n => some (some (child :: children), b.skip n)) (by omega)
            · rw [if_neg (by simpa using hcomma)]
              exact Or.inr ⟨[child], text, byte :: rest, rfl, hone, rfl⟩

theorem parseElement_cases {num : Numbers D} {n : Nat}
    {parseValue : ParseBuffer → Option (Outcome (Item D))} {b : ParseBuffer} {t : List UInt8}
    (hvalue : ∀ b t, b.depth = depth → b.Rest t →
      Accepts b t (Text (lexis num) n) (parseValue b))
    (hdepth : b.depth = depth) (h : b.Rest t) :
    Accepts b t (IsPart (lexis num) n) (parseElement parseValue b) := by
  obtain ⟨before, t, rfl, hbefore, hskip, h⟩ := h.exists_spaces
  rw [parseElement, hskip]
  rcases hvalue (b.skip before.length) t hdepth h with
    ⟨b', hb', hcontent⟩ | ⟨item, text, rest, rfl, htext, hb'⟩
  · exact Or.inl ⟨b', by rw [hb']; rfl, hcontent⟩
  · obtain ⟨after, rest, rfl, hafter, hskip, h⟩ := h.skip.exists_spaces
    refine Or.inr ⟨item, before ++ (text ++ after), rest, by simp,
      ⟨⟨before, item, text, after⟩, ⟨hbefore, hafter⟩, htext, rfl, rfl⟩, ?_⟩
    rw [hb']
    simp only [Option.bind_eq_bind, Option.bind_some]
    rw [hskip]
    simp only [ParseBuffer.skip_skip, List.length_append]
    exact congrArg (fun n => some (some item, b.skip n)) (by omega)

theorem parseMember_cases {num : Numbers D} {n : Nat}
    {parseValue : ParseBuffer → Option (Outcome (Item D))} {b : ParseBuffer} {t : List UInt8}
    (hvalue : ∀ b t, b.depth = depth → b.Rest t →
      Accepts b t (Text (lexis num) n) (parseValue b))
    (hdepth : b.depth = depth) (h : b.Rest t) :
    Accepts b t (IsMember (lexis num) n) (parseMember parseValue b) := by
  obtain ⟨before, t, rfl, hbefore, hskip, h⟩ := h.exists_spaces
  rw [parseMember, hskip]
  rcases parseString_cases h with ⟨stopped, hstopped⟩ | ⟨text, name, t, rfl, hname, hstring⟩
  · refine Or.inl ⟨{ b with offset := stopped }, ?_, rfl⟩
    rw [hstopped]
    rfl
  obtain ⟨after, t, rfl, hafter, hskip, h⟩ := h.skip.exists_spaces
  rw [hstring]
  simp only [Option.bind_eq_bind, Option.bind_some]
  rw [hskip, h.accesses (by decide), Option.bind_some]
  simp only [decide_eq_true_eq]
  split
  · rename_i hcolon
    cases t with
    | nil => cases hcolon
    | cons byte t =>
        cases hcolon
        rcases parseElement_cases (b := ((((b.skip _).skip _).skip _).skip 1)) hvalue hdepth
          h.skip_one with
          ⟨b', hb', hcontent⟩ | ⟨item, _, rest, rfl, ⟨part, hspaced, hpart, rfl, rfl⟩, hb'⟩
        · refine Or.inl ⟨b', ?_, hcontent⟩
          rw [hb']
          rfl
        · refine Or.inr ⟨(name, part.tree), _, rest, ?_, ⟨⟨before, name, text, after, part⟩,
            ⟨⟨hbefore, hafter⟩, hspaced⟩, hname, hpart, rfl, rfl⟩, ?_⟩
          · simp [Member.render]
          · rw [hb']
            simp only [Option.bind_some, ParseBuffer.skip_skip, Member.render, List.length_append,
              List.length_cons]
            exact congrArg (fun n => some (some (name, part.tree), b.skip n)) (by omega)
  · exact Or.inl ⟨_, rfl, rfl⟩

theorem parseChildren_eq {opens : ParseBuffer → Option Bool} {opening closing : UInt8}
    (hopens : ∀ b t, b.Rest (opening :: t) → opens b = some true) (hclosing : closing ≠ 0)
    {b : ParseBuffer} {w t : List UInt8} (h : b.Rest (opening :: (w ++ t)))
    (hw : ∀ byte ∈ w, isSpace byte = true) (ht : ∀ byte ∈ t.head?, isSpace byte = false) :
    parseChildren opens closing parseChild b =
      if nestingLimit ≤ b.depth then some (none, b)
      else if t.head? = some closing then some (some [], b.skip (w.length + 2))
      else
        (parseSeparated parseChild (b.length + 1)
          ({ b with depth := b.depth + 1 }.skip w.length)).bind fun result =>
        match result with
        | (none, b) => some (none, b)
        | (some children, b) =>
            (b.accesses closing).map fun closed =>
              if closed then
                (some children, { b with offset := b.offset + 1, depth := b.depth - 1 })
              else (none, b) := by
  have hdeep : { b with depth := b.depth + 1 }.Rest (opening :: (w ++ t)) := h
  have hskip : ({ b with depth := b.depth + 1 }.skip 1).bufferSkipWhitespace =
      ({ b with depth := b.depth + 1 }.skip 1).skip w.length :=
    hdeep.skip_one.bufferSkipWhitespace_append hw ht
  have hrest := hdeep.skip_one.skip
  rw [parseChildren]
  split
  · rfl
  simp only [Option.bind_eq_bind, hopens _ _ hdeep, Option.bind_some]
  rw [hskip, hrest.accesses hclosing, hrest.canAccess]
  have hback : { ({ b with depth := b.depth + 1 }.skip 1).skip w.length with
      offset := (({ b with depth := b.depth + 1 }.skip 1).skip w.length).offset - 1 } =
      { b with depth := b.depth + 1 }.skip w.length := by
    simp only [ParseBuffer.skip, ParseBuffer.mk.injEq, true_and, and_true]
    omega
  simp only [Option.bind_some, decide_eq_true_eq, Bool.not_true, Bool.false_eq_true, if_false]
  split
  · have hoffset : b.offset + 1 + w.length + 1 = b.offset + (w.length + 2) := by omega
    exact congrArg (fun n => some (some [], { b with offset := n })) hoffset
  rw [hback]
  refine congrArg (Option.bind _) (funext fun result => ?_)
  obtain ⟨children | children, b'⟩ := result
  · rfl
  · simp only []
    cases b'.accesses closing with
    | none => rfl
    | some closed => cases closed <;> rfl

theorem parseChildren_cases {opens : ParseBuffer → Option Bool} {opening : UInt8}
    (closing : UInt8) (hopens : ∀ b t, b.Rest (opening :: t) → opens b = some true)
    (hclosing : closing ≠ 0)
    (hspace : ∀ spaces a text, (∀ byte ∈ spaces, isSpace byte = true) → R a text →
      R a (spaces ++ text))
    {b : ParseBuffer} {t : List UInt8} (h : b.Rest (opening :: t))
    (hchild : b.depth < nestingLimit → ∀ b' t, b'.depth = b.depth + 1 → b'.Rest t →
      Accepts b' t R (parseChild b')) :
    Accepts b (opening :: t) (fun children text => b.depth < nestingLimit ∧
        ∃ inner, text = bracketed opening closing inner ∧
          (children = [] ∧ (∀ byte ∈ inner, isSpace byte = true) ∨ Separated R children inner))
      (parseChildren opens closing parseChild b) := by
  have hlength := h.length_eq
  obtain ⟨w, t, rfl, hw, ht⟩ := exists_spaces t
  rw [parseChildren_eq hopens hclosing h hw ht]
  split
  · exact Or.inl ⟨b, rfl, rfl⟩
  rename_i hdepth
  rw [Nat.not_le] at hdepth
  split
  · rename_i hclosed
    cases t with
    | nil => cases hclosed
    | cons byte t =>
        cases hclosed
        refine Or.inr ⟨[], bracketed opening closing w, t, by simp [bracketed],
          ⟨hdepth, w, rfl, Or.inl ⟨rfl, hw⟩⟩, ?_⟩
        simp [bracketed]
  · have hdeep : (({ b with depth := b.depth + 1 }.skip w.length).skip 1).Rest t := by
      rw [ParseBuffer.skip_skip, Nat.add_comm w.length, ← ParseBuffer.skip_skip]
      exact (ParseBuffer.Rest.skip_one (b := { b with depth := b.depth + 1 }) h).skip
    rw [List.length_cons, List.length_append] at hlength
    rcases parseSeparated_cases (hchild hdepth) (b.length + 1) rfl hdeep (by omega) with
      ⟨b', hb', hcontent⟩ | ⟨children, text, rest, rfl, ⟨texts, hne, hR, rfl⟩, hb'⟩
    · exact Or.inl ⟨b', by rw [hb', Option.bind_some], hcontent⟩
    · rw [hb', Option.bind_some]
      simp only [hdeep.skip.accesses hclosing, Option.map_some, decide_eq_true_eq]
      split
      · rename_i hclosed
        cases rest with
        | nil => cases hclosed
        | cons byte rest =>
            cases hclosed
            cases hR with
            | nil => exact absurd rfl hne
            | @cons child text children texts hfirst hR =>
                refine Or.inr ⟨child :: children,
                  bracketed opening closing (w ++ commas (text :: texts)), rest,
                  by simp [bracketed], ⟨hdepth, _, rfl, Or.inr ⟨(w ++ text) :: texts,
                    List.cons_ne_nil _ _, .cons (hspace w child text hw hfirst) hR,
                    (commas_append_cons text).symm⟩⟩, ?_⟩
                have hoffset : b.offset + w.length + 1 + (commas (text :: texts)).length + 1 =
                    b.offset + (bracketed opening closing (w ++ commas (text :: texts))).length := by
                  simp only [bracketed, List.length_cons, List.length_append, List.length_nil]
                  omega
                exact congrArg (fun n => some (some (child :: children), { b with offset := n }))
                  hoffset
      · exact Or.inl ⟨_, rfl, rfl⟩

end Children

section Brackets

variable {num : Numbers D} {parseValue : ParseBuffer → Option (Outcome (Item D))}
  {b : ParseBuffer} {t : List UInt8}

theorem parseArray_cases (h : b.Rest ('['.toUInt8 :: t))
    (hvalue : b.depth < nestingLimit → ∀ b' t, b'.depth = b.depth + 1 → b'.Rest t →
      Accepts b' t (Text (lexis num) (nestingLimit - (b.depth + 1))) (parseValue b')) :
    Accepts b ('['.toUInt8 :: t) (Text (lexis num) (nestingLimit - b.depth))
      (parseArray parseValue b) := by
  have hopens : ∀ b t, b.Rest ('['.toUInt8 :: t) →
      (fun b : ParseBuffer => b.first.map fun byte => decide (byte = '['.toUInt8)) b =
        some true := by
    intro b t h
    simp [h.first]
  have hchildren := parseChildren_cases ']'.toUInt8 hopens (by decide)
    (fun _ item text hspaces
      (hpart : IsPart (lexis num) (nestingLimit - (b.depth + 1)) item text) =>
      hpart.space_append hspaces) h
    (fun hlt b' t hb' h => parseElement_cases (hvalue hlt) hb' h)
  rw [parseArray]
  rcases hchildren with
    ⟨b', hb', hcontent⟩ | ⟨items, text, rest, heq, ⟨hlt, inner, rfl, hinner⟩, hb'⟩
  · exact Or.inl ⟨b', by rw [hb']; rfl, hcontent⟩
  · have hlevel : nestingLimit - b.depth = nestingLimit - (b.depth + 1) + 1 := by omega
    refine Or.inr ⟨.array items, _, rest, heq, ?_, by rw [hb']; rfl⟩
    rw [hlevel]
    rcases hinner with ⟨rfl, hspaces⟩ | ⟨texts, hne, hparts, rfl⟩
    · exact .emptyArray hspaces
    · exact .array_of_forall₂ hne hparts

theorem parseObject_cases (h : b.Rest ('\x7b'.toUInt8 :: t))
    (hvalue : b.depth < nestingLimit → ∀ b' t, b'.depth = b.depth + 1 → b'.Rest t →
      Accepts b' t (Text (lexis num) (nestingLimit - (b.depth + 1))) (parseValue b')) :
    Accepts b ('\x7b'.toUInt8 :: t) (Text (lexis num) (nestingLimit - b.depth))
      (parseObject parseValue b) := by
  have hopens : ∀ (b : ParseBuffer) t, b.Rest ('\x7b'.toUInt8 :: t) →
      (fun b : ParseBuffer => b.accesses '\x7b'.toUInt8) b = some true := by
    intro b t h
    simp [h.accesses (show '\x7b'.toUInt8 ≠ 0 by decide)]
  have hchildren := parseChildren_cases '\x7d'.toUInt8 hopens (by decide)
    (fun _ entry text hspaces
      (hmember : IsMember (lexis num) (nestingLimit - (b.depth + 1)) entry text) =>
      hmember.space_append hspaces) h
    (fun hlt b' t hb' h => parseMember_cases (hvalue hlt) hb' h)
  rw [parseObject]
  rcases hchildren with
    ⟨b', hb', hcontent⟩ | ⟨entries, text, rest, heq, ⟨hlt, inner, rfl, hinner⟩, hb'⟩
  · exact Or.inl ⟨b', by rw [hb']; rfl, hcontent⟩
  · have hlevel : nestingLimit - b.depth = nestingLimit - (b.depth + 1) + 1 := by omega
    refine Or.inr ⟨.object entries, _, rest, heq, ?_, by rw [hb']; rfl⟩
    rw [hlevel]
    rcases hinner with ⟨rfl, hspaces⟩ | ⟨texts, hne, hmembers, rfl⟩
    · exact .emptyObject hspaces
    · exact .object_of_forall₂ hne hmembers

end Brackets

/-- What `parse_value` accepts in front of a terminator is a text of its result, nested as
deep as the limit leaves room for. -/
theorem parseValue_cases (num : Numbers D) {calls : Nat} {b : ParseBuffer} {t : List UInt8}
    (h : b.Rest t) (hdepth : b.depth ≤ nestingLimit) (hcalls : nestingLimit < calls + b.depth) :
    Accepts b t (Text (lexis num) (nestingLimit - b.depth)) (parseValue num calls b) := by
  induction calls generalizing b t with
  | zero => omega
  | succ calls ih =>
      have hvalue : b.depth < nestingLimit → ∀ b' t, b'.depth = b.depth + 1 → b'.Rest t →
          Accepts b' t (Text (lexis num) (nestingLimit - (b.depth + 1)))
            (parseValue num calls b') := by
        intro hlt b' t hb' h
        have hstep := ih h (by omega) (by omega)
        rwa [hb'] at hstep
      rw [parseValue_of_rest num calls h]
      split
      · rename_i hword
        obtain ⟨rest, rfl⟩ := hword
        exact Or.inr ⟨.null, _, rest, rfl, .null, rfl⟩
      split
      · rename_i hword
        obtain ⟨rest, rfl⟩ := hword
        exact Or.inr ⟨.false, _, rest, rfl, .false, rfl⟩
      split
      · rename_i hword
        obtain ⟨rest, rfl⟩ := hword
        exact Or.inr ⟨.true, _, rest, rfl, .true, rfl⟩
      split
      · rcases parseString_cases h with ⟨stopped, hstopped⟩ | ⟨body, s, rest, rfl, hs, hstring⟩
        · exact Or.inl ⟨{ b with offset := stopped }, by rw [hstopped]; rfl, rfl⟩
        · exact Or.inr ⟨.string s, _, rest, rfl, .string hs, by rw [hstring]; rfl⟩
      split
      · rename_i hnumber
        cases t with
        | nil => exact absurd hnumber (by decide)
        | cons byte t => exact parseNumber_cases h hnumber _
      split
      · rename_i hopening
        cases t with
        | nil => exact absurd hopening (by decide)
        | cons byte t =>
            cases hopening
            exact parseArray_cases h hvalue
      split
      · rename_i hopening
        cases t with
        | nil => exact absurd hopening (by decide)
        | cons byte t =>
            cases hopening
            exact parseObject_cases h hvalue
      · exact Or.inl ⟨b, rfl, rfl⟩

/-- A text that starts with a value: a byte order mark, white space, the value and the
rest. -/
structure Document (num : Numbers D) (value : List UInt8) (item : Item D)
    (rest : List UInt8) : Prop where
  split : ∃ bom w text, value = bom ++ (w ++ (text ++ rest)) ∧
    (bom = [] ∨ bom = [0xef, 0xbb, 0xbf]) ∧ (∀ byte ∈ w, isSpace byte = true) ∧
    Text (lexis num) nestingLimit item text

theorem parseWithLength_cases (num : Numbers D) (value : List UInt8) :
    (∃ position ≤ value.length, parseWithLength num (value ++ [0]) = some (.error position)) ∨
    ∃ item rest, Document num value item rest ∧
      parseWithLength num (value ++ [0]) = some (.ok item) := by
  obtain ⟨bom, t, heq, hbom, hskip, h⟩ := ParseBuffer.Rest.exists_bom
    (b := { content := value ++ [0], offset := 0, depth := 0 }) (t := value) rfl rfl
  obtain ⟨w, t, rfl, hw, hspaces, h⟩ := h.exists_spaces
  have hvalue := parseValue_cases num h (Nat.zero_le _) (Nat.lt_succ_self nestingLimit)
  rw [parseWithLength, hskip]
  simp only [Option.bind_eq_bind, Option.bind_some]
  rw [hspaces]
  rcases hvalue with ⟨b', hb', hcontent⟩ | ⟨item, text, rest, rfl, htext, hb'⟩
  · rw [hb']
    refine Or.inl ⟨_, ?_, rfl⟩
    have hlength : b'.length = value.length + 1 := by
      rw [ParseBuffer.length, hcontent]
      exact List.length_append
    split <;> omega
  · rw [hb']
    exact Or.inr ⟨item, rest, ⟨bom, w, text, heq, hbom, hw, htext⟩, rfl⟩

theorem parse_eq (num : Numbers D) (value : CStr) (stray : List UInt8) :
    parse num (value.bytes ++ 0 :: stray) = parseWithLength num (value.bytes ++ [0]) := by
  have hread : readString (value.bytes ++ 0 :: stray) = some value :=
    readString_of_terminated ⟨stray, by simp⟩
  rw [parse, hread]
  rfl

/-- `cJSON_Parse` of a C string reads nothing behind its terminator and writes nothing
outside of its blocks: it returns the item of a text, or where it failed. -/
theorem parse_cases (num : Numbers D) (value : CStr) (stray : List UInt8) :
    (∃ position ≤ strlen value,
      parse num (value.bytes ++ 0 :: stray) = some (.error position)) ∨
    ∃ item rest, Document num value.bytes item rest ∧
      parse num (value.bytes ++ 0 :: stray) = some (.ok item) := by
  rw [parse_eq]
  exact parseWithLength_cases num value.bytes

end CHomework.CJson
