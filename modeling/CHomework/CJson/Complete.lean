import Mathlib.Data.List.Forall2
import CHomework.CJson.Parser

namespace CHomework.CJson

open CHomework.Buffer CHomework.CString CHomework.Json

variable {D : Type}

/-- What stands behind a value does not continue a number. -/
def StopsNumber (rest : List UInt8) : Prop := ∀ byte ∈ rest.head?, isNumberByte byte = false

def StopsItem (item : Item D) (rest : List UInt8) : Prop :=
  (∃ x, item = .number x) → StopsNumber rest

/-- A child is followed by a comma or a closing bracket. -/
def Delimited (rest : List UInt8) : Prop :=
  ∃ byte ∈ rest.head?, byte = ','.toUInt8 ∨ byte = ']'.toUInt8 ∨ byte = '\x7d'.toUInt8

/-- A function reads the text at this depth wherever what follows stops it. -/
def ReadsAt {α : Type} (parse : ParseBuffer → Option (Outcome α)) (depth : Nat)
    (stops : List UInt8 → Prop) (a : α) (text : List UInt8) : Prop :=
  ∀ (b : ParseBuffer) (rest : List UInt8), b.depth = depth → b.Rest (text ++ rest) → stops rest →
    parse b = some (some a, b.skip text.length)

theorem ReadsAt.mono {α : Type} {parse : ParseBuffer → Option (Outcome α)} {depth : Nat}
    {stops stops' : List UInt8 → Prop} {a : α} {text : List UInt8}
    (h : ReadsAt parse depth stops a text) (hstops : ∀ rest, stops' rest → stops rest) :
    ReadsAt parse depth stops' a text :=
  fun b rest hdepth hb hrest => h b rest hdepth hb (hstops rest hrest)

theorem isSpace_of_isNumberByte {byte : UInt8} (h : isNumberByte byte = true) :
    isSpace byte = false := by
  have hle : byte ≤ 32 → isNumberByte byte = false := by
    intro hle
    have hnat : byte.toNat ≤ 32 := UInt8.le_iff_toNat_le.mp hle
    have hlt : ∀ c : UInt8, 32 < c.toNat → byte ≠ c := by
      rintro c hc rfl
      omega
    have hdigit : ¬ '0'.toUInt8 ≤ byte := by
      intro hdigit
      have hnat' : 48 ≤ byte.toNat := UInt8.le_iff_toNat_le.mp hdigit
      omega
    simp [isNumberByte, hdigit, hlt '+'.toUInt8 (by decide), hlt '-'.toUInt8 (by decide),
      hlt 'e'.toUInt8 (by decide), hlt 'E'.toUInt8 (by decide), hlt '.'.toUInt8 (by decide)]
  simp only [isSpace, decide_eq_false_iff_not]
  intro hspace
  rw [hle hspace] at h
  cases h

theorem isNumberByte_of_startsNumber {byte : UInt8} (h : StartsNumber byte) :
    isNumberByte byte = true := by
  rcases h with rfl | h
  · rfl
  · simp [isNumberByte, h]
theorem Delimited.stopsNumber {w rest : List UInt8} (h : Delimited rest)
    (hw : ∀ byte ∈ w, isSpace byte = true) : StopsNumber (w ++ rest) := by
  intro byte hbyte
  cases w with
  | nil =>
      obtain ⟨c, hc, hcases⟩ := h
      cases hbyte.symm.trans hc
      rcases hcases with rfl | rfl | rfl <;> rfl
  | cons c w =>
      cases hbyte
      cases hnumber : isNumberByte byte with
      | false => rfl
      | true => 
          have hspace := hw byte List.mem_cons_self
          rw [isSpace_of_isNumberByte hnumber] at hspace
          cases hspace

theorem Delimited.not_space {rest : List UInt8} (h : Delimited rest) :
    ∀ byte ∈ rest.head?, isSpace byte = false := by
  intro byte hbyte
  obtain ⟨c, hc, hcases⟩ := h
  cases hbyte.symm.trans hc
  rcases hcases with rfl | rfl | rfl <;> rfl

/-- A value starts with a byte that is no white space, closes nothing and is not part of a
byte order mark. -/
theorem exists_head_of_text {num : Numbers D} {n : Nat} {tree : Item D} {text : List UInt8}
    (h : Text (lexis num) n tree text) :
    ∃ byte t, text = byte :: t ∧ isSpace byte = false ∧ byte ≠ ']'.toUInt8 ∧ byte ≠ 0xef := by
  cases h with
  | null => exact ⟨_, _, rfl, rfl, by decide, by decide⟩
  | false => exact ⟨_, _, rfl, rfl, by decide, by decide⟩
  | true => exact ⟨_, _, rfl, rfl, by decide, by decide⟩
  | number hx =>
      obtain ⟨byte, hbyte, hstarts⟩ := hx.starts
      have hnumber := isNumberByte_of_startsNumber hstarts
      cases text with
      | nil => cases hbyte
      | cons c text =>
          cases hbyte
          refine ⟨byte, text, rfl, isSpace_of_isNumberByte hnumber, ?_, ?_⟩ <;>
            rintro rfl <;> cases hnumber
  | string hs => exact ⟨_, _, rfl, rfl, by decide, by decide⟩
  | emptyArray hw => exact ⟨_, _, rfl, rfl, by decide, by decide⟩
  | array parts => exact ⟨_, _, rfl, rfl, by decide, by decide⟩
  | emptyObject hw => exact ⟨_, _, rfl, rfl, by decide, by decide⟩
  | object members => exact ⟨_, _, rfl, rfl, by decide, by decide⟩

section Children

variable {α : Type} {parseChild : ParseBuffer → Option (Outcome α)} {depth : Nat}

theorem parseSeparated_of_forall₂ {children : List α} {texts : List (List UInt8)}
    (hread : List.Forall₂ (ReadsAt parseChild depth Delimited) children texts)
    (hne : children ≠ []) {b : ParseBuffer} {rest : List UInt8} (rounds : Nat)
    (hdepth : b.depth = depth) (h : (b.skip 1).Rest (commas texts ++ rest))
    (hrest : Delimited rest) (hclose : rest.head? ≠ some ','.toUInt8)
    (hrounds : (commas texts).length < rounds) :
    parseSeparated parseChild rounds b =
      some (some children, (b.skip 1).skip (commas texts).length) := by
  induction hread generalizing rounds b with
  | nil => exact absurd rfl hne
  | @cons child text children texts hchild hread ih =>
      obtain ⟨rounds, rfl⟩ := Nat.exists_eq_succ_of_ne_zero (Nat.ne_of_gt (Nat.zero_lt_of_lt hrounds))
      cases hread with
      | nil =>
          have hone : commas [text] = text := by simp [commas]
          rw [hone] at h ⊢
          rw [parseSeparated, hchild (b.skip 1) rest hdepth h hrest]
          simp only [Option.bind_eq_bind, Option.bind_some]
          rw [h.skip.accesses (by decide), Option.bind_some, if_neg (by simpa using hclose)]
          rfl
      | @cons next nextText children texts hnext hread =>
          rw [commas_cons_of_ne_nil text (List.cons_ne_nil _ _)] at h hrounds ⊢
          rw [List.append_assoc] at h
          have hcomma : Delimited (','.toUInt8 :: commas (nextText :: texts) ++ rest) :=
            ⟨_, rfl, Or.inl rfl⟩
          rw [List.length_append, List.length_cons] at hrounds
          have htail := ih (List.cons_ne_nil _ _) rounds (b := (b.skip 1).skip text.length) hdepth
            h.skip.skip_one (by omega)
          rw [parseSeparated, hchild (b.skip 1) _ hdepth h hcomma]
          simp only [Option.bind_eq_bind, Option.bind_some]
          rw [h.skip.accesses (by decide), Option.bind_some, if_pos (by rfl), htail]
          simp only [Option.bind_some, ParseBuffer.skip_skip, List.length_append, List.length_cons]
          exact congrArg (fun n => some (some (child :: next :: children), b.skip n)) (by omega)

/-- The text of a child is read with the white space in front of it and without. -/
structure ReadsChild (parse : ParseBuffer → Option (Outcome α)) (depth : Nat) (closing : UInt8)
    (a : α) (text : List UInt8) : Prop where
  reads : ReadsAt parse depth Delimited a text
  spaced : ∃ w byte t, text = w ++ byte :: t ∧ (∀ byte ∈ w, isSpace byte = true) ∧
    isSpace byte = false ∧ byte ≠ closing ∧ ReadsAt parse depth Delimited a (byte :: t)

/-- The white space in front of the first child is skipped with the opening bracket. -/
theorem parseChildren_of_forall₂ {opens : ParseBuffer → Option Bool} {opening closing : UInt8}
    (hopens : ∀ b t, b.Rest (opening :: t) → opens b = some true)
    (hclosing : closing = ']'.toUInt8 ∨ closing = '\x7d'.toUInt8) {children : List α}
    {texts : List (List UInt8)} {b : ParseBuffer} {rest : List UInt8}
    (hread : List.Forall₂ (ReadsChild parseChild (b.depth + 1) closing) children texts)
    (hne : children ≠ []) (hdepth : b.depth < nestingLimit)
    (h : b.Rest (bracketed opening closing (commas texts) ++ rest)) :
    parseChildren opens closing parseChild b = some (some children,
      b.skip (bracketed opening closing (commas texts)).length) := by
  have hclosing' : closing ≠ 0 := by rcases hclosing with rfl | rfl <;> decide
  have hdelimited : Delimited (closing :: rest) := ⟨closing, rfl, Or.inr hclosing⟩
  have hcomma : (closing :: rest).head? ≠ some ','.toUInt8 := by
    rcases hclosing with rfl | rfl <;> simp <;> decide
  cases hread with
  | nil => exact absurd rfl hne
  | @cons child _ children texts hfirst hread =>
      obtain ⟨w, byte, t, rfl, hw, hspace, hbyte, hchild⟩ := hfirst.spaced
      have hforall : List.Forall₂ (ReadsAt parseChild (b.depth + 1) Delimited)
          (child :: children) ((byte :: t) :: texts) :=
        .cons hchild (hread.imp fun _ _ hread => hread.reads)
      rw [commas_append_cons] at h ⊢
      generalize htext : commas ((byte :: t) :: texts) = text at h ⊢
      have hhead : ∃ t, text = byte :: t := by
        cases texts with
        | nil => exact ⟨t, by rw [← htext]; simp [commas]⟩
        | cons next texts =>
            rw [commas_cons_of_ne_nil _ (List.cons_ne_nil _ _)] at htext
            exact ⟨_, htext.symm⟩
      obtain ⟨t', rfl⟩ := hhead
      have hsplit : bracketed opening closing (w ++ byte :: t') ++ rest =
          opening :: (w ++ (byte :: t' ++ closing :: rest)) := by
        simp [bracketed]
      rw [hsplit] at h
      have hlength := h.length_eq
      have hdeep : (({ b with depth := b.depth + 1 }.skip w.length).skip 1).Rest
          (byte :: t' ++ closing :: rest) := by
        rw [ParseBuffer.skip_skip, Nat.add_comm w.length, ← ParseBuffer.skip_skip]
        exact (ParseBuffer.Rest.skip_one (b := { b with depth := b.depth + 1 }) h).skip
      rw [← htext] at hdeep
      have hseparated := parseSeparated_of_forall₂ hforall hne (b.length + 1) rfl hdeep hdelimited
        hcomma (by rw [htext]; simp at hlength ⊢; omega)
      rw [htext] at hseparated hdeep
      rw [parseChildren_eq hopens hclosing' h hw (by simpa using hspace),
        if_neg (Nat.not_le.mpr hdepth), if_neg (by simpa using hbyte), hseparated]
      simp only [Option.bind_some]
      rw [hdeep.skip.accesses hclosing', Option.map_some]
      simp only [List.head?_cons, decide_true, if_true]
      have hoffset : b.offset + w.length + 1 + (byte :: t').length + 1 =
          b.offset + (bracketed opening closing (w ++ byte :: t')).length := by
        simp only [bracketed, List.length_cons, List.length_append, List.length_nil]
        omega
      exact congrArg (fun n => some (some (child :: children), { b with offset := n })) hoffset

theorem parseChildren_nil {opens : ParseBuffer → Option Bool} {opening closing : UInt8}
    (hopens : ∀ b t, b.Rest (opening :: t) → opens b = some true) (hclosing : closing ≠ 0)
    (hspace : isSpace closing = false) {w rest : List UInt8} {b : ParseBuffer}
    (hw : ∀ byte ∈ w, isSpace byte = true) (hdepth : b.depth < nestingLimit)
    (h : b.Rest (bracketed opening closing w ++ rest)) :
    parseChildren opens closing parseChild b =
      some (some [], b.skip (bracketed opening closing w).length) := by
  have hsplit : bracketed opening closing w ++ rest = opening :: (w ++ closing :: rest) := by
    simp [bracketed]
  rw [hsplit] at h
  rw [parseChildren_eq hopens hclosing h hw (by simpa using hspace),
    if_neg (Nat.not_le.mpr hdepth), if_pos (List.head?_cons ..)]
  simp [bracketed]

theorem parseElement_readsAt {num : Numbers D}
    {parseValue : ParseBuffer → Option (Outcome (Item D))} (part : Part (List UInt8) (Number D))
    (hspaced : part.Spaced (lexis num))
    (hhead : ∃ byte t, part.text = byte :: t ∧ isSpace byte = false)
    (hread : ReadsAt parseValue depth StopsNumber part.tree part.text) :
    ReadsAt (parseElement parseValue) depth Delimited part.tree part.render := by
  intro b rest hdepth h hrest
  obtain ⟨byte, t, htext, hspace⟩ := hhead
  have hsplit : part.render ++ rest =
      part.before ++ (part.text ++ (part.after ++ rest)) := by
    simp [Part.render]
  rw [hsplit] at h
  have hbefore := h.bufferSkipWhitespace_append hspaced.1 (by simp [htext, hspace])
  have hafter := h.skip.skip.bufferSkipWhitespace_append hspaced.2 hrest.not_space
  rw [parseElement, hbefore,
    hread (b.skip part.before.length) _ hdepth h.skip (hrest.stopsNumber hspaced.2)]
  simp only [Option.bind_eq_bind, Option.bind_some]
  rw [hafter]
  simp only [ParseBuffer.skip_skip, Part.render, List.length_append]
  exact congrArg (fun n => some (some part.tree, b.skip n)) (by omega)

theorem parseMember_readsAt {num : Numbers D}
    {parseValue : ParseBuffer → Option (Outcome (Item D))} {m : Member (List UInt8) (Number D)}
    (hspaced : m.Spaced (lexis num)) (hname : IsString m.text m.name)
    (hhead : ∃ byte t, m.value.text = byte :: t ∧ isSpace byte = false)
    (hread : ReadsAt parseValue depth StopsNumber m.value.tree m.value.text) :
    ReadsAt (parseMember parseValue) depth Delimited m.entry m.render := by
  intro b rest hdepth h hrest
  have hsplit : m.render ++ rest = m.before ++ (quoted m.text ++
      (m.after ++ (':'.toUInt8 :: (m.value.render ++ rest)))) := by
    simp [Member.render]
  rw [hsplit] at h
  have hbefore := h.bufferSkipWhitespace_append hspaced.1.1 (by simp [quoted]; decide)
  have hstring := parseString_quoted h.skip hname
  have hafter := h.skip.skip.bufferSkipWhitespace_append hspaced.1.2 (by simp; decide)
  have hcolon := h.skip.skip.skip.accesses (show ':'.toUInt8 ≠ 0 by decide)
  have hvalue := parseElement_readsAt m.value hspaced.2 hhead hread
    ((((b.skip m.before.length).skip (quoted m.text).length).skip m.after.length).skip 1) rest
    hdepth h.skip.skip.skip.skip_one hrest
  rw [parseMember, hbefore, hstring]
  simp only [Option.bind_eq_bind, Option.bind_some]
  rw [hafter, hcolon, Option.bind_some, if_pos (by rfl), hvalue]
  simp only [Option.bind_some, ParseBuffer.skip_skip, Member.render, List.length_append,
    List.length_cons]
  exact congrArg (fun n => some (some m.entry, b.skip n)) (by omega)

theorem parseElement_readsChild {num : Numbers D}
    {parseValue : ParseBuffer → Option (Outcome (Item D))} {part : Part (List UInt8) (Number D)}
    (hspaced : part.Spaced (lexis num))
    (hhead : ∃ byte t, part.text = byte :: t ∧ isSpace byte = false ∧ byte ≠ ']'.toUInt8)
    (hread : ReadsAt parseValue depth StopsNumber part.tree part.text) :
    ReadsChild (parseElement parseValue) depth ']'.toUInt8 part.tree part.render := by
  obtain ⟨byte, t, htext, hspace, hclosing⟩ := hhead
  refine ⟨parseElement_readsAt part hspaced ⟨byte, t, htext, hspace⟩ hread,
    part.before, byte, t ++ part.after, ?_, hspaced.1, hspace, hclosing, ?_⟩
  · rw [Part.render, htext, List.cons_append]
  · have hbare := parseElement_readsAt { part with before := [] }
      ⟨List.forall_mem_nil _, hspaced.2⟩ ⟨byte, t, htext, hspace⟩ hread
    rwa [Part.render, List.nil_append, htext, List.cons_append] at hbare

theorem parseMember_readsChild {num : Numbers D}
    {parseValue : ParseBuffer → Option (Outcome (Item D))} {m : Member (List UInt8) (Number D)}
    (hspaced : m.Spaced (lexis num)) (hname : IsString m.text m.name)
    (hhead : ∃ byte t, m.value.text = byte :: t ∧ isSpace byte = false)
    (hread : ReadsAt parseValue depth StopsNumber m.value.tree m.value.text) :
    ReadsChild (parseMember parseValue) depth '\x7d'.toUInt8 m.entry m.render := by
  refine ⟨parseMember_readsAt hspaced hname hhead hread,
    m.before, '"'.toUInt8, _, rfl, hspaced.1.1, rfl, by decide, ?_⟩
  exact parseMember_readsAt (m := { m with before := [] })
    ⟨⟨List.forall_mem_nil _, hspaced.1.2⟩, hspaced.2⟩ hname hhead hread

end Children

section Values

variable {num : Numbers D} {calls : Nat} {b : ParseBuffer} {t : List UInt8}

theorem not_isPrefix_cons {c : Char} {chars : List Char} {byte : UInt8} (h : c.toUInt8 ≠ byte) :
    ¬ word (c :: chars) <+: byte :: t :=
  fun hprefix => h (List.cons_prefix_cons.mp hprefix).1

/-- A byte that none of the words starts with decides what is parsed. -/
theorem parseValue_of_head {byte : UInt8} (h : b.Rest (byte :: t)) (hn : 'n'.toUInt8 ≠ byte)
    (hf : 'f'.toUInt8 ≠ byte) (ht : 't'.toUInt8 ≠ byte) :
    parseValue num (calls + 1) b =
      if byte = '"'.toUInt8 then
        (parseString b).map fun result => (result.1.map .string, result.2)
      else if StartsNumber byte then parseNumber num b
      else if byte = '['.toUInt8 then parseArray (parseValue num calls) b
      else if byte = '\x7b'.toUInt8 then parseObject (parseValue num calls) b
      else some (none, b) := by
  rw [parseValue_of_rest num calls h,
    if_neg (not_isPrefix_cons hn), if_neg (not_isPrefix_cons hf), if_neg (not_isPrefix_cons ht)]
  rfl

theorem not_isPrefix_word {c c' : Char} {chars chars' : List Char}
    (h : c.toUInt8 ≠ c'.toUInt8) : ¬ word (c :: chars) <+: word (c' :: chars') ++ t :=
  not_isPrefix_cons h

theorem parseValue_number {x : Number D} {text rest : List UInt8} (hx : IsNumber num text x)
    (h : b.Rest (text ++ rest)) (hrest : StopsNumber rest) :
    parseValue num (calls + 1) b = some (some (.number x), b.skip text.length) := by
  have hnumber := parseNumber_of_isNumber h hx hrest
  obtain ⟨byte, hbyte, hstarts⟩ := hx.starts
  have hne : ∀ c : UInt8, isNumberByte c = false → c ≠ byte := by
    rintro c hc rfl
    rw [isNumberByte_of_startsNumber hstarts] at hc
    cases hc
  cases text with
  | nil => cases hbyte
  | cons c text =>
      cases hbyte
      rw [List.cons_append] at h
      rw [parseValue_of_head h (hne _ rfl) (hne _ rfl) (hne _ rfl), if_neg (hne _ rfl).symm,
        if_pos hstarts]
      exact hnumber

theorem parseValue_string {text s rest : List UInt8} (hs : IsString text s)
    (h : b.Rest (quoted text ++ rest)) :
    parseValue num (calls + 1) b = some (some (.string s), b.skip (quoted text).length) := by
  have hstring := parseString_quoted h hs
  rw [quoted, List.cons_append] at h
  rw [parseValue_of_head h (by decide) (by decide) (by decide), if_pos rfl, hstring]
  rfl

theorem parseValue_array {text rest : List UInt8} {children : List (Item D)}
    (h : b.Rest (bracketed '['.toUInt8 ']'.toUInt8 text ++ rest))
    (hread : parseChildren (fun b => b.first.map (· = '['.toUInt8)) ']'.toUInt8
        (parseElement (parseValue num calls)) b =
      some (some children, b.skip (bracketed '['.toUInt8 ']'.toUInt8 text).length)) :
    parseValue num (calls + 1) b =
      some (some (.array children), b.skip (bracketed '['.toUInt8 ']'.toUInt8 text).length) := by
  rw [bracketed, List.cons_append] at h
  rw [parseValue_of_head h (by decide) (by decide) (by decide), if_neg (by decide),
    if_neg (by decide), if_pos rfl, parseArray, hread]
  rfl

theorem parseValue_object {text rest : List UInt8} {children : List (List UInt8 × Item D)}
    (h : b.Rest (bracketed '\x7b'.toUInt8 '\x7d'.toUInt8 text ++ rest))
    (hread : parseChildren (·.accesses '\x7b'.toUInt8) '\x7d'.toUInt8
        (parseMember (parseValue num calls)) b =
      some (some children, b.skip (bracketed '\x7b'.toUInt8 '\x7d'.toUInt8 text).length)) :
    parseValue num (calls + 1) b = some (some (.object children),
      b.skip (bracketed '\x7b'.toUInt8 '\x7d'.toUInt8 text).length) := by
  rw [bracketed, List.cons_append] at h
  rw [parseValue_of_head h (by decide) (by decide) (by decide), if_neg (by decide),
    if_neg (by decide), if_neg (by decide), if_pos rfl, parseObject, hread]
  rfl

theorem opens_array (b : ParseBuffer) (t : List UInt8) (h : b.Rest ('['.toUInt8 :: t)) :
    (b.first.map fun byte => decide (byte = '['.toUInt8)) = some true := by
  simp [h.first]

theorem opens_object (b : ParseBuffer) (t : List UInt8) (h : b.Rest ('\x7b'.toUInt8 :: t)) :
    b.accesses '\x7b'.toUInt8 = some true := by
  simp [h.accesses (show '\x7b'.toUInt8 ≠ 0 by decide)]

/-- Every text of the lexis is read, whatever is around it. -/
theorem parseValue_readsAt {n : Nat} {tree : Item D} {text : List UInt8}
    (h : Text (lexis num) n tree text) {depth : Nat} (hcalls : n ≤ calls)
    (hdepth : n + depth ≤ nestingLimit) :
    ReadsAt (parseValue num (calls + 1)) depth (StopsItem tree) tree text := by
  induction h generalizing calls depth with
  | null =>
      intro b rest _ h _
      rw [parseValue_of_rest num calls h, if_pos (List.prefix_append _ _)]
      rfl
  | false =>
      intro b rest _ h _
      rw [parseValue_of_rest num calls h, if_neg (not_isPrefix_word (by decide)),
        if_pos (List.prefix_append _ _)]
      rfl
  | true =>
      intro b rest _ h _
      rw [parseValue_of_rest num calls h, if_neg (not_isPrefix_word (by decide)),
        if_neg (not_isPrefix_word (by decide)), if_pos (List.prefix_append _ _)]
      rfl
  | number hx => exact fun b rest _ h hrest => parseValue_number hx h (hrest ⟨_, rfl⟩)
  | string hs => exact fun b rest _ h _ => parseValue_string hs h
  | emptyArray hw =>
      rintro b rest rfl h _
      exact parseValue_array h (parseChildren_nil opens_array (by decide) rfl hw (by omega) h)
  | @array n parts hne hspaced htexts ih =>
      rintro b rest rfl h _
      obtain ⟨calls, rfl⟩ := Nat.exists_eq_add_of_le' (Nat.le_of_add_left_le hcalls)
      apply parseValue_array h
      have hread : List.Forall₂
          (ReadsChild (parseElement (parseValue num (calls + 1))) (b.depth + 1) ']'.toUInt8)
          (parts.map Part.tree) (parts.map Part.render) := by
        rw [List.forall₂_map_left_iff, List.forall₂_map_right_iff, List.forall₂_same]
        intro part hpart
        obtain ⟨byte, t, htext, hspace, hclosing, -⟩ := exists_head_of_text (htexts part hpart)
        exact parseElement_readsChild (hspaced part hpart) ⟨byte, t, htext, hspace, hclosing⟩
          ((ih part hpart (by omega) (by omega)).mono fun _ hrest _ => hrest)
      exact parseChildren_of_forall₂ opens_array (Or.inl rfl) hread (by simpa using hne) (by omega) h
  | emptyObject hw =>
      rintro b rest rfl h _
      exact parseValue_object h (parseChildren_nil opens_object (by decide) rfl hw (by omega) h)
  | @object n members hne hspaced hnames htexts ih =>
      rintro b rest rfl h _
      obtain ⟨calls, rfl⟩ := Nat.exists_eq_add_of_le' (Nat.le_of_add_left_le hcalls)
      apply parseValue_object h
      have hread : List.Forall₂
          (ReadsChild (parseMember (parseValue num (calls + 1))) (b.depth + 1) '\x7d'.toUInt8)
          (members.map Member.entry) (members.map Member.render) := by
        rw [List.forall₂_map_left_iff, List.forall₂_map_right_iff, List.forall₂_same]
        intro m hm
        obtain ⟨byte, t, htext, hspace, -⟩ := exists_head_of_text (htexts m hm)
        exact parseMember_readsChild (hspaced m hm) (hnames m hm) ⟨byte, t, htext, hspace⟩
          ((ih m hm (by omega) (by omega)).mono fun _ hrest _ => hrest)
      exact parseChildren_of_forall₂ opens_object (Or.inr rfl) hread (by simpa using hne)
        (by omega) h

end Values

theorem parseWithLength_of_document {num : Numbers D} {value rest : List UInt8} {item : Item D}
    (h : Document num value item rest) (hrest : StopsItem item rest) :
    parseWithLength num (value ++ [0]) = some (.ok item) := by
  obtain ⟨bom, w, text, rfl, hbom, hw, htext⟩ := h.split
  obtain ⟨byte, t, hhead, hspace, -, hmark⟩ := exists_head_of_text htext
  have hstart : ParseBuffer.Rest
      { content := (bom ++ (w ++ (text ++ rest))) ++ [0], offset := 0, depth := 0 }
      (bom ++ (w ++ (text ++ rest))) := rfl
  have hfirst : ∃ byte ∈ (w ++ (text ++ rest)).head?, byte ≠ 0xef := by
    cases w with
    | nil => exact ⟨byte, by rw [hhead]; rfl, hmark⟩
    | cons c w =>
        refine ⟨c, rfl, ?_⟩
        rintro rfl
        cases hw _ List.mem_cons_self
  have hvalue := parseValue_readsAt htext (Nat.le_refl _) (Nat.le_refl _) _ rest rfl
    hstart.skip.skip hrest
  rw [parseWithLength, hstart.skipUtf8Bom_append rfl hbom hfirst]
  simp only [Option.bind_eq_bind, Option.bind_some]
  rw [hstart.skip.bufferSkipWhitespace_append hw (by simp [hhead, hspace]), hvalue]
  rfl

/-- Every text that starts with a value is accepted as this value, unless a number goes on
behind it. The allocations succeed. -/
theorem parse_of_document {num : Numbers D} {value : CStr} {rest : List UInt8} {item : Item D}
    (h : Document num value.bytes item rest) (hrest : StopsItem item rest)
    (stray : List UInt8) : parse num (value.bytes ++ 0 :: stray) = some (.ok item) := by
  rw [parse_eq]
  exact parseWithLength_of_document h hrest

/-- Numbers as their own texts. -/
def textNumbers : Numbers (List UInt8) where
  strtod text := (text.takeWhile isNumberByte, (text.takeWhile isNumberByte).length)
  strtod_le text := (List.takeWhile_prefix isNumberByte).length_le
  strtod_take text := by
    rw [← List.prefix_iff_eq_take.mp (List.takeWhile_prefix isNumberByte), List.takeWhile_idem]
  trunc text := text.foldl (fun n byte => 10 * n + (byte.toNat - 48)) 0

theorem parse_of_document_spaced :
    parse textNumbers (word ['[', ' ', '1', '2', ']', ',', 'x'] ++ 0 :: [7, 7]) =
      some (.ok (.array [.number ⟨word ['1', '2'], 12⟩])) := by
  have hx : IsNumber textNumbers (word ['1', '2']) ⟨word ['1', '2'], 12⟩ :=
    ⟨⟨_, rfl, Or.inr (by decide)⟩, by decide +kernel, by decide, rfl, rfl⟩
  have hspaced : Part.Spaced (lexis textNumbers)
      ⟨word [' '], .number ⟨word ['1', '2'], 12⟩, word ['1', '2'], []⟩ :=
    ⟨List.forall_mem_singleton.mpr rfl, List.forall_mem_nil _⟩
  have htext : Text (lexis textNumbers) 1 (.array [.number ⟨word ['1', '2'], 12⟩])
      (word ['[', ' ', '1', '2', ']']) :=
    .array [_] (List.cons_ne_nil _ _) (List.forall_mem_singleton.mpr hspaced)
      (List.forall_mem_singleton.mpr (.number hx))
  have hdocument : Document textNumbers
      (⟨word ['[', ' ', '1', '2', ']', ',', 'x'], by decide⟩ : CStr).bytes
      (.array [.number ⟨word ['1', '2'], 12⟩]) (word [',', 'x']) :=
    ⟨[], [], _, rfl, Or.inl rfl, List.forall_mem_nil _, htext.mono (by decide)⟩
  exact parse_of_document hdocument (by rintro ⟨x, hx⟩; cases hx) [7, 7]

end CHomework.CJson
