import Mathlib.Data.List.Basic

/-!
JSON texts. The grammar of the values is separated from the lexis, which says what the
white space, the strings and the numbers are, so that a text of one lexis is a text of any
other one that reads its strings and its numbers.
-/

namespace CHomework.Json

inductive Tree (S N : Type) where
  | null
  | false
  | true
  | number (n : N)
  | string (s : S)
  | array (items : List (Tree S N))
  | object (members : List (S × Tree S N))

/-- A string is what stands between its quotes. -/
structure Lexis (S N : Type) where
  space : UInt8 → Prop
  string : List UInt8 → S → Prop
  number : List UInt8 → N → Prop

section Values

variable {S N : Type}

def Lexis.Spaces (lexis : Lexis S N) (text : List UInt8) : Prop :=
  ∀ byte ∈ text, lexis.space byte

def quoted (text : List UInt8) : List UInt8 := '"'.toUInt8 :: (text ++ ['"'.toUInt8])

def commas (texts : List (List UInt8)) : List UInt8 := [','.toUInt8].intercalate texts

def bracketed (opening closing : UInt8) (text : List UInt8) : List UInt8 :=
  opening :: (text ++ [closing])

def word (chars : List Char) : List UInt8 := chars.map Char.toUInt8

/-- A value with the white space around it. -/
structure Part (S N : Type) where
  before : List UInt8
  tree : Tree S N
  text : List UInt8
  after : List UInt8

namespace Part

def render (part : Part S N) : List UInt8 := part.before ++ (part.text ++ part.after)

def Spaced (lexis : Lexis S N) (part : Part S N) : Prop :=
  lexis.Spaces part.before ∧ lexis.Spaces part.after

end Part

/-- A member of an object, with the white space around its name. -/
structure Member (S N : Type) where
  before : List UInt8
  name : S
  text : List UInt8
  after : List UInt8
  value : Part S N

namespace Member

def render (m : Member S N) : List UInt8 :=
  m.before ++ (quoted m.text ++ (m.after ++ ':'.toUInt8 :: m.value.render))

def Spaced (lexis : Lexis S N) (m : Member S N) : Prop :=
  (lexis.Spaces m.before ∧ lexis.Spaces m.after) ∧ m.value.Spaced lexis

def entry (m : Member S N) : S × Tree S N := (m.name, m.value.tree)

end Member

/-- The texts of a value that has at most so many arrays and objects inside each other. -/
inductive Text (lexis : Lexis S N) : Nat → Tree S N → List UInt8 → Prop
  | null {n : Nat} : Text lexis n .null (word ['n', 'u', 'l', 'l'])
  | false {n : Nat} : Text lexis n .false (word ['f', 'a', 'l', 's', 'e'])
  | true {n : Nat} : Text lexis n .true (word ['t', 'r', 'u', 'e'])
  | number {n : Nat} {text : List UInt8} {x : N} :
      lexis.number text x → Text lexis n (.number x) text
  | string {n : Nat} {text : List UInt8} {s : S} :
      lexis.string text s → Text lexis n (.string s) (quoted text)
  | emptyArray {n : Nat} {spaces : List UInt8} : lexis.Spaces spaces →
      Text lexis (n + 1) (.array []) (bracketed '['.toUInt8 ']'.toUInt8 spaces)
  | array {n : Nat} (parts : List (Part S N)) : parts ≠ [] →
      (∀ part ∈ parts, part.Spaced lexis) →
      (∀ part ∈ parts, Text lexis n part.tree part.text) →
      Text lexis (n + 1) (.array (parts.map Part.tree))
        (bracketed '['.toUInt8 ']'.toUInt8 (commas (parts.map Part.render)))
  | emptyObject {n : Nat} {spaces : List UInt8} : lexis.Spaces spaces →
      Text lexis (n + 1) (.object []) (bracketed '\x7b'.toUInt8 '\x7d'.toUInt8 spaces)
  | object {n : Nat} (members : List (Member S N)) : members ≠ [] →
      (∀ m ∈ members, m.Spaced lexis) →
      (∀ m ∈ members, lexis.string m.text m.name) →
      (∀ m ∈ members, Text lexis n m.value.tree m.value.text) →
      Text lexis (n + 1) (.object (members.map Member.entry))
        (bracketed '\x7b'.toUInt8 '\x7d'.toUInt8 (commas (members.map Member.render)))

/-- A child of an array from its text, and a child of an object. -/
def IsPart (lexis : Lexis S N) (n : Nat) (tree : Tree S N) (text : List UInt8) : Prop :=
  ∃ part : Part S N, part.Spaced lexis ∧ Text lexis n part.tree part.text ∧
    part.tree = tree ∧ part.render = text

def IsMember (lexis : Lexis S N) (n : Nat) (entry : S × Tree S N) (text : List UInt8) : Prop :=
  ∃ m : Member S N, m.Spaced lexis ∧ lexis.string m.text m.name ∧
    Text lexis n m.value.tree m.value.text ∧ m.entry = entry ∧ m.render = text

section Children

variable {lexis : Lexis S N} {n : Nat} {texts : List (List UInt8)} {spaces text : List UInt8}

theorem commas_cons_of_ne_nil (text : List UInt8) (h : texts ≠ []) :
    commas (text :: texts) = text ++ ','.toUInt8 :: commas texts := by
  rw [commas, List.intercalate_cons_of_ne_nil h, List.append_assoc]
  rfl

theorem commas_append_cons (text : List UInt8) :
    commas ((spaces ++ text) :: texts) = spaces ++ commas (text :: texts) := by
  cases texts with
  | nil => simp [commas]
  | cons next texts =>
      rw [commas_cons_of_ne_nil _ (List.cons_ne_nil _ _),
        commas_cons_of_ne_nil _ (List.cons_ne_nil _ _), List.append_assoc]

theorem IsPart.space_append {tree : Tree S N} (h : IsPart lexis n tree text)
    (hspaces : lexis.Spaces spaces) : IsPart lexis n tree (spaces ++ text) := by
  obtain ⟨part, hspaced, htext, rfl, rfl⟩ := h
  refine ⟨{ part with before := spaces ++ part.before }, ⟨?_, hspaced.2⟩, htext, rfl, ?_⟩
  · exact List.forall_mem_append.mpr ⟨hspaces, hspaced.1⟩
  · exact List.append_assoc _ _ _

theorem IsMember.space_append {entry : S × Tree S N} (h : IsMember lexis n entry text)
    (hspaces : lexis.Spaces spaces) : IsMember lexis n entry (spaces ++ text) := by
  obtain ⟨m, hspaced, hname, htext, rfl, rfl⟩ := h
  refine ⟨{ m with before := spaces ++ m.before }, ⟨⟨?_, hspaced.1.2⟩, hspaced.2⟩, hname, htext,
    rfl, ?_⟩
  · exact List.forall_mem_append.mpr ⟨hspaces, hspaced.1.1⟩
  · exact List.append_assoc _ _ _

theorem exists_parts {items : List (Tree S N)} (h : List.Forall₂ (IsPart lexis n) items texts) :
    ∃ parts : List (Part S N), (∀ part ∈ parts, part.Spaced lexis) ∧
      (∀ part ∈ parts, Text lexis n part.tree part.text) ∧
      parts.map Part.tree = items ∧ parts.map Part.render = texts := by
  induction h with
  | nil => exact ⟨[], by simp⟩
  | cons hpart _ ih =>
      obtain ⟨part, hspaced, htext, rfl, rfl⟩ := hpart
      obtain ⟨parts, hall, htexts, rfl, rfl⟩ := ih
      exact ⟨part :: parts, List.forall_mem_cons.mpr ⟨hspaced, hall⟩,
        List.forall_mem_cons.mpr ⟨htext, htexts⟩, rfl, rfl⟩

theorem exists_members {entries : List (S × Tree S N)}
    (h : List.Forall₂ (IsMember lexis n) entries texts) :
    ∃ members : List (Member S N), (∀ m ∈ members, m.Spaced lexis) ∧
      (∀ m ∈ members, lexis.string m.text m.name) ∧
      (∀ m ∈ members, Text lexis n m.value.tree m.value.text) ∧
      members.map Member.entry = entries ∧ members.map Member.render = texts := by
  induction h with
  | nil => exact ⟨[], by simp⟩
  | cons hmember _ ih =>
      obtain ⟨m, hspaced, hname, htext, rfl, rfl⟩ := hmember
      obtain ⟨members, hall, hnames, htexts, rfl, rfl⟩ := ih
      exact ⟨m :: members, List.forall_mem_cons.mpr ⟨hspaced, hall⟩,
        List.forall_mem_cons.mpr ⟨hname, hnames⟩, List.forall_mem_cons.mpr ⟨htext, htexts⟩,
        rfl, rfl⟩

theorem Text.array_of_forall₂ {items : List (Tree S N)} (hne : items ≠ [])
    (h : List.Forall₂ (IsPart lexis n) items texts) :
    Text lexis (n + 1) (.array items) (bracketed '['.toUInt8 ']'.toUInt8 (commas texts)) := by
  obtain ⟨parts, hspaced, htexts, rfl, rfl⟩ := exists_parts h
  exact .array parts (by simpa using hne) hspaced htexts

theorem Text.object_of_forall₂ {entries : List (S × Tree S N)} (hne : entries ≠ [])
    (h : List.Forall₂ (IsMember lexis n) entries texts) :
    Text lexis (n + 1) (.object entries)
      (bracketed '\x7b'.toUInt8 '\x7d'.toUInt8 (commas texts)) := by
  obtain ⟨members, hspaced, hnames, htexts, rfl, rfl⟩ := exists_members h
  exact .object members (by simpa using hne) hspaced hnames htexts

end Children

theorem Text.mono {lexis : Lexis S N} {n m : Nat} {tree : Tree S N} {text : List UInt8}
    (h : Text lexis n tree text) (hle : n ≤ m) : Text lexis m tree text := by
  induction h generalizing m with
  | null => exact .null
  | false => exact .false
  | true => exact .true
  | number hx => exact .number hx
  | string hs => exact .string hs
  | emptyArray hw =>
      obtain ⟨m, rfl⟩ := Nat.exists_eq_add_of_le' (Nat.le_of_add_left_le hle)
      exact .emptyArray hw
  | array parts hne hspaced _ ih =>
      obtain ⟨m, rfl⟩ := Nat.exists_eq_add_of_le' (Nat.le_of_add_left_le hle)
      exact .array parts hne hspaced fun part hpart => ih part hpart (Nat.le_of_succ_le_succ hle)
  | emptyObject hw =>
      obtain ⟨m, rfl⟩ := Nat.exists_eq_add_of_le' (Nat.le_of_add_left_le hle)
      exact .emptyObject hw
  | object members hne hspaced hnames _ ih =>
      obtain ⟨m, rfl⟩ := Nat.exists_eq_add_of_le' (Nat.le_of_add_left_le hle)
      exact .object members hne hspaced hnames fun m hm => ih m hm (Nat.le_of_succ_le_succ hle)

end Values

section Readings

variable {S S' N N' : Type}

def Tree.map (f : S → S') (g : N → N') : Tree S N → Tree S' N'
  | .null => .null
  | .false => .false
  | .true => .true
  | .number n => .number (g n)
  | .string s => .string (f s)
  | .array items => .array (items.map (Tree.map f g))
  | .object members => .object (members.map fun m => (f m.1, m.2.map f g))
decreasing_by
  · have hlt := List.sizeOf_lt_of_mem ‹_ ∈ items›
    simp only [Tree.array.sizeOf_spec]
    omega
  · have hlt := List.sizeOf_lt_of_mem ‹m ∈ members›
    have hsnd : sizeOf m = 1 + sizeOf m.1 + sizeOf m.2 := rfl
    simp only [Tree.object.sizeOf_spec]
    omega

variable (f : S → S') (g : N → N')

def Part.map (part : Part S N) : Part S' N' := { part with tree := part.tree.map f g }

def Member.map (m : Member S N) : Member S' N' :=
  { m with name := f m.name, value := m.value.map f g }

variable {f g} {lexis : Lexis S N} {lexis' : Lexis S' N'}

theorem Lexis.Spaces.of_space (hspace : ∀ byte, lexis.space byte → lexis'.space byte)
    {spaces : List UInt8} (h : lexis.Spaces spaces) : lexis'.Spaces spaces :=
  fun byte hbyte => hspace byte (h byte hbyte)

theorem Part.Spaced.of_space (hspace : ∀ byte, lexis.space byte → lexis'.space byte)
    {part : Part S N} (h : part.Spaced lexis) : (part.map f g).Spaced lexis' :=
  ⟨h.1.of_space hspace, h.2.of_space hspace⟩

theorem Member.Spaced.of_space (hspace : ∀ byte, lexis.space byte → lexis'.space byte)
    {m : Member S N} (h : m.Spaced lexis) : (m.map f g).Spaced lexis' :=
  ⟨⟨h.1.1.of_space hspace, h.1.2.of_space hspace⟩, h.2.of_space hspace⟩

/-- A text of one lexis is a text of another one that reads what the first one does. -/
theorem Text.map (hspace : ∀ byte, lexis.space byte → lexis'.space byte)
    (hstring : ∀ text s, lexis.string text s → lexis'.string text (f s))
    (hnumber : ∀ text x, lexis.number text x → lexis'.number text (g x))
    {n : Nat} {tree : Tree S N} {text : List UInt8} (h : Text lexis n tree text) :
    Text lexis' n (tree.map f g) text := by
  induction h with
  | null => simpa only [Tree.map] using .null
  | false => simpa only [Tree.map] using .false
  | true => simpa only [Tree.map] using .true
  | number hx => simpa only [Tree.map] using .number (hnumber _ _ hx)
  | string hs => simpa only [Tree.map] using .string (hstring _ _ hs)
  | emptyArray hw => simpa only [Tree.map, List.map_nil] using .emptyArray (hw.of_space hspace)
  | @array n parts hne hspaced _ ih =>
      have hparts : Text lexis' (n + 1) _ _ :=
        .array (parts.map (Part.map f g)) (by simpa using hne)
          (List.forall_mem_map.mpr fun part hpart => (hspaced part hpart).of_space hspace)
          (List.forall_mem_map.mpr ih)
      rw [List.map_map, List.map_map] at hparts
      rw [Tree.map, List.map_map]
      exact hparts
  | emptyObject hw => simpa only [Tree.map, List.map_nil] using .emptyObject (hw.of_space hspace)
  | @object n members hne hspaced hnames _ ih =>
      have hmembers : Text lexis' (n + 1) _ _ :=
        .object (members.map (Member.map f g)) (by simpa using hne)
          (List.forall_mem_map.mpr fun m hm => (hspaced m hm).of_space hspace)
          (List.forall_mem_map.mpr fun m hm => hstring _ _ (hnames m hm))
          (List.forall_mem_map.mpr ih)
      rw [List.map_map, List.map_map] at hmembers
      rw [Tree.map, List.map_map]
      exact hmembers

end Readings

def IsSpace (byte : UInt8) : Prop := byte = 0x20 ∨ byte = 0x0a ∨ byte = 0x0d ∨ byte = 0x09

def HexDigit (byte : UInt8) (digit : Nat) : Prop :=
  digit < 16 ∧ (byte = digit.digitChar.toUInt8 ∨ byte = digit.digitChar.toUpper.toUInt8)

instance (byte : UInt8) : Decidable (IsSpace byte) :=
  inferInstanceAs (Decidable (_ ∨ _))

instance (byte : UInt8) (digit : Nat) : Decidable (HexDigit byte digit) :=
  inferInstanceAs (Decidable (_ ∧ _))

/-- The four digits of a UTF-16 code unit. -/
inductive CodeUnit : List UInt8 → Nat → Prop
  | mk {p q r s : UInt8} {a b c d : Nat} :
      HexDigit p a → HexDigit q b → HexDigit r c → HexDigit s d →
      CodeUnit [p, q, r, s] (((a * 16 + b) * 16 + c) * 16 + d)

/-- The letters that stand for a character behind a backslash. -/
def escapes : List (Char × Char) :=
  [('"', '"'), ('\\', '\\'), ('/', '/'), ('b', '\x08'), ('f', '\x0c'), ('n', '\n'), ('r', '\r'),
    ('t', '\t')]

def escaped (letter : UInt8) (text : List UInt8) : List UInt8 := '\\'.toUInt8 :: letter :: text

inductive CharText : List UInt8 → Char → Prop
  | plain {c : Char} : 0x20 ≤ c.toNat → c ≠ '"' → c ≠ '\\' →
      CharText (String.utf8EncodeChar c) c
  | letter {letter c : Char} : (letter, c) ∈ escapes → CharText (escaped letter.toUInt8 []) c
  | unit {digits : List UInt8} {c : Char} : CodeUnit digits c.toNat →
      CharText (escaped 'u'.toUInt8 digits) c
  | pair {high low : List UInt8} {c : Char} : 0x10000 ≤ c.toNat →
      CodeUnit high (0xd800 + (c.toNat - 0x10000) / 0x400) →
      CodeUnit low (0xdc00 + (c.toNat - 0x10000) % 0x400) →
      CharText (escaped 'u'.toUInt8 high ++ escaped 'u'.toUInt8 low) c

inductive StringText : List UInt8 → List Char → Prop
  | nil : StringText [] []
  | cons {text rest : List UInt8} {c : Char} {s : List Char} :
      CharText text c → StringText rest s → StringText (text ++ rest) (c :: s)

def Digits (text : List UInt8) : Prop :=
  text ≠ [] ∧ ∀ byte ∈ text, '0'.toUInt8 ≤ byte ∧ byte ≤ '9'.toUInt8

/-- The parts of a number. -/
structure Number where
  sign : List UInt8
  integer : List UInt8
  fraction : List UInt8
  exponent : List UInt8
  sign_eq : sign = [] ∨ sign = ['-'.toUInt8]
  digits : Digits integer
  noZero : integer = ['0'.toUInt8] ∨ integer.head? ≠ some '0'.toUInt8
  fraction_eq : fraction = [] ∨ ∃ digits, Digits digits ∧ fraction = '.'.toUInt8 :: digits
  exponent_eq : exponent = [] ∨ ∃ e sign digits, (e = 'e' ∨ e = 'E') ∧
    (sign = [] ∨ sign = ['+'.toUInt8] ∨ sign = ['-'.toUInt8]) ∧ Digits digits ∧
    exponent = Char.toUInt8 e :: (sign ++ digits)

def Number.text (x : Number) : List UInt8 := x.sign ++ (x.integer ++ (x.fraction ++ x.exponent))

/-- Strings are their characters, and numbers of at most so many characters are their
texts. -/
def standard (limit : Nat) : Lexis (List Char) (List UInt8) where
  space := IsSpace
  string := StringText
  number text x := x = text ∧ text.length ≤ limit ∧ ∃ number : Number, number.text = text

end CHomework.Json
