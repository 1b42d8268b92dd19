import CHomework.CJson.Printed

namespace CHomework.CJson

open CHomework.Buffer CHomework.CString CHomework.Json

variable {D : Type} {num : Numbers D} {fmt : Formats D}

section Readers

variable {S N : Type} (f : List UInt8 → S) (g : Number D → Json.Tree S N)

mutual

/-- The tree of an item, with what its strings and its numbers are read as. -/
def readAs : Item D → Json.Tree S N
  | .null => .null
  | .false => .false
  | .true => .true
  | .number x => g x
  | .string s => .string (f s)
  | .array child => .array (readElements child)
  | .object child => .object (readMembers child)

def readElements : List (Item D) → List (Json.Tree S N)
  | [] => []
  | item :: next => readAs item :: readElements next

def readMembers : List (List UInt8 × Item D) → List (S × Json.Tree S N)
  | [] => []
  | (string, item) :: next => (f string, readAs item) :: readMembers next

end

end Readers

section Strings

variable (P : List UInt8 → Prop)

mutual

/-- The property holds of every string of an item, the names among them. -/
def AllStrings : Item D → Prop
  | .null => True
  | .false => True
  | .true => True
  | .number _ => True
  | .string s => P s
  | .array child => AllElements child
  | .object child => AllMembers child

def AllElements : List (Item D) → Prop
  | [] => True
  | item :: next => AllStrings item ∧ AllElements next

def AllMembers : List (List UInt8 × Item D) → Prop
  | [] => True
  | (string, item) :: next => P string ∧ AllStrings item ∧ AllMembers next

end

mutual

theorem allStrings_true : ∀ item : Item D, AllStrings (fun _ => True) item
  | .null => trivial
  | .false => trivial
  | .true => trivial
  | .number _ => trivial
  | .string _ => trivial
  | .array child => allElements_true child
  | .object child => allMembers_true child

theorem allElements_true : ∀ items : List (Item D), AllElements (fun _ => True) items
  | [] => trivial
  | item :: next => ⟨allStrings_true item, allElements_true next⟩

theorem allMembers_true :
    ∀ members : List (List UInt8 × Item D), AllMembers (fun _ => True) members
  | [] => trivial
  | (_, item) :: next => ⟨trivial, allStrings_true item, allMembers_true next⟩

end

end Strings

section Map

variable {S S' N N' : Type} {P : List UInt8 → Prop} {f : List UInt8 → S}
  {g : Number D → Json.Tree S N} {f' : List UInt8 → S'} {g' : Number D → Json.Tree S' N'}
  {readS : S → S'} {readN : N → N'}

mutual

theorem map_readAs : ∀ {item : Item D}, AllStrings P item → (∀ s, P s → readS (f s) = f' s) →
    (∀ x, (g x).map readS readN = g' x) →
      (readAs f g item).map readS readN = readAs f' g' item
  | .null, _, _, _ => by rw [readAs, readAs, Json.Tree.map]
  | .false, _, _, _ => by rw [readAs, readAs, Json.Tree.map]
  | .true, _, _, _ => by rw [readAs, readAs, Json.Tree.map]
  | .number x, _, _, hnumber => by
      rw [readAs, readAs]
      exact hnumber x
  | .string s, hs, hstring, _ => by rw [readAs, readAs, Json.Tree.map, hstring s hs]
  | .array child, hall, hstring, hnumber => by
      rw [readAs, readAs, Json.Tree.map, map_readElements hall hstring hnumber]
  | .object child, hall, hstring, hnumber => by
      rw [readAs, readAs, Json.Tree.map, map_readMembers hall hstring hnumber]

theorem map_readElements : ∀ {items : List (Item D)}, AllElements P items →
    (∀ s, P s → readS (f s) = f' s) → (∀ x, (g x).map readS readN = g' x) →
      (readElements f g items).map (Json.Tree.map readS readN) = readElements f' g' items
  | [], _, _, _ => by rw [readElements, readElements, List.map_nil]
  | item :: next, hall, hstring, hnumber => by
      rw [readElements, readElements, List.map_cons, map_readAs hall.1 hstring hnumber,
        map_readElements hall.2 hstring hnumber]

theorem map_readMembers : ∀ {members : List (List UInt8 × Item D)}, AllMembers P members →
    (∀ s, P s → readS (f s) = f' s) → (∀ x, (g x).map readS readN = g' x) →
      (readMembers f g members).map (fun m => (readS m.1, m.2.map readS readN)) =
        readMembers f' g' members
  | [], _, _, _ => by rw [readMembers, readMembers, List.map_nil]
  | (string, item) :: next, hall, hstring, hnumber => by
      rw [readMembers, readMembers, List.map_cons, map_readAs hall.2.1 hstring hnumber,
        map_readMembers hall.2.2 hstring hnumber, hstring string hall.1]

end

end Map

/-- A lexis that reads what is printed for these strings and for every number. -/
structure ReadsAs {S N : Type} (num : Numbers D) (fmt : Formats D) (lexis : Lexis S N)
    (P : List UInt8 → Prop) (f : List UInt8 → S) (g : Number D → Json.Tree S N) : Prop where
  space : ∀ byte, IsSpace byte → lexis.space byte
  string : ∀ s, P s → lexis.string (escapeText (ofBuffer s).bytes) (f s)
  number : ∀ x n, Text lexis n (g x) (numberText num fmt x)

mutual

/-- How many arrays and objects are inside each other. -/
def nesting : Item D → Nat
  | .null => 0
  | .false => 0
  | .true => 0
  | .number _ => 0
  | .string _ => 0
  | .array child => nestingElements child + 1
  | .object child => nestingMembers child + 1

def nestingElements : List (Item D) → Nat
  | [] => 0
  | item :: next => max (nesting item) (nestingElements next)

def nestingMembers : List (List UInt8 × Item D) → Nat
  | [] => 0
  | (_, item) :: next => max (nesting item) (nestingMembers next)

end

section Texts

variable {S N : Type} {lexis : Lexis S N} {P : List UInt8 → Prop} {f : List UInt8 → S}
  {g : Number D → Json.Tree S N}

theorem spaces_formatted (format : Bool) {text : List UInt8} (h : lexis.Spaces text) :
    lexis.Spaces (formatted format text) := by
  rw [formatted]
  split
  · exact h
  · exact List.forall_mem_nil _

theorem ReadsAs.spaces_singleton (h : ReadsAs num fmt lexis P f g) (format : Bool) (byte : UInt8)
    (hbyte : IsSpace byte) : lexis.Spaces (formatted format [byte]) :=
  spaces_formatted format (List.forall_mem_singleton.mpr (h.space byte hbyte))

theorem ReadsAs.spaces_tabs (h : ReadsAs num fmt lexis P f g) (format : Bool) (depth : Nat) :
    lexis.Spaces (formatted format (tabs depth)) := by
  refine spaces_formatted format fun byte hbyte => ?_
  rw [List.eq_of_mem_replicate hbyte]
  exact h.space _ (by decide)

/-- White space goes to the first child that follows it. -/
theorem exists_texts_space_append {α : Type} {P : α → List UInt8 → Prop} {items : List α}
    {spaces : List UInt8} {texts : List (List UInt8)} (hne : items ≠ [])
    (hspaces : ∀ a text, P a text → P a (spaces ++ text)) (h : List.Forall₂ P items texts) :
    ∃ texts', texts' ≠ [] ∧ spaces ++ commas texts = commas texts' ∧
      List.Forall₂ P items texts' := by
  cases h with
  | nil => exact absurd rfl hne
  | @cons item text items texts hitem hitems =>
      exact ⟨(spaces ++ text) :: texts, List.cons_ne_nil _ _, (commas_append_cons text).symm,
        .cons (hspaces item text hitem) hitems⟩

theorem isPart_of_text {n : Nat} {tree : Json.Tree S N} {text : List UInt8}
    (h : Text lexis n tree text) : IsPart lexis n tree text :=
  ⟨⟨[], tree, text, []⟩, ⟨List.forall_mem_nil _, List.forall_mem_nil _⟩, h, rfl, by
    simp [Part.render]⟩

theorem isMember_of_text {n : Nat} {name before blank after text : List UInt8} {s : S}
    {tree : Json.Tree S N} (hname : lexis.string name s) (h : Text lexis n tree text)
    (hbefore : lexis.Spaces before) (hblank : lexis.Spaces blank)
    (hafter : lexis.Spaces after) :
    IsMember lexis n (s, tree)
      (before ++ (quoted name ++ (':'.toUInt8 :: blank ++ (text ++ after)))) :=
  ⟨⟨before, s, name, [], ⟨blank, tree, text, after⟩⟩,
    ⟨⟨hbefore, List.forall_mem_nil _⟩, hblank, hafter⟩, hname, h, rfl, rfl⟩

theorem readElements_ne_nil {items : List (Item D)} (h : items ≠ []) :
    readElements f g items ≠ [] := by
  cases items with
  | nil => exact absurd rfl h
  | cons item next =>
      rw [readElements]
      exact List.cons_ne_nil _ _

theorem readMembers_ne_nil {members : List (List UInt8 × Item D)} (h : members ≠ []) :
    readMembers f g members ≠ [] := by
  cases members with
  | nil => exact absurd rfl h
  | cons m next =>
      rw [readMembers]
      exact List.cons_ne_nil _ _

variable (format : Bool)

mutual

theorem text_valueText (h : ReadsAs num fmt lexis P f g) : ∀ {item : Item D},
    AllStrings P item → ∀ (depth : Nat),
      Text lexis (nesting item) (readAs f g item) (valueText num fmt format item depth)
  | .null, _, _ => by
      rw [readAs, valueText]
      exact .null
  | .false, _, _ => by
      rw [readAs, valueText]
      exact .false
  | .true, _, _ => by
      rw [readAs, valueText]
      exact .true
  | .number x, _, _ => by
      rw [readAs, valueText]
      exact h.number x _
  | .string s, hs, _ => by
      rw [readAs, valueText]
      exact .string (h.string s hs)
  | .array [], _, _ => by
      rw [readAs, valueText, readElements, elementsText, nesting]
      exact .emptyArray (List.forall_mem_nil _)
  | .array (item :: next), hall, depth => by
      rw [readAs, valueText, nesting]
      obtain ⟨texts, heq, htexts⟩ :=
        forall₂_elementsText h (List.cons_ne_nil _ _) hall (depth + 1) (Nat.le_refl _)
      rw [heq]
      exact .array_of_forall₂ (readElements_ne_nil (List.cons_ne_nil _ _)) htexts
  | .object [], _, depth => by
      rw [readAs, valueText, readMembers, membersText, nesting]
      exact .emptyObject (List.forall_mem_append.mpr
        ⟨h.spaces_singleton format '\n'.toUInt8 (by decide), h.spaces_tabs format depth⟩)
  | .object (m :: next), hall, depth => by
      rw [readAs, valueText, nesting]
      obtain ⟨texts, heq, htexts⟩ := forall₂_membersText h (List.cons_ne_nil _ _) hall (depth + 1)
        (Nat.le_refl _) (h.spaces_tabs format depth)
      have hline := h.spaces_singleton format '\n'.toUInt8 (by decide)
      obtain ⟨texts', -, heq', htexts'⟩ := exists_texts_space_append
        (readMembers_ne_nil (List.cons_ne_nil _ _))
        (fun _ _ hmember => hmember.space_append hline) htexts
      rw [heq, heq']
      exact .object_of_forall₂ (readMembers_ne_nil (List.cons_ne_nil _ _)) htexts'

theorem forall₂_elementsText (h : ReadsAs num fmt lexis P f g) : ∀ {items : List (Item D)},
    items ≠ [] → AllElements P items → ∀ (depth : Nat) {n : Nat}, nestingElements items ≤ n →
      ∃ texts, elementsText num fmt format items depth = commas texts ∧
        List.Forall₂ (IsPart lexis n) (readElements f g items) texts
  | [], hne, _, _, _, _ => absurd rfl hne
  | [item], _, hall, depth, n, hn => by
      rw [nestingElements] at hn
      have hitem := (text_valueText h hall.1 depth).mono (Nat.le_trans (Nat.le_max_left _ _) hn)
      refine ⟨[valueText num fmt format item depth], ?_, ?_⟩
      · simp [elementsText, commas]
      · rw [readElements, readElements]
        exact .cons (isPart_of_text hitem) .nil
  | item :: following :: next, _, hall, depth, n, hn => by
      rw [nestingElements] at hn
      have hitem := (text_valueText h hall.1 depth).mono (Nat.le_trans (Nat.le_max_left _ _) hn)
      obtain ⟨texts, heq, htexts⟩ := forall₂_elementsText h (List.cons_ne_nil following next) hall.2
        depth (Nat.le_trans (Nat.le_max_right _ _) hn)
      have hblank := h.spaces_singleton format ' '.toUInt8 (by decide)
      obtain ⟨texts', hne, heq', htexts'⟩ := exists_texts_space_append
        (readElements_ne_nil (List.cons_ne_nil _ _))
        (fun _ _ hpart => hpart.space_append hblank) htexts
      refine ⟨valueText num fmt format item depth :: texts', ?_, ?_⟩
      · rw [elementsText, List.isEmpty_cons, if_neg Bool.false_ne_true, heq,
          commas_cons_of_ne_nil _ hne, ← heq', List.cons_append]
      · rw [readElements]
        exact .cons (isPart_of_text hitem) htexts'

/-- The white space behind the members is that in front of the closing brace. -/
theorem forall₂_membersText (h : ReadsAs num fmt lexis P f g) :
    ∀ {members : List (List UInt8 × Item D)}, members ≠ [] → AllMembers P members →
      ∀ (depth : Nat) {n : Nat}, nestingMembers members ≤ n →
        ∀ {after : List UInt8}, lexis.Spaces after → ∃ texts,
          membersText num fmt format members depth ++ after = commas texts ∧
            List.Forall₂ (IsMember lexis n) (readMembers f g members) texts
  | [], hne, _, _, _, _, _, _ => absurd rfl hne
  | [(string, item)], _, hall, depth, n, hn, after, hafter => by
      rw [nestingMembers] at hn
      have hitem := (text_valueText h hall.2.1 depth).mono (Nat.le_trans (Nat.le_max_left _ _) hn)
      have hline := h.spaces_singleton format '\n'.toUInt8 (by decide)
      have htab := h.spaces_singleton format '\t'.toUInt8 (by decide)
      have hmember := isMember_of_text (h.string string hall.1) hitem (h.spaces_tabs format depth)
        htab (List.forall_mem_append.mpr ⟨hline, hafter⟩)
      rw [readMembers, readMembers]
      refine ⟨_, ?_, .cons hmember .nil⟩
      simp [membersText, commas]
  | (string, item) :: following :: next, _, hall, depth, n, hn, after, hafter => by
      rw [nestingMembers] at hn
      have hitem := (text_valueText h hall.2.1 depth).mono (Nat.le_trans (Nat.le_max_left _ _) hn)
      have hline := h.spaces_singleton format '\n'.toUInt8 (by decide)
      have htab := h.spaces_singleton format '\t'.toUInt8 (by decide)
      have hmember := isMember_of_text (h.string string hall.1) hitem (h.spaces_tabs format depth)
        htab (List.forall_mem_nil _)
      obtain ⟨texts, heq, htexts⟩ := forall₂_membersText h (List.cons_ne_nil following next)
        hall.2.2 depth (Nat.le_trans (Nat.le_max_right _ _) hn) hafter
      obtain ⟨texts', hne, heq', htexts'⟩ := exists_texts_space_append
        (readMembers_ne_nil (List.cons_ne_nil _ _))
        (fun _ _ hmember => hmember.space_append hline) htexts
      rw [readMembers]
      refine ⟨_, ?_, .cons hmember htexts'⟩
      rw [membersText, List.isEmpty_cons, if_neg Bool.false_ne_true,
        commas_cons_of_ne_nil _ hne, ← heq', ← heq]
      simp

end

end Texts

end CHomework.CJson
