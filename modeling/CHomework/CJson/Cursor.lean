import Mathlib.Data.List.TakeWhile
import CHomework.CJson.Model

namespace CHomework.CJson

open CHomework.Buffer

def isSpace (byte : UInt8) : Bool := byte ≤ 32

theorem takeWhile_isSpace_append {w t : List UInt8} (hw : ∀ byte ∈ w, isSpace byte = true)
    (ht : ∀ byte ∈ t.head?, isSpace byte = false) : (w ++ t).takeWhile isSpace = w := by
  rw [List.takeWhile_append_of_pos hw]
  cases t with
  | nil => simp
  | cons byte t =>
      rw [List.takeWhile_cons_of_neg (by simp [ht byte rfl]), List.append_nil]

theorem exists_spaces (t : List UInt8) :
    ∃ w rest, t = w ++ rest ∧ (∀ byte ∈ w, isSpace byte = true) ∧
      ∀ byte ∈ rest.head?, isSpace byte = false := by
  refine ⟨_, _, List.takeWhile_append_dropWhile.symm, fun _ hbyte => List.mem_takeWhile_imp hbyte,
    ?_⟩
  intro byte hbyte
  have hhead := List.head?_dropWhile_not isSpace t
  rw [Option.mem_def.mp hbyte] at hhead
  simpa using hhead

/-- A word that no terminator can be part of is at the front of a C string when it is at
the front of its text. -/
theorem memcmpBytes_append_zero (word t : List UInt8) (h : (0 : UInt8) ∉ word) :
    ∃ d, memcmpBytes (t ++ [0]) word = some d ∧ (d = 0 ↔ word <+: t) := by
  have hsome : (memcmpBytes (t ++ [0]) word).isSome := memcmpBytes_append_zero_isSome h
  obtain ⟨d, hd⟩ := Option.isSome_iff_exists.mp hsome
  refine ⟨d, hd, ?_⟩
  have hzero : word <+: t ++ [0] ↔ word <+: t := by
    constructor
    · intro hprefix
      rcases List.prefix_concat_iff.mp hprefix with rfl | hprefix
      · exact absurd (by simp) h
      · exact hprefix
    · intro hprefix
      exact hprefix.trans (List.prefix_append _ _)
  rw [← hzero, ← memcmpBytes_eq_zero_iff, hd, Option.some.injEq]

namespace ParseBuffer

variable {b : ParseBuffer} {s t : List UInt8}

def Rest (b : ParseBuffer) (t : List UInt8) : Prop := b.content.drop b.offset = t ++ [0]

@[simp] theorem skip_zero (b : ParseBuffer) : b.skip 0 = b := rfl

@[simp] theorem skip_skip (b : ParseBuffer) (m n : Nat) : (b.skip m).skip n = b.skip (m + n) := by
  simp [skip, Nat.add_assoc]

@[simp] theorem skip_content (b : ParseBuffer) (n : Nat) : (b.skip n).content = b.content := rfl

@[simp] theorem skip_depth (b : ParseBuffer) (n : Nat) : (b.skip n).depth = b.depth := rfl

@[simp] theorem skip_offset (b : ParseBuffer) (n : Nat) : (b.skip n).offset = b.offset + n := rfl

theorem Rest.skip (h : b.Rest (s ++ t)) : (b.skip s.length).Rest t := by
  rw [Rest, skip_content, skip_offset, ← List.drop_drop, h, List.append_assoc, List.drop_left]

theorem Rest.skip_one {byte : UInt8} (h : b.Rest (byte :: t)) : (b.skip 1).Rest t :=
  Rest.skip (s := [byte]) h

theorem Rest.length_eq (h : b.Rest t) : b.length = b.offset + t.length + 1 := by
  have hlength := congrArg List.length h
  rw [List.length_drop, List.length_append, List.length_singleton] at hlength
  show b.content.length = _
  omega

theorem Rest.load_add (h : b.Rest t) (i : Nat) :
    load b.content (b.offset + i) = load (t ++ [0]) i := by
  rw [← h, load, load, List.getElem?_drop]

theorem Rest.canAccess (h : b.Rest t) : b.canAccess = true := by
  rw [ParseBuffer.canAccess, h.length_eq, decide_eq_true_eq]
  omega

theorem Rest.first (h : b.Rest t) : b.first = some (t.headD 0) := by
  rw [ParseBuffer.first, ← Nat.add_zero b.offset, h.load_add]
  cases t <;> rfl

theorem Rest.accesses (h : b.Rest t) {byte : UInt8} (hbyte : byte ≠ 0) :
    b.accesses byte = some (decide (t.head? = some byte)) := by
  rw [ParseBuffer.accesses, if_pos h.canAccess, h.first]
  cases t with
  | nil => simp [hbyte.symm]
  | cons c t => simp

theorem Rest.reads (h : b.Rest t) (word : List UInt8) (hword : (0 : UInt8) ∉ word) :
    b.reads word = some (decide (word <+: t)) := by
  rw [ParseBuffer.reads, canRead, h.length_eq]
  split
  · obtain ⟨d, hd, hzero⟩ := memcmpBytes_append_zero word t hword
    rw [memcmp, h, hd, Option.map_some]
    simp only [hzero]
  · rename_i hlong
    have hnot : ¬ word <+: t := by
      intro hprefix
      have hle := hprefix.length_le
      simp only [decide_eq_true_eq] at hlong
      omega
    rw [decide_eq_false hnot]

/-- White space is skipped up to the terminator at most. -/
theorem Rest.bufferSkipWhitespace (h : b.Rest t) :
    b.bufferSkipWhitespace = b.skip (t.takeWhile isSpace).length := by
  have hlength := h.length_eq
  rw [ParseBuffer.bufferSkipWhitespace, if_pos h.canAccess, h]
  have hspaces : ((t ++ [0]).takeWhile isSpace).length =
      if (t.takeWhile isSpace).length = t.length then t.length + 1
      else (t.takeWhile isSpace).length := by
    rw [List.takeWhile_append]
    split
    · simp [isSpace]
    · rfl
  have hle := (List.takeWhile_prefix isSpace (l := t)).length_le
  change (let offset := b.offset + ((t ++ [0]).takeWhile isSpace).length
    { b with offset := if offset = b.length then offset - 1 else offset }) = _
  simp only [hspaces, hlength]
  rcases Nat.lt_or_eq_of_le hle with hlt | heq
  · rw [if_neg (Nat.ne_of_lt hlt), if_neg (by omega)]
    rfl
  · rw [if_pos heq, if_pos (by omega), heq]
    rfl

theorem Rest.bufferSkipWhitespace_append (h : b.Rest (s ++ t))
    (hs : ∀ byte ∈ s, isSpace byte = true) (ht : ∀ byte ∈ t.head?, isSpace byte = false) :
    b.bufferSkipWhitespace = b.skip s.length := by
  rw [h.bufferSkipWhitespace, takeWhile_isSpace_append hs ht]

theorem Rest.exists_spaces (h : b.Rest t) :
    ∃ w rest, t = w ++ rest ∧ (∀ byte ∈ w, isSpace byte = true) ∧
      b.bufferSkipWhitespace = b.skip w.length ∧ (b.skip w.length).Rest rest := by
  obtain ⟨w, rest, rfl, hw, hrest⟩ := CJson.exists_spaces t
  exact ⟨w, rest, rfl, hw, h.bufferSkipWhitespace_append hw hrest, h.skip⟩

theorem Rest.skipUtf8Bom (h : b.Rest t) (hoffset : b.offset = 0) :
    b.skipUtf8Bom = some (if 4 ≤ t.length ∧ [0xef, 0xbb, 0xbf] <+: t then b.skip 3 else b) := by
  obtain ⟨d, hd, hzero⟩ :=
    memcmpBytes_append_zero [0xef, 0xbb, 0xbf] t (by decide)
  have hlength := h.length_eq
  rw [Rest, hoffset] at h
  rw [hoffset] at hlength
  rw [ParseBuffer.skipUtf8Bom]
  split
  · have hle : 4 ≤ t.length := by omega
    simp only [memcmp, h, hd, Option.bind_eq_bind, Option.bind_some, hzero, hle, true_and]
    rfl
  · have hle : ¬ 4 ≤ t.length := by omega
    simp only [hle, false_and, if_false]

theorem Rest.exists_bom (h : b.Rest t) (hoffset : b.offset = 0) :
    ∃ bom rest, t = bom ++ rest ∧ (bom = [] ∨ bom = [0xef, 0xbb, 0xbf]) ∧
      b.skipUtf8Bom = some (b.skip bom.length) ∧ (b.skip bom.length).Rest rest := by
  rw [h.skipUtf8Bom hoffset]
  split
  · rename_i hmark
    obtain ⟨rest, rfl⟩ := hmark.2
    exact ⟨_, rest, rfl, Or.inr rfl, rfl, h.skip⟩
  · exact ⟨[], t, rfl, Or.inl rfl, rfl, h⟩

/-- A byte order mark is skipped, and nothing else is. -/
theorem Rest.skipUtf8Bom_append (h : b.Rest (s ++ t)) (hoffset : b.offset = 0)
    (hs : s = [] ∨ s = [0xef, 0xbb, 0xbf]) (ht : ∃ byte ∈ t.head?, byte ≠ 0xef) :
    b.skipUtf8Bom = some (b.skip s.length) := by
  obtain ⟨byte, hbyte, hne⟩ := ht
  rw [h.skipUtf8Bom hoffset]
  cases t with
  | nil => cases hbyte
  | cons c t =>
      cases hbyte
      rcases hs with rfl | rfl
      · rw [if_neg fun hmark => hne (List.cons_prefix_cons.mp hmark.2).1.symm]
        rfl
      · rw [if_pos ⟨by simp, List.prefix_append _ _⟩]
        rfl

end ParseBuffer

end CHomework.CJson
