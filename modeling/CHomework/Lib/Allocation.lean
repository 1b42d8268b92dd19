import Mathlib.Data.Finset.Card

/-!
A heap as the set of its live blocks, and programs that own some of them. What a
program does not own is either somebody else's or leaked, and stays as it is.
-/

namespace CHomework.Allocation

/-- Blocks are named in the order of their allocation, and no name is used twice. -/
structure Heap where
  live : Finset Nat
  next : Nat
  live_lt : ∀ block ∈ live, block < next

namespace Heap

def empty : Heap where
  live := ∅
  next := 0
  live_lt := by simp

/-- `malloc`, `calloc` and `strdup`. -/
def malloc (h : Heap) : Nat × Heap where
  fst := h.next
  snd :=
    { live := insert h.next h.live
      next := h.next + 1
      live_lt := by
        intro block hblock
        rcases Finset.mem_insert.mp hblock with rfl | hold
        · exact Nat.lt_succ_self _
        · exact Nat.lt_succ_of_lt (h.live_lt block hold) }

/-- `free` has no result for a block that is not live. -/
def free (h : Heap) (block : Nat) : Option Heap :=
  if block ∈ h.live then
    some
      { live := h.live.erase block
        next := h.next
        live_lt := fun b hb => h.live_lt b (Finset.mem_of_mem_erase hb) }
  else none

def realloc (h : Heap) (block : Nat) : Option (Nat × Heap) := (h.free block).map malloc

def freeAll (h : Heap) (blocks : List Nat) : Option Heap := blocks.foldlM free h

/-- The live blocks that are not among the owned ones. -/
def rest (h : Heap) (owned : List Nat) : Finset Nat := h.live \ owned.toFinset

theorem mem_rest {h : Heap} {owned : List Nat} {block : Nat} :
    block ∈ h.rest owned ↔ block ∈ h.live ∧ block ∉ owned := by
  simp [rest]

theorem next_notMem (h : Heap) : h.next ∉ h.live := fun hmem =>
  Nat.lt_irrefl _ (h.live_lt _ hmem)

theorem rest_perm {h : Heap} {owned owned' : List Nat} (hperm : owned.Perm owned') :
    h.rest owned = h.rest owned' := by
  rw [rest, rest, List.toFinset_eq_of_perm _ _ hperm]

theorem rest_malloc (h : Heap) (owned : List Nat) :
    h.malloc.2.rest (h.malloc.1 :: owned) = h.rest owned := by
  ext block
  simp only [mem_rest, malloc, Finset.mem_insert, List.mem_cons, not_or]
  constructor
  · rintro ⟨rfl | hlive, hne, hfree⟩
    · exact absurd rfl hne
    · exact ⟨hlive, hfree⟩
  · rintro ⟨hlive, hfree⟩
    refine ⟨Or.inr hlive, ?_, hfree⟩
    rintro rfl
    exact h.next_notMem hlive

end Heap

open Heap

/-- The blocks are live and pairwise different. -/
structure Owns (h : Heap) (owned : List Nat) : Prop where
  nodup : owned.Nodup
  live : ∀ block ∈ owned, block ∈ h.live

/-- A piece of a program that owned some blocks owns others afterwards, and every
block it did not own is still live and still not owned. -/
structure Keeps (h : Heap) (owned : List Nat) (h' : Heap) (owned' : List Nat) : Prop where
  owns : Owns h' owned'
  rest_subset : h.rest owned ⊆ h'.rest owned'

section Owns

variable {h : Heap} {owned owned' : List Nat} {block : Nat}

theorem owns_nil (h : Heap) : Owns h [] := ⟨List.nodup_nil, by simp⟩

theorem Owns.perm (hown : Owns h owned) (hperm : owned.Perm owned') : Owns h owned' where
  nodup := hperm.nodup_iff.mp hown.nodup
  live := fun block hblock => hown.live block (hperm.mem_iff.mpr hblock)

theorem Owns.malloc (hown : Owns h owned) : Owns h.malloc.2 (h.malloc.1 :: owned) where
  nodup := by
    refine List.nodup_cons.mpr ⟨fun hmem => ?_, hown.nodup⟩
    exact h.next_notMem (hown.live _ hmem)
  live := by
    intro block hblock
    rcases List.mem_cons.mp hblock with rfl | hold
    · exact Finset.mem_insert_self _ _
    · exact Finset.mem_insert_of_mem (hown.live block hold)

/-- A block that its owner loses sight of joins the rest. -/
theorem Owns.forget (hown : Owns h (block :: owned)) : Owns h owned where
  nodup := (List.nodup_cons.mp hown.nodup).2
  live := fun b hb => hown.live b (List.mem_cons_of_mem _ hb)

theorem Owns.mem_rest (hown : Owns h (block :: owned)) : block ∈ h.rest owned :=
  Heap.mem_rest.mpr ⟨hown.live block (by simp), (List.nodup_cons.mp hown.nodup).1⟩

theorem rest_cons_subset (h : Heap) (block : Nat) (owned : List Nat) :
    h.rest (block :: owned) ⊆ h.rest owned := by
  intro b hb
  obtain ⟨hlive, hfree⟩ := Heap.mem_rest.mp hb
  exact Heap.mem_rest.mpr ⟨hlive, fun hmem => hfree (List.mem_cons_of_mem _ hmem)⟩

theorem Owns.rest_ssubset (hown : Owns h (block :: owned)) :
    h.rest (block :: owned) ⊂ h.rest owned := by
  refine (rest_cons_subset h block owned).ssubset_of_ne fun heq => ?_
  have hmem := hown.mem_rest
  rw [← heq, Heap.mem_rest] at hmem
  exact hmem.2 (by simp)

theorem Owns.card_rest (hown : Owns h (block :: owned)) :
    (h.rest owned).card = (h.rest (block :: owned)).card + 1 := by
  have herase : h.rest (block :: owned) = (h.rest owned).erase block := by
    rw [rest, rest, List.toFinset_cons, Finset.sdiff_insert]
  rw [herase, Finset.card_erase_add_one hown.mem_rest]

theorem Owns.free (hown : Owns h (block :: owned)) :
    ∃ h', h.free block = some h' ∧ Owns h' owned ∧ h'.rest owned = h.rest (block :: owned) := by
  obtain ⟨hfresh, hnodup⟩ := List.nodup_cons.mp hown.nodup
  refine ⟨_, if_pos (hown.live block (by simp)), ⟨hnodup, ?_⟩, ?_⟩
  · intro b hb
    refine Finset.mem_erase.mpr ⟨?_, hown.live b (List.mem_cons_of_mem _ hb)⟩
    rintro rfl
    exact hfresh hb
  · ext b
    simp only [Heap.mem_rest, Finset.mem_erase, List.mem_cons, not_or]
    tauto

theorem Owns.realloc (hown : Owns h (block :: owned)) :
    ∃ block' h', h.realloc block = some (block', h') ∧ Owns h' (block' :: owned) ∧
      h'.rest (block' :: owned) = h.rest (block :: owned) := by
  obtain ⟨h', hfree, hown', hrest⟩ := hown.free
  refine ⟨h'.malloc.1, h'.malloc.2, ?_, hown'.malloc, ?_⟩
  · rw [Heap.realloc, hfree]
    rfl
  · rw [rest_malloc, hrest]

/-- Freeing all owned blocks never frees one twice, and leaves the rest. -/
theorem Owns.freeAll (hown : Owns h owned) :
    ∃ h', h.freeAll owned = some h' ∧ h'.live = h.rest owned := by
  induction owned generalizing h with
  | nil => exact ⟨h, rfl, by simp [rest]⟩
  | cons block owned ih =>
      obtain ⟨h₁, hfree, hown₁, hrest₁⟩ := hown.free
      obtain ⟨h', hall, hlive⟩ := ih hown₁
      refine ⟨h', ?_, hlive.trans hrest₁⟩
      rw [Heap.freeAll, List.foldlM_cons, hfree]
      exact hall

end Owns

namespace Keeps

variable {h h₁ h₂ : Heap} {owned owned₁ owned₂ : List Nat}

theorem refl (hown : Owns h owned) : Keeps h owned h owned := ⟨hown, Finset.Subset.refl _⟩

theorem trans (hkeeps : Keeps h owned h₁ owned₁) (hkeeps' : Keeps h₁ owned₁ h₂ owned₂) :
    Keeps h owned h₂ owned₂ :=
  ⟨hkeeps'.owns, hkeeps.rest_subset.trans hkeeps'.rest_subset⟩

theorem malloc (hown : Owns h owned) : Keeps h owned h.malloc.2 (h.malloc.1 :: owned) :=
  ⟨hown.malloc, (rest_malloc h owned).superset⟩

theorem forget {block : Nat} (hown : Owns h (block :: owned)) :
    Keeps h (block :: owned) h owned :=
  ⟨hown.forget, rest_cons_subset h block owned⟩

/-- What a piece of the program that starts with no blocks does leaves the blocks
of the others alone. -/
theorem frame (hkeeps : Keeps h [] h₁ owned₁) (hown : Owns h owned) :
    Keeps h owned h₁ owned := by
  have hlive : ∀ block ∈ h.live, block ∈ h₁.live := by
    intro block hblock
    have hrest := hkeeps.rest_subset (Heap.mem_rest.mpr ⟨hblock, List.not_mem_nil⟩)
    exact (Heap.mem_rest.mp hrest).1
  refine ⟨⟨hown.nodup, fun block hblock => hlive block (hown.live block hblock)⟩, ?_⟩
  intro block hblock
  obtain ⟨hold, hfree⟩ := Heap.mem_rest.mp hblock
  exact Heap.mem_rest.mpr ⟨hlive block hold, hfree⟩

end Keeps

end CHomework.Allocation
