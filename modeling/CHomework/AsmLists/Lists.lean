import CHomework.AsmLists.Assembly

/-!
Linked lists in the memory of the assembly program, and what `malloc` is trusted
with.
-/

namespace CHomework.AsmLists

def odd (v : UInt64) : Bool :=
  v % 2 = 1

/-- The lines that the program prints for an array: its elements, and the odd ones of
them from the last to the first. -/
def printedFor (data : List UInt64) : List Output :=
  data.map .int ++ [.newline] ++ ((data.filter odd).reverse.map .int ++ [.newline])

abbrev Memory := UInt64 → Option UInt64

/-- Every word of the first memory is in the second, with the same value. -/
def Keeps (mem mem' : Memory) : Prop :=
  ∀ a v, mem a = some v → mem' a = some v

/-- A list at an address: a node holds the element and the address of the rest. -/
def IsList (mem : Memory) : UInt64 → List UInt64 → Prop
  | a, [] => a = 0
  | a, x :: xs =>
      a ≠ 0 ∧ mem a = some x ∧ ∃ prev, mem (a + 8) = some prev ∧ IsList mem prev xs

/-- The block is outside every word in memory. -/
def Unused (mem : Memory) (block : UInt64) : Prop :=
  ∀ a, mem a ≠ none → ∀ i < 16, ∀ j < 8, block + UInt64.ofNat i ≠ a + UInt64.ofNat j

/-- The calls of `malloc` from `first` up to `last` return blocks of 16 bytes that
are not NULL, not in use, and disjoint. -/
structure FreshBlocks (malloc : Nat → UInt64) (mem : Memory) (first last : Nat) : Prop where
  ne_null : ∀ n, first ≤ n → n < last → malloc n ≠ 0
  unused : ∀ n, first ≤ n → n < last → Unused mem (malloc n)
  disjoint : ∀ n k, first ≤ n → n < k → k < last → ∀ i < 16, ∀ j < 16,
    malloc n + UInt64.ofNat i ≠ malloc k + UInt64.ofNat j

/-- The memory with a new node. -/
def addNode (mem : Memory) (block el prev : UInt64) : Memory :=
  Function.update (Function.update mem block (some el)) (block + 8) (some prev)

theorem mod_two_ne_zero_iff (v : UInt64) : v % 2 ≠ 0 ↔ odd v = true := by
  have hlt : (v % 2).toNat < 2 := by
    rw [UInt64.toNat_mod]
    exact Nat.mod_lt _ Nat.two_pos
  rw [odd, decide_eq_true_iff, ne_eq, ← UInt64.toNat_inj, ← UInt64.toNat_inj,
    UInt64.toNat_zero, UInt64.toNat_one]
  omega

theorem Keeps.refl (mem : Memory) : Keeps mem mem :=
  fun _ _ h => h

theorem Keeps.trans {mem mem' mem'' : Memory} (h : Keeps mem mem') (h' : Keeps mem' mem'') :
    Keeps mem mem'' :=
  fun a v hv => h' a v (h a v hv)

theorem IsList.mono {mem mem' : Memory} (hkeeps : Keeps mem mem') {a : UInt64}
    {xs : List UInt64} (h : IsList mem a xs) : IsList mem' a xs := by
  induction xs generalizing a with
  | nil => exact h
  | cons x xs ih =>
      obtain ⟨hnonnull, hel, prev, hprev, hrest⟩ := h
      exact ⟨hnonnull, hkeeps a x hel, prev, hkeeps _ _ hprev, ih hrest⟩

theorem add_eight_ne (a : UInt64) : a + 8 ≠ a := by
  simp

theorem Unused.mem_eq_none {mem : Memory} {block : UInt64} (h : Unused mem block) {i : Nat}
    (hi : i < 16) : mem (block + UInt64.ofNat i) = none := by
  by_contra hused
  exact h _ hused i hi 0 (by decide) (by simp)

theorem Unused.keeps_addNode {heap mem : Memory} {block : UInt64} (h : Unused heap block)
    (hkeeps : Keeps heap mem) (el prev : UInt64) : Keeps heap (addNode mem block el prev) := by
  intro a v hv
  have hfirst : a ≠ block := by
    rintro rfl
    simpa [hv] using h.mem_eq_none (i := 0) (by decide)
  have hsecond : a ≠ block + 8 := by
    rintro rfl
    simpa [hv] using h.mem_eq_none (i := 8) (by decide)
  rw [addNode, Function.update_of_ne hsecond, Function.update_of_ne hfirst]
  exact hkeeps a v hv

theorem Unused.isList_addNode {mem : Memory} {block prev : UInt64} {xs : List UInt64}
    (h : Unused mem block) (hnonnull : block ≠ 0) (hlist : IsList mem prev xs) (el : UInt64) :
    IsList (addNode mem block el prev) block (el :: xs) := by
  refine ⟨hnonnull, ?_, prev, ?_, hlist.mono (h.keeps_addNode (Keeps.refl mem) el prev)⟩
  · rw [addNode, Function.update_of_ne (add_eight_ne block).symm, Function.update_self]
  · rw [addNode, Function.update_self]

theorem FreshBlocks.next {malloc : Nat → UInt64} {mem : Memory} {first last : Nat}
    (h : FreshBlocks malloc mem first last) (el prev : UInt64) :
    FreshBlocks malloc (addNode mem (malloc first) el prev) (first + 1) last := by
  refine ⟨fun n hn => h.ne_null n (by omega), ?_, fun n k hn => h.disjoint n k (by omega)⟩
  intro n hn hlast a ha i hi j hj
  by_cases hblock : a = malloc first
  · subst hblock
    exact (h.disjoint first n (Nat.le_refl _) hn hlast j (by omega) i hi).symm
  · by_cases hsecond : a = malloc first + 8
    · have hdisjoint := h.disjoint first n (Nat.le_refl _) hn hlast (8 + j) (by omega) i hi
      rw [hsecond, UInt64.add_assoc]
      rw [UInt64.ofNat_add] at hdisjoint
      exact hdisjoint.symm
    · rw [addNode, Function.update_of_ne hsecond,
        Function.update_of_ne hblock] at ha
      exact h.unused n (by omega) hlast a ha i hi j hj

end CHomework.AsmLists
