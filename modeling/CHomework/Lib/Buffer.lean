import Mathlib.Data.List.Basic
import Mathlib.Data.List.Infix

/-!
Allocated memory as a list of cells. An access outside the list has no result.
-/

namespace CHomework.Buffer

section Cells

variable {α : Type*}

/-- Resize a block. What the block held stays, up to the new size, and `fill`
stands for what the allocator leaves in the added cells. -/
def realloc (fill : α) (n : Nat) (block : List α) : List α :=
  block.take n ++ List.replicate (n - block.length) fill

@[simp] theorem length_realloc (fill : α) (n : Nat) (block : List α) :
    (realloc fill n block).length = n := by
  simp only [realloc, List.length_append, List.length_take, List.length_replicate]
  omega

theorem realloc_of_le (fill : α) {n : Nat} {block : List α} (h : block.length ≤ n) :
    realloc fill n block = block ++ List.replicate (n - block.length) fill := by
  rw [realloc, List.take_of_length_le h]

theorem map_realloc {β : Type*} (f : α → β) (fill : α) (n : Nat) (block : List α) :
    (realloc fill n block).map f = realloc (f fill) n (block.map f) := by
  simp [realloc, List.map_take]

theorem realloc_succ_set (fill a : α) (block : List α) :
    (realloc fill (block.length + 1) block).set block.length a = block ++ [a] := by
  rw [realloc_of_le fill (Nat.le_succ _)]
  simp

/-- A new block. `stray i` is what its cell `i` happens to hold. -/
def malloc (stray : Nat → α) (n : Nat) : List α := (List.range n).map stray

/-- `realloc` in memory of which the cell `i` happens to hold `stray i`. -/
def reallocStray (stray : Nat → α) (n : Nat) (block : List α) : List α :=
  block.take n ++ (malloc stray n).drop block.length

@[simp] theorem length_reallocStray (stray : Nat → α) (n : Nat) (block : List α) :
    (reallocStray stray n block).length = n := by
  simp only [reallocStray, malloc, List.length_append, List.length_take, List.length_drop,
    List.length_map, List.length_range]
  omega

theorem prefix_reallocStray (stray : Nat → α) {n : Nat} {cells block : List α}
    (h : cells <+: block) (hn : cells.length ≤ n) : cells <+: reallocStray stray n block :=
  (List.prefix_take_iff.mpr ⟨h, hn⟩).trans (List.prefix_append _ _)

def load (block : List α) (i : Nat) : Option α := block[i]?

def loadRange (block : List α) : Nat → Nat → Option (List α)
  | _, 0 => some []
  | i, n + 1 => do
      let a ← load block i
      let rest ← loadRange block (i + 1) n
      return a :: rest

/-- Store a cell at a signed index. -/
def store (block : List α) (i : Int) (a : α) : Option (List α) :=
  if 0 ≤ i ∧ i < block.length then some (block.set i.toNat a) else none

def overwrite (block : List α) (i : Nat) (cells : List α) : List α :=
  block.take i ++ cells ++ block.drop (i + cells.length)

def storeRange (block cells : List α) : Option (List α) :=
  if cells.length ≤ block.length then some (overwrite block 0 cells) else none

theorem length_overwrite {block cells : List α} {i : Nat} (h : i + cells.length ≤ block.length) :
    (overwrite block i cells).length = block.length := by
  simp only [overwrite, List.length_append, List.length_take, List.length_drop]
  omega

theorem load_isSome_iff {block : List α} {i : Nat} :
    (load block i).isSome ↔ i < block.length := by
  simp [load]

theorem loadRange_eq {block : List α} {i n : Nat} (h : i + n ≤ block.length) :
    loadRange block i n = some ((block.drop i).take n) := by
  induction n generalizing i with
  | zero => simp [loadRange]
  | succ n ih =>
      have hi : i < block.length := by omega
      rw [List.drop_eq_getElem_cons hi, List.take_succ_cons]
      simp only [loadRange, load, List.getElem?_eq_getElem hi]
      rw [ih (by omega)]
      rfl

theorem loadRange_isSome_iff {block : List α} {i n : Nat} :
    (loadRange block i n).isSome ↔ n = 0 ∨ i + n ≤ block.length := by
  induction n generalizing i with
  | zero => simp [loadRange]
  | succ n ih =>
      rcases Nat.lt_or_ge i block.length with hi | hi
      · have hstep : (loadRange block i (n + 1)).isSome =
            (loadRange block (i + 1) n).isSome := by
          simp only [loadRange, load, List.getElem?_eq_getElem hi]
          cases loadRange block (i + 1) n <;> rfl
        rw [hstep, ih]
        omega
      · have hnone : loadRange block i (n + 1) = none := by
          simp [loadRange, load, List.getElem?_eq_none hi]
        rw [hnone]
        simp
        omega

theorem loadRange_of_isSome {block : List α} {i n : Nat} (h : (loadRange block i n).isSome) :
    loadRange block i n = some ((block.drop i).take n) := by
  rcases loadRange_isSome_iff.mp h with rfl | hle
  · simp [loadRange]
  · exact loadRange_eq hle

theorem storeRange_malloc_succ (stray : Nat → α) (cells : List α) :
    storeRange (malloc stray (cells.length + 1)) cells =
      some (cells ++ [stray cells.length]) := by
  simp [storeRange, overwrite, malloc, List.range_succ]

theorem storeRange_replicate (a : α) {cells : List α} {n : Nat} (h : cells.length ≤ n) :
    storeRange (List.replicate n a) cells =
      some (cells ++ List.replicate (n - cells.length) a) := by
  simp [storeRange, overwrite, h]

theorem overwrite_realloc (fill : α) (block cells : List α) :
    overwrite (realloc fill (block.length + cells.length) block) block.length cells =
      block ++ cells := by
  rw [overwrite, realloc_of_le fill (Nat.le_add_right _ _)]
  simp

theorem store_length (cells : List α) (a b : α) :
    store (cells ++ [a]) cells.length b = some (cells ++ [b]) := by
  have hlt : (cells.length : Int) < cells.length + 1 := by omega
  simp [store, hlt]

end Cells

/-- How far a comparison reads: all bytes it is given, which the language
allows, or up to the first difference. -/
inductive Reads where
  | whole
  | untilDifference
  deriving DecidableEq

def memcmpBytes : List UInt8 → List UInt8 → Option Int
  | _, [] => some 0
  | [], _ :: _ => none
  | a :: block, b :: pattern =>
      if a = b then memcmpBytes block pattern else some ((a.toNat : Int) - b.toNat)

def memcmp (reads : Reads) (block : List UInt8) (i : Nat) (pattern : List UInt8) :
    Option Int :=
  match reads with
  | .whole => do
      let bytes ← loadRange block i pattern.length
      memcmpBytes bytes pattern
  | .untilDifference => memcmpBytes (block.drop i) pattern

theorem memcmpBytes_eq_zero_iff {block pattern : List UInt8} :
    memcmpBytes block pattern = some 0 ↔ pattern <+: block := by
  induction pattern generalizing block with
  | nil => simp [memcmpBytes]
  | cons b pattern ih =>
      cases block with
      | nil => simp [memcmpBytes]
      | cons a block =>
          simp only [memcmpBytes, List.cons_prefix_cons]
          split
          · rename_i hab
            simp [ih, hab]
          · rename_i hab
            have hne : a.toNat ≠ b.toNat := fun h => hab (UInt8.toNat_inj.mp h)
            have hba : ¬ b = a := fun h => hab h.symm
            simp only [Option.some.injEq, hba, false_and, iff_false]
            omega

theorem memcmpBytes_isSome_of_le {block pattern : List UInt8}
    (h : pattern.length ≤ block.length) : (memcmpBytes block pattern).isSome := by
  induction pattern generalizing block with
  | nil => simp [memcmpBytes]
  | cons b pattern ih =>
      cases block with
      | nil => simp at h
      | cons a block =>
          simp only [memcmpBytes]
          split
          · exact ih (by simpa using h)
          · rfl

/-- A terminator stops the comparison with a pattern that has none. -/
theorem memcmpBytes_append_zero_isSome {block pattern : List UInt8}
    (h : (0 : UInt8) ∉ pattern) : (memcmpBytes (block ++ [0]) pattern).isSome := by
  induction pattern generalizing block with
  | nil => simp [memcmpBytes]
  | cons b pattern ih =>
      have hb : ¬ (0 : UInt8) = b := fun hb => h (by simp [hb])
      cases block with
      | nil => simp [memcmpBytes, hb]
      | cons a block =>
          simp only [List.cons_append, memcmpBytes]
          split
          · exact ih fun hmem => h (List.mem_cons_of_mem _ hmem)
          · rfl

/-- A byte pattern that no terminator can be part of. -/
structure Signature where
  bytes : List UInt8
  ne_nil : bytes ≠ []
  noNul : (0 : UInt8) ∉ bytes

def signature (bytes : List UInt8) (ne_nil : bytes ≠ [] := by decide)
    (noNul : (0 : UInt8) ∉ bytes := by decide) : Signature where
  bytes := bytes
  ne_nil := ne_nil
  noNul := noNul

/-- A comparison of `n` bytes from index `i` stays inside a block of `size`
bytes and a terminator. -/
def Reads.InRange (reads : Reads) (size i n : Nat) : Prop :=
  match reads with
  | .whole => i + n ≤ size + 1
  | .untilDifference => i ≤ size

instance (reads : Reads) (size i n : Nat) : Decidable (reads.InRange size i n) := by
  cases reads
  · exact inferInstanceAs (Decidable (i + n ≤ size + 1))
  · exact inferInstanceAs (Decidable (i ≤ size))

theorem Reads.inRange_of_le {reads : Reads} {size i n : Nat} (hn : 0 < n)
    (h : i + n ≤ size + 1) : reads.InRange size i n := by
  cases reads
  · exact h
  · show i ≤ size
    omega

theorem Signature.add_length_le {sig : Signature} {data : List UInt8} {i : Nat}
    (h : sig.bytes <+: data.drop i) : i + sig.bytes.length ≤ data.length := by
  have hlength := h.length_le
  have hpos : sig.bytes.length ≠ 0 := by simp [sig.ne_nil]
  rw [List.length_drop] at hlength
  omega

theorem Signature.lt_length {sig : Signature} {data : List UInt8} {i : Nat}
    (h : sig.bytes <+: data.drop i) : i < data.length := by
  have hle := sig.add_length_le h
  have hpos : sig.bytes.length ≠ 0 := by simp [sig.ne_nil]
  omega

section Terminated

variable {reads : Reads} {data : List UInt8} {i : Nat} (sig : Signature)

theorem memcmp_isSome_iff :
    (memcmp reads (data ++ [0]) i sig.bytes).isSome ↔
      reads.InRange data.length i sig.bytes.length := by
  have hpos : sig.bytes.length ≠ 0 := by simp [sig.ne_nil]
  cases reads with
  | whole =>
      simp only [memcmp, Reads.InRange]
      rcases (Nat.lt_or_ge (data.length + 1) (i + sig.bytes.length)).symm with h | h
      · have hload : loadRange (data ++ [0]) i sig.bytes.length =
            some (((data ++ [0]).drop i).take sig.bytes.length) :=
          loadRange_eq (by simpa using h)
        have hsome :
            (memcmpBytes (((data ++ [0]).drop i).take sig.bytes.length) sig.bytes).isSome := by
          apply memcmpBytes_isSome_of_le
          simp
          omega
        rw [hload]
        simpa [h] using hsome
      · have hload : loadRange (data ++ [0]) i sig.bytes.length = none := by
          rw [← Option.not_isSome_iff_eq_none, loadRange_isSome_iff]
          simpa [hpos] using h
        have hgt : ¬ i + sig.bytes.length ≤ data.length + 1 := Nat.not_le.mpr h
        simp [hload, hgt]
  | untilDifference =>
      simp only [memcmp, Reads.InRange]
      rcases (Nat.lt_or_ge data.length i).symm with h | h
      · rw [List.drop_append_of_le_length h]
        simpa [h] using memcmpBytes_append_zero_isSome sig.noNul
      · rw [List.drop_eq_nil_of_le (by simp; omega)]
        cases hbytes : sig.bytes with
        | nil => exact absurd hbytes sig.ne_nil
        | cons b pattern => simp [memcmpBytes, Nat.not_le.mpr h]

theorem prefix_drop_append_zero_iff :
    sig.bytes <+: (data ++ [0]).drop i ↔ sig.bytes <+: data.drop i := by
  constructor
  · intro hmatch
    rcases (Nat.lt_or_ge data.length i).symm with h | h
    · rw [List.drop_append_of_le_length h] at hmatch
      rcases List.prefix_concat_iff.mp hmatch with heq | hprefix
      · exact absurd (heq ▸ by simp) sig.noNul
      · exact hprefix
    · rw [List.drop_eq_nil_of_le (by simp; omega)] at hmatch
      exact absurd (List.prefix_nil.mp hmatch) sig.ne_nil
  · intro hmatch
    have hlt := sig.lt_length hmatch
    rw [List.drop_append_of_le_length (by omega)]
    exact hmatch.trans (List.prefix_append _ _)

theorem memcmp_eq_zero_iff :
    memcmp reads (data ++ [0]) i sig.bytes = some 0 ↔ sig.bytes <+: data.drop i := by
  rw [← prefix_drop_append_zero_iff]
  cases reads with
  | untilDifference => exact memcmpBytes_eq_zero_iff
  | whole =>
      simp only [memcmp]
      constructor
      · intro h
        rcases Option.bind_eq_some_iff.mp h with ⟨bytes, hload, hbytes⟩
        have hrange := loadRange_isSome_iff.mp (Option.isSome_of_eq_some hload)
        have hle : i + sig.bytes.length ≤ (data ++ [0]).length := by
          rcases hrange with hzero | hle
          · exact absurd (List.length_eq_zero_iff.mp hzero) sig.ne_nil
          · exact hle
        rw [loadRange_eq hle, Option.some.injEq] at hload
        rw [← hload, memcmpBytes_eq_zero_iff] at hbytes
        exact hbytes.trans (List.take_prefix _ _)
      · intro h
        have hle := sig.add_length_le ((prefix_drop_append_zero_iff sig).mp h)
        rw [loadRange_eq (by simp; omega)]
        show memcmpBytes _ sig.bytes = some 0
        rw [memcmpBytes_eq_zero_iff]
        exact List.prefix_take_iff.mpr ⟨h, le_refl _⟩

theorem memcmp_of_inRange (h : reads.InRange data.length i sig.bytes.length) :
    ∃ d, memcmp reads (data ++ [0]) i sig.bytes = some d ∧
      (d = 0 ↔ sig.bytes <+: data.drop i) := by
  rcases Option.isSome_iff_exists.mp ((memcmp_isSome_iff sig).mpr h) with ⟨d, hd⟩
  refine ⟨d, hd, ?_⟩
  have hzero : memcmp reads (data ++ [0]) i sig.bytes = some 0 ↔ _ := memcmp_eq_zero_iff sig
  rw [← hzero, hd, Option.some.injEq]

theorem memcmp_of_not_inRange (h : ¬ reads.InRange data.length i sig.bytes.length) :
    memcmp reads (data ++ [0]) i sig.bytes = none := by
  rw [← Option.not_isSome_iff_eq_none, memcmp_isSome_iff]
  exact h

theorem load_append_zero (h : i ≤ data.length) :
    load (data ++ [0]) i = some (data.getD i 0) := by
  rcases Nat.lt_or_eq_of_le h with hlt | heq
  · simp [load, List.getElem?_append_left hlt, List.getD_eq_getElem?_getD,
      List.getElem?_eq_getElem hlt]
  · subst heq
    simp [load]

theorem load_append_zero_eq_none (h : data.length < i) : load (data ++ [0]) i = none := by
  rw [← Option.not_isSome_iff_eq_none, load_isSome_iff]
  simp
  omega

end Terminated

end CHomework.Buffer
