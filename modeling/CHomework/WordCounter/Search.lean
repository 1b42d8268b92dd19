import Mathlib.Algebra.Group.Nat.Defs
import CHomework.WordCounter.Model

/-!
What one call of `hm_get` and `hm_set` does. Both look for the key with the
same search, and `hm_set` either updates the cell where the search ends or
stores a new record, possibly after doubling the table.
-/

namespace CHomework.WordCounter

open CHomework.Buffer
open CHomework.CellArray
open CHomework.CString

theorem hits_iff {key : CStr} {item : Item} :
    hits key item = true ↔ key.bytes <+: item.key.bytes := by
  rw [hits, beq_iff_eq, strncmp_strlen_eq_zero_iff]

theorem hits_self {key : CStr} {item : Item} (h : item.key = key) :
    hits key item = true := by
  apply hits_iff.mpr
  exact h ▸ List.prefix_rfl

@[simp] theorem hits_withValue (key : CStr) (item : Item) (value : Int64) :
    hits key { item with value := value } = hits key item := rfl

namespace HashMap

variable (m : HashMap)

@[simp] theorem numOfRecs_storeItem (i : Nat) (item : Item) :
    (m.storeItem i item).numOfRecs = m.numOfRecs + 1 := rfl

@[simp] theorem numOfRecs_updateValue (i : Nat) (value : Int64) :
    (m.updateValue i value).numOfRecs = m.numOfRecs := rfl

@[simp] theorem numOfRecs_clearItem (i : Nat) :
    (m.clearItem i).numOfRecs = m.numOfRecs - 1 := rfl

@[simp] theorem numOfRecs_grow : m.grow.numOfRecs = m.numOfRecs := rfl

@[simp] theorem size_storeItem (i : Nat) (item : Item) :
    (m.storeItem i item).size = m.size := rfl

@[simp] theorem size_updateValue (i : Nat) (value : Int64) :
    (m.updateValue i value).size = m.size := rfl

@[simp] theorem size_clearItem (i : Nat) : (m.clearItem i).size = m.size := rfl

@[simp] theorem size_grow : m.grow.size = m.size * 2 := rfl

@[simp] theorem home_storeItem (i : Nat) (item : Item) (key : CStr) :
    (m.storeItem i item).home key = m.home key := rfl

@[simp] theorem home_updateValue (i : Nat) (value : Int64) (key : CStr) :
    (m.updateValue i value).home key = m.home key := rfl

@[simp] theorem home_clearItem (i : Nat) (key : CStr) :
    (m.clearItem i).home key = m.home key := rfl

theorem home_lt (key : CStr) : m.home key < m.size := Nat.mod_lt _ m.size_pos

theorem data_grow : m.grow.data = m.data ++ List.replicate m.size none := by
  have hlen : m.data.length ≤ m.size * 2 := by
    rw [m.data_length]
    omega
  calc
    m.grow.data = realloc none (m.size * 2) m.data := rfl
    _ = m.data ++ List.replicate (m.size * 2 - m.data.length) none :=
      realloc_of_le none hlen
    _ = m.data ++ List.replicate m.size none := by
      rw [m.data_length, Nat.mul_two, Nat.add_sub_cancel]

theorem cell_storeItem {i : Nat} (hi : i < m.size) (item : Item) (j : Nat) :
    (m.storeItem i item).cell j = if i = j then some item else m.cell j :=
  cell_set _ _ (by rwa [m.data_length]) j

theorem cell_updateValue (i : Nat) (value : Int64) (j : Nat) :
    (m.updateValue i value).cell j =
      if i = j then (m.cell j).map fun item => { item with value := value }
      else m.cell j :=
  cell_modify _ _ i j

theorem cell_clearItem {i : Nat} (hi : i < m.size) (j : Nat) :
    (m.clearItem i).cell j = if i = j then none else m.cell j :=
  cell_set _ _ (by rwa [m.data_length]) j

@[simp] theorem cell_grow (j : Nat) : m.grow.cell j = m.cell j := by
  rw [cell, data_grow]
  exact cell_append_replicate_none _ _ _

variable {m}

theorem lt_size_of_cell {i : Nat} {item : Item} (h : m.cell i = some item) :
    i < m.size := by
  rw [← m.data_length]
  exact lt_length_of_cell h

variable (m)

theorem forall_cell_iff {P : Nat → Item → Prop} :
    (∀ i item, m.cell i = some item → P i item) ↔
      ∀ i ∈ List.range m.size, ∀ item ∈ m.cell i, P i item := by
  constructor
  · intro h i _ item hitem
    exact h i item hitem
  · intro h i item hitem
    have hi : i < m.size := lt_size_of_cell hitem
    exact h i (List.mem_range.mpr hi) item hitem

instance decidableForallCell {P : Nat → Item → Prop} [∀ i item, Decidable (P i item)] :
    Decidable (∀ i item, m.cell i = some item → P i item) :=
  decidable_of_iff _ (forall_cell_iff m).symm

/-- The cell at which the search for a key ends: the home cell if its key
matches, else the first matching cell, unless the home cell is empty. -/
def find (key : CStr) : Option Nat := probe (hits key) (m.home key) m.data

def freeCell (key : CStr) : Nat :=
  if m.cell (m.home key) = none then m.home key
  else (firstEmptyAbove (m.home key) m.data).getD 0

/-- `hm_set` without its growth branch. -/
def put (key : CStr) (val : Int64) : HashMap :=
  match m.find key with
  | some i => m.updateValue i val
  | none => m.storeItem (m.freeCell key) { key := key, value := val }

/-- The guard of the growth branch: the record counter has reached the size,
and the home cell holds a key that does not match. -/
def Grows (key : CStr) : Prop :=
  m.numOfRecs = m.size ∧ (m.cell (m.home key)).any (fun item => !hits key item)

instance (key : CStr) : Decidable (m.Grows key) := by
  unfold Grows
  infer_instance

variable {m}

theorem find_eq (m : HashMap) (key : CStr) :
    m.find key = match m.cell (m.home key) with
      | none => none
      | some item =>
          if hits key item then some (m.home key) else firstHit (hits key) m.data := by
  rw [find, probe]
  rcases hhome : m.cell (m.home key) with _ | item
  · rw [show CellArray.cell m.data (m.home key) = none from hhome]
  · rw [show CellArray.cell m.data (m.home key) = some item from hhome]

theorem find_eq_some_iff {key : CStr} {i : Nat} :
    m.find key = some i ↔
      (∃ item, m.cell i = some item ∧ hits key item = true) ∧
        (m.home key = i ∨
          (∃ item, m.cell (m.home key) = some item ∧ hits key item = false) ∧
            ∀ j < i, ∀ item, m.cell j = some item → hits key item = false) :=
  probe_eq_some_iff

theorem find_eq_none_iff {key : CStr} :
    m.find key = none ↔ m.cell (m.home key) = none ∨
      ∀ i item, m.cell i = some item → hits key item = false :=
  probe_eq_none_iff

theorem cell_of_find {key : CStr} {i : Nat} (h : m.find key = some i) :
    ∃ item, m.cell i = some item ∧ key.bytes <+: item.key.bytes := by
  obtain ⟨item, hitem, hhit⟩ := cell_of_probe h
  exact ⟨item, hitem, hits_iff.mp hhit⟩

theorem home_ne_none_of_find {key : CStr} {i : Nat} (h : m.find key = some i) :
    m.cell (m.home key) ≠ none :=
  home_ne_none_of_probe h

theorem put_of_find {key : CStr} {i : Nat} (h : m.find key = some i) (val : Int64) :
    m.put key val = m.updateValue i val := by
  rw [put, h]

theorem put_of_find_none {key : CStr} (h : m.find key = none) (val : Int64) :
    m.put key val = m.storeItem (m.freeCell key) { key := key, value := val } := by
  rw [put, h]

theorem freeCell_lt (key : CStr) : m.freeCell key < m.size := by
  rw [freeCell]
  split
  · exact m.home_lt key
  · rcases hfree : firstEmptyAbove (m.home key) m.data with _ | t
    · exact m.size_pos
    · obtain ⟨-, ht, -⟩ := firstEmptyAbove_spec hfree
      rwa [m.data_length] at ht

theorem numOfRecs_put_le (key : CStr) (val : Int64) :
    (m.put key val).numOfRecs ≤ m.numOfRecs + 1 := by
  rw [put]
  split
  · exact Nat.le_succ _
  · exact Nat.le_refl _

theorem not_grows_grow {key : CStr} (h : m.Grows key) (key' : CStr) :
    ¬ m.grow.Grows key' := by
  rintro ⟨hfull, -⟩
  have hsize := h.1
  have hpos := m.size_pos
  simp only [numOfRecs_grow, size_grow] at hfull
  omega

end HashMap

theorem getScan_eq (key : CStr) (cells : List (Option Item)) :
    getScan key cells =
      ((firstHit (hits key) cells).bind (CellArray.cell cells)).elim 0 Item.value := by
  induction cells with
  | nil => rfl
  | cons c cells ih =>
      rw [firstHit_cons]
      rcases c with _ | item
      · rw [getScan, ih]
        rcases firstHit (hits key) cells with _ | i
        · rfl
        · rfl
      · rw [getScan]
        simp only [Option.any_some]
        split
        · rfl
        · rw [ih]
          rcases firstHit (hits key) cells with _ | i
          · rfl
          · rfl

theorem hmGet_eq (m : HashMap) (key : CStr) :
    hmGet m key = ((m.find key).bind m.cell).elim 0 Item.value := by
  rw [hmGet, HashMap.find_eq]
  rcases hhome : m.cell (m.home key) with _ | item
  · rfl
  · dsimp only
    split
    · rw [Option.bind_some, hhome]
      rfl
    · exact getScan_eq key m.data

theorem hmGet_of_find {m : HashMap} {key : CStr} {i : Nat} {item : Item}
    (hfind : m.find key = some i) (hitem : m.cell i = some item) :
    hmGet m key = item.value := by
  rw [hmGet_eq, hfind, Option.bind_some, hitem]
  rfl

theorem hmGet_of_find_none {m : HashMap} {key : CStr} (hfind : m.find key = none) :
    hmGet m key = 0 := by
  rw [hmGet_eq, hfind]
  rfl

theorem setScan_of_firstHit {key : CStr} {cells : List (Option Item)} {i : Nat}
    (h : firstHit (hits key) cells = some i) (hashVal start nearest : Nat) :
    setScan key hashVal cells start nearest = .found (start + i) := by
  induction cells generalizing i start nearest with
  | nil => simp [firstHit] at h
  | cons c cells ih =>
      rw [firstHit_cons] at h
      rcases c with _ | item
      · simp only [Option.any_none, Bool.false_eq_true, if_false, Option.map_eq_some_iff] at h
        obtain ⟨j, hj, rfl⟩ := h
        rw [setScan, ih hj]
        congr 1
        omega
      · simp only [Option.any_some] at h
        rw [setScan]
        split
        · rename_i hhit
          rw [if_pos hhit] at h
          obtain rfl : 0 = i := by simpa using h
          rfl
        · rename_i hhit
          rw [if_neg hhit, Option.map_eq_some_iff] at h
          obtain ⟨j, hj, rfl⟩ := h
          rw [ih hj]
          congr 1
          omega

theorem setScan_of_firstHit_none {key : CStr} {cells : List (Option Item)}
    (h : firstHit (hits key) cells = none) (hashVal start nearest : Nat) :
    setScan key hashVal cells start nearest =
      .vacant (if nearest = 0 then (firstEmptyAboveFrom hashVal cells start).getD 0
        else nearest) := by
  induction cells generalizing start nearest with
  | nil =>
      rw [setScan]
      congr 1
      split
      · rename_i hzero
        simpa [firstEmptyAboveFrom] using hzero
      · rfl
  | cons c cells ih =>
      rw [firstHit_cons] at h
      rcases c with _ | item
      · simp only [Option.any_none, Bool.false_eq_true, if_false,
          Option.map_eq_none_iff] at h
        rw [setScan, ih h, firstEmptyAboveFrom]
        by_cases hnear : nearest = 0
        · by_cases hlt : hashVal < start
          · have hstart : start ≠ 0 := by omega
            simp [hnear, hlt, hstart]
          · simp [hnear, hlt]
        · simp [hnear]
      · simp only [Option.any_some] at h
        split at h
        · simp at h
        · rename_i hhit
          rw [setScan, if_neg hhit, ih (by simpa using h), firstEmptyAboveFrom]

section Fuel

variable (stray : Nat → Item)

theorem hmSetFuel_of_not_grows {m : HashMap} {key : CStr} (h : ¬ m.Grows key)
    (fuel : Nat) (val : Int64) :
    hmSetFuel stray (fuel + 1) m key val = some (m.put key val) := by
  rw [hmSetFuel, HashMap.put, HashMap.find_eq]
  rcases hhome : m.cell (m.home key) with _ | item
  · simp [HashMap.freeCell, hhome]
  · dsimp only
    split
    · rfl
    · rename_i hhit
      have hfull : m.numOfRecs ≠ m.size := by
        intro hfull
        exact h ⟨hfull, by simpa [hhome] using hhit⟩
      rw [if_neg hfull]
      rcases hscan : firstHit (hits key) m.data with _ | i
      · rw [setScan_of_firstHit_none hscan]
        simp [HashMap.freeCell, hhome, firstEmptyAbove]
      · rw [setScan_of_firstHit hscan, Nat.zero_add]

theorem hmSetFuel_of_grows {m : HashMap} {key : CStr} (h : m.Grows key)
    (fuel : Nat) (val : Int64) :
    hmSetFuel stray (fuel + 1) m key val =
      (hmRebuild (hmSetFuel stray fuel) stray m.grow).bind fun grown =>
        hmSetFuel stray fuel grown key val := by
  obtain ⟨hfull, hmiss⟩ := h
  obtain ⟨item, hhome, hhit⟩ := (Option.any_eq_true _ _).mp hmiss
  have hhit' : hits key item = false := by simpa using hhit
  rw [hmSetFuel]
  simp only [hhome, hhit', hfull, Bool.false_eq_true, if_false, if_true]
  rfl

/-- The insertions of `hm_rebuild` return, when each insertion into a map of
at most as many records as were inserted before returns. -/
theorem foldlM_insert_eq_some {set : HashMap → CStr → Int64 → Option HashMap}
    (records : Nat → Item) (n : Nat)
    (hset : ∀ m key val, m.numOfRecs < n →
      ∃ m', set m key val = some m' ∧ m'.numOfRecs ≤ m.numOfRecs + 1) :
    ∃ m', (List.range n).foldlM
        (fun newMap i => set newMap (records i).key (records i).value) hmInit = some m' ∧
      m'.numOfRecs ≤ n := by
  have hprefix : ∀ k ≤ n, ∃ m', (List.range k).foldlM
      (fun newMap i => set newMap (records i).key (records i).value) hmInit = some m' ∧
        m'.numOfRecs ≤ k := by
    intro k
    induction k with
    | zero =>
        intro _
        exact ⟨hmInit, rfl, Nat.le_refl _⟩
    | succ k ih =>
        intro hk
        obtain ⟨m', hm', hle⟩ := ih (by omega)
        obtain ⟨m'', hm'', hle'⟩ :=
          hset m' (records k).key (records k).value (by omega)
        refine ⟨m'', ?_, by omega⟩
        rw [List.range_succ, List.foldlM_append, hm']
        simpa using hm''
  exact hprefix n (Nat.le_refl n)

theorem hmRebuild_eq_some {set : HashMap → CStr → Int64 → Option HashMap}
    (oldMap : HashMap)
    (hset : ∀ m key val, m.numOfRecs < oldMap.numOfRecs →
      ∃ m', set m key val = some m' ∧ m'.numOfRecs ≤ m.numOfRecs + 1) :
    hmRebuild set stray oldMap = some oldMap := by
  obtain ⟨newMap, hnew, -⟩ := foldlM_insert_eq_some
    (fun i => (hmIter stray oldMap).getD i (stray i)) oldMap.numOfRecs hset
  simp only [hmRebuild, hmLen, hnew]
  rfl

/-- A recursion depth above the record counter is enough. -/
theorem hmSetFuel_eq_some (fuel : Nat) (m : HashMap) (key : CStr) (val : Int64)
    (hfuel : m.numOfRecs < fuel) :
    ∃ m', hmSetFuel stray fuel m key val = some m' ∧
      m'.numOfRecs ≤ m.numOfRecs + 1 := by
  induction fuel generalizing m key val with
  | zero => omega
  | succ fuel ih =>
      by_cases hgrows : m.Grows key
      · have hpos := m.size_pos
        have hfull := hgrows.1
        obtain ⟨fuel, rfl⟩ : ∃ f, fuel = f + 1 := ⟨fuel - 1, by omega⟩
        have hrebuild : hmRebuild (hmSetFuel stray (fuel + 1)) stray m.grow =
            some m.grow := by
          apply hmRebuild_eq_some
          intro m' key' val' hlt
          apply ih
          rw [HashMap.numOfRecs_grow] at hlt
          omega
        rw [hmSetFuel_of_grows stray hgrows, hrebuild, Option.bind_some,
          hmSetFuel_of_not_grows stray (HashMap.not_grows_grow hgrows key)]
        exact ⟨_, rfl, HashMap.numOfRecs_put_le key val⟩
      · rw [hmSetFuel_of_not_grows stray hgrows]
        exact ⟨_, rfl, HashMap.numOfRecs_put_le key val⟩

theorem hmSet_of_not_grows {m : HashMap} {key : CStr} (h : ¬ m.Grows key)
    (val : Int64) : hmSet stray m key val = m.put key val := by
  rw [hmSet, hmSetFuel_of_not_grows stray h, Option.getD_some]

/-- The growth branch doubles the table and repeats the insertion there. The
rebuild in between leaves no trace. -/
theorem hmSet_of_grows {m : HashMap} {key : CStr} (h : m.Grows key) (val : Int64) :
    hmSet stray m key val = m.grow.put key val := by
  have hrebuild : hmRebuild (hmSetFuel stray (m.numOfRecs + 1)) stray m.grow =
      some m.grow := by
    apply hmRebuild_eq_some
    intro m' key' val' hlt
    apply hmSetFuel_eq_some
    rw [HashMap.numOfRecs_grow] at hlt
    omega
  rw [hmSet, hmSetFuel_of_grows stray h, hrebuild, Option.bind_some,
    hmSetFuel_of_not_grows stray (HashMap.not_grows_grow h key), Option.getD_some]

/-- The map in which `hm_set` does its insertion or update. -/
def HashMap.settled (m : HashMap) (key : CStr) : HashMap :=
  if m.Grows key then m.grow else m

theorem hmSet_eq (m : HashMap) (key : CStr) (val : Int64) :
    hmSet stray m key val = (m.settled key).put key val := by
  rw [HashMap.settled]
  split
  · rename_i hgrows
    exact hmSet_of_grows stray hgrows val
  · rename_i hgrows
    exact hmSet_of_not_grows stray hgrows val

end Fuel

theorem length_hmIterLoop (stray : Nat → Item) (cells : List (Option Item))
    (offset : UInt32) (result : List Item) (h : result.length = offset.toNat) :
    (hmIterLoop stray cells offset result).length =
      (offset.toNat + occupied cells) % 2 ^ 32 := by
  induction cells generalizing offset result with
  | nil =>
      have := offset.toNat_lt
      simp only [hmIterLoop, occupied, List.countP_nil]
      omega
  | cons c cells ih =>
      rcases c with _ | item
      · simpa [hmIterLoop, occupied] using ih offset result h
      · rw [hmIterLoop, ih _ _ (by simp)]
        simp only [occupied, List.countP_cons, Option.isSome_some, if_true,
          UInt32.toNat_add, UInt32.toNat_one]
        omega

theorem length_hmIter (stray : Nat → Item) (m : HashMap) :
    (hmIter stray m).length = occupied m.data % 2 ^ 32 := by
  rw [hmIter, length_hmIterLoop stray m.data 0 [] rfl]
  simp

theorem hmIterLoop_eq_append (stray : Nat → Item) (cells : List (Option Item))
    (offset : UInt32) (result : List Item) (h : result.length = offset.toNat)
    (hfew : offset.toNat + occupied cells < 2 ^ 32) :
    hmIterLoop stray cells offset result = result ++ contents cells := by
  induction cells generalizing offset result with
  | nil => simp [hmIterLoop, contents]
  | cons c cells ih =>
      rcases c with _ | item
      · exact ih offset result h (by simpa [occupied] using hfew)
      · simp only [occupied, List.countP_cons, Option.isSome_some, if_true] at hfew
        have hnext : (offset + 1).toNat = offset.toNat + 1 := by
          rw [UInt32.toNat_add, UInt32.toNat_one]
          omega
        rw [hmIterLoop, hnext, ← h, realloc_succ_set, ih]
        · simp [contents]
        · simp [hnext, h]
        · simp only [hnext, occupied]
          omega

theorem hmIter_eq_contents (stray : Nat → Item) {m : HashMap}
    (hfew : occupied m.data < 2 ^ 32) : hmIter stray m = contents m.data := by
  rw [hmIter, hmIterLoop_eq_append stray m.data 0 [] rfl (by simpa using hfew)]
  rfl

end CHomework.WordCounter
