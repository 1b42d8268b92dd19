import CHomework.Lib.Runs
import CHomework.WordCounter.Search

namespace CHomework.WordCounter

open CHomework.CellArray
open CHomework.CString
open CHomework.Runs

namespace HashMap

def Stored (m : HashMap) (key : CStr) : Prop :=
  ∃ item ∈ contents m.data, item.key = key

instance (m : HashMap) (key : CStr) : Decidable (m.Stored key) := by
  unfold Stored
  infer_instance

variable {m : HashMap}

theorem stored_iff {key : CStr} :
    m.Stored key ↔ ∃ i item, m.cell i = some item ∧ item.key = key := by
  simp only [Stored, mem_contents_iff]
  constructor
  · rintro ⟨item, ⟨i, hi⟩, hkey⟩
    exact ⟨i, item, hi, hkey⟩
  · rintro ⟨i, item, hi, hkey⟩
    exact ⟨item, ⟨i, hi⟩, hkey⟩

theorem stored_of_cell {i : Nat} {item : Item} (h : m.cell i = some item) :
    m.Stored item.key :=
  stored_iff.mpr ⟨i, item, h, rfl⟩

theorem home_eq_none_of_find_none {key : CStr} (hstored : m.Stored key)
    (h : m.find key = none) : m.cell (m.home key) = none := by
  obtain ⟨i, item, hitem, hkey⟩ := stored_iff.mp hstored
  refine (find_eq_none_iff.mp h).resolve_right fun hmiss => ?_
  have hhit := hits_self hkey
  rw [hmiss i item hitem] at hhit
  cases hhit

theorem cell_settled (key : CStr) (i : Nat) : (m.settled key).cell i = m.cell i := by
  rw [settled]
  split
  · exact m.cell_grow i
  · rfl

theorem stored_settled (key key' : CStr) : (m.settled key).Stored key' ↔ m.Stored key' := by
  simp only [stored_iff, cell_settled]

theorem numOfRecs_settled (key : CStr) : (m.settled key).numOfRecs = m.numOfRecs := by
  rw [settled]
  split
  · rfl
  · rfl

theorem occupied_settled (key : CStr) :
    occupied (m.settled key).data = occupied m.data := by
  rw [settled]
  split
  · rw [data_grow, occupied_append_replicate_none]
  · rfl

theorem cell_put_of_find {key : CStr} {i : Nat} (h : m.find key = some i) (val : Int64)
    (j : Nat) :
    (m.put key val).cell j =
      if i = j then (m.cell j).map fun item => { item with value := val }
      else m.cell j := by
  rw [put_of_find h, cell_updateValue]

theorem cell_put_of_find_none {key : CStr} (h : m.find key = none) (val : Int64)
    (j : Nat) :
    (m.put key val).cell j =
      if m.freeCell key = j then some { key := key, value := val } else m.cell j := by
  rw [put_of_find_none h, cell_storeItem m (freeCell_lt key)]

theorem keyAt_put_of_find {key : CStr} {i : Nat} (h : m.find key = some i) (val : Int64)
    (j : Nat) :
    ((m.put key val).cell j).map Item.key = (m.cell j).map Item.key := by
  rw [cell_put_of_find h]
  split
  · rw [Option.map_map]
    rfl
  · rfl

theorem find_put_of_find {key : CStr} {i : Nat} (h : m.find key = some i) (val : Int64)
    (key' : CStr) : (m.put key val).find key' = m.find key' := by
  rw [put_of_find h]
  exact probe_modify (fun item => hits_withValue key' item val) _ _ _

theorem stored_put_of_find {key : CStr} {i : Nat} (h : m.find key = some i) (val : Int64)
    (key' : CStr) : (m.put key val).Stored key' ↔ m.Stored key' := by
  have hkeys : ∀ n : HashMap, n.Stored key' ↔
      ∃ j, (n.cell j).map Item.key = some key' := by
    intro n
    simp only [stored_iff, Option.map_eq_some_iff]
  simp only [hkeys, keyAt_put_of_find h]

theorem stored_put {key key' : CStr} {val : Int64} (h : (m.put key val).Stored key') :
    key' = key ∨ m.Stored key' := by
  rcases hfind : m.find key with _ | i
  · obtain ⟨j, item, hitem, hkey⟩ := stored_iff.mp h
    rw [cell_put_of_find_none hfind] at hitem
    split at hitem
    · obtain rfl : { key := key, value := val } = item := by simpa using hitem
      exact Or.inl hkey.symm
    · exact Or.inr (stored_iff.mpr ⟨j, item, hitem, hkey⟩)
  · exact Or.inr ((stored_put_of_find hfind val key').mp h)

theorem stored_clearItem {i : Nat} (hi : i < m.size) {key : CStr} :
    (m.clearItem i).Stored key ↔
      ∃ j item, j ≠ i ∧ m.cell j = some item ∧ item.key = key := by
  rw [stored_iff]
  constructor
  · rintro ⟨j, item, hitem, hkey⟩
    rw [cell_clearItem m hi] at hitem
    split at hitem
    · cases hitem
    · rename_i hij
      exact ⟨j, item, Ne.symm hij, hitem, hkey⟩
  · rintro ⟨j, item, hji, hitem, hkey⟩
    refine ⟨j, item, ?_, hkey⟩
    rw [cell_clearItem m hi, if_neg (Ne.symm hji), hitem]

end HashMap

theorem delScan_eq_some_iff {key : CStr} {cells : List (Option Item)} {start t : Nat} :
    delScan key cells start = some t ↔
      ∃ j, t = start + j ∧ (∃ item, CellArray.cell cells j = some item ∧ item.key = key) ∧
        ∀ k < j, ∃ item, CellArray.cell cells k = some item ∧ item.key ≠ key := by
  induction cells generalizing start with
  | nil => simp [delScan]
  | cons c cells ih =>
      rcases c with _ | item
      · simp only [delScan, reduceCtorEq, false_iff, not_exists, not_and]
        rintro j rfl ⟨item, hitem, -⟩ hbelow
        rcases j with _ | j
        · simp at hitem
        · obtain ⟨item', hitem', -⟩ := hbelow 0 (by omega)
          simp at hitem'
      · by_cases hkey : item.key = key
        · have hcmp : strcmp item.key key = 0 := (strcmp_eq_zero_iff _ _).mpr hkey
          simp only [delScan, hcmp, ne_eq, not_true_eq_false, if_false,
            Option.some.injEq]
          constructor
          · rintro rfl
            exact ⟨0, rfl, ⟨item, by simp, hkey⟩, by omega⟩
          · rintro ⟨j, rfl, -, hbelow⟩
            rcases j with _ | j
            · rfl
            · obtain ⟨item', hitem', hne⟩ := hbelow 0 (by omega)
              obtain rfl : item = item' := by simpa using hitem'
              exact absurd hkey hne
        · have hcmp : strcmp item.key key ≠ 0 := fun h =>
            hkey ((strcmp_eq_zero_iff _ _).mp h)
          rw [delScan, if_pos hcmp, ih]
          constructor
          · rintro ⟨j, rfl, hhere, hbelow⟩
            refine ⟨j + 1, by omega, by simpa using hhere, ?_⟩
            intro k hk
            rcases k with _ | k
            · exact ⟨item, by simp, hkey⟩
            · simpa using hbelow k (by omega)
          · rintro ⟨j, rfl, hhere, hbelow⟩
            rcases j with _ | j
            · obtain ⟨item', hitem', heq⟩ := hhere
              obtain rfl : item = item' := by simpa using hitem'
              exact absurd heq hkey
            · refine ⟨j, by omega, by simpa using hhere, ?_⟩
              intro k hk
              simpa using hbelow (k + 1) (by omega)

/-- `hm_del` empties the first cell from the home index upward that holds the
key, provided every cell before it is occupied. -/
theorem hmDel_eq_some_iff {m m' : HashMap} {key : CStr} :
    hmDel m key = some m' ↔
      ∃ i, m' = m.clearItem i ∧ m.home key ≤ i ∧
        (∃ item, m.cell i = some item ∧ item.key = key) ∧
        ∀ j, m.home key ≤ j → j < i → ∃ item, m.cell j = some item ∧ item.key ≠ key := by
  have hscan : hmDel m key =
      (delScan key (m.data.drop (m.home key)) (m.home key)).map m.clearItem := by
    have hlt : m.home key < m.data.length := by
      rw [m.data_length]
      exact m.home_lt key
    rw [hmDel, List.drop_eq_getElem_cons hlt]
    have hcell : m.cell (m.home key) = m.data[m.home key] := by
      simp [HashMap.cell, CellArray.cell, List.getElem?_eq_getElem hlt]
    rw [hcell]
    rcases m.data[m.home key] with _ | item
    · rfl
    · by_cases hne : strcmp item.key key ≠ 0
      · simp only [delScan, if_pos hne]
      · simp only [delScan, if_neg hne, Option.map_some]
  have hshift : ∀ j, CellArray.cell (m.data.drop (m.home key)) j =
      m.cell (m.home key + j) := by
    intro j
    simp [HashMap.cell, CellArray.cell]
  rw [hscan, Option.map_eq_some_iff]
  simp only [delScan_eq_some_iff, hshift]
  constructor
  · rintro ⟨i, ⟨j, rfl, hhere, hbelow⟩, rfl⟩
    refine ⟨_, rfl, Nat.le_add_right _ _, hhere, ?_⟩
    intro k hle hlt
    have := hbelow (k - m.home key) (by omega)
    rwa [Nat.add_sub_cancel' hle] at this
  · rintro ⟨i, rfl, hle, hhere, hbelow⟩
    refine ⟨i, ⟨i - m.home key, by omega, ?_, ?_⟩, rfl⟩
    · rwa [Nat.add_sub_cancel' hle]
    · intro k hk
      exact hbelow _ (Nat.le_add_right _ _) (by omega)

theorem hmDel_cases {m m' : HashMap} {key : CStr} (h : hmDel m key = some m') :
    ∃ i item, m' = m.clearItem i ∧ m.cell i = some item ∧ item.key = key := by
  obtain ⟨i, rfl, -, ⟨item, hitem, hkey⟩, -⟩ := hmDel_eq_some_iff.mp h
  exact ⟨i, item, rfl, hitem, hkey⟩

inductive Op where
  | set (key : CStr) (val : Int64)
  | del (key : CStr)

/-- One call. Deletions are only made for stored keys, and have no result when
the scan leaves the occupied cells. -/
def step (stray : Nat → Item) (m : HashMap) : Op → Option HashMap
  | .set key val => some (hmSet stray m key val)
  | .del key => if m.Stored key then hmDel m key else none

theorem step_del_cases {stray : Nat → Item} {m m' : HashMap} {key : CStr}
    (h : step stray m (.del key) = some m') :
    ∃ i item, m' = m.clearItem i ∧ m.cell i = some item ∧ item.key = key := by
  simp only [step, Option.ite_none_right_eq_some] at h
  exact hmDel_cases h.2

/-- Memory whose unwritten parts read as empty-string records. -/
def blankStray (_ : Nat) : Item := { key := ofBuffer [], value := 0 }

theorem cell_hmInit (i : Nat) : hmInit.cell i = none := by
  rcases i with _ | i
  · rfl
  · rfl

theorem set_mem_of_stored {stray : Nat → Item} {ops : List Op} {m : HashMap}
    (hrun : run (step stray) hmInit ops = some m) {key : CStr} (hstored : m.Stored key) :
    ∃ val, Op.set key val ∈ ops := by
  induction ops using List.reverseRecOn generalizing m with
  | nil =>
      obtain rfl : hmInit = m := by simpa using hrun
      obtain ⟨i, item, hitem, -⟩ := HashMap.stored_iff.mp hstored
      simp [cell_hmInit] at hitem
  | append_singleton ops op ih =>
      obtain ⟨t, ht, hto⟩ := (run_snoc_eq_some_iff _).mp hrun
      have hearlier : t.Stored key → ∃ val, Op.set key val ∈ ops ++ [op] := by
        intro hold
        obtain ⟨val, hval⟩ := ih ht hold
        exact ⟨val, List.mem_append_left _ hval⟩
      rcases op with ⟨key', val⟩ | key'
      · obtain rfl : hmSet stray t key' val = m := by simpa [step] using hto
        rw [hmSet_eq] at hstored
        rcases HashMap.stored_put hstored with rfl | hold
        · exact ⟨val, by simp⟩
        · exact hearlier ((HashMap.stored_settled key' key).mp hold)
      · obtain ⟨i, item, rfl, hitem, -⟩ := step_del_cases hto
        obtain ⟨j, other, -, hother, hkey⟩ :=
          (HashMap.stored_clearItem (HashMap.lt_size_of_cell hitem)).mp hstored
        exact hearlier (HashMap.stored_iff.mpr ⟨j, other, hother, hkey⟩)

end CHomework.WordCounter
