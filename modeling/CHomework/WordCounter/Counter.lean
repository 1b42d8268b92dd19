import CHomework.WordCounter.Calls

namespace CHomework.WordCounter

open CHomework.CellArray
open CHomework.CString
open CHomework.Runs

/-- The insertion at the end of `hm_set` lands on an occupied cell: the search
for the key ends nowhere, no cell above the home cell is free, and cell 0 is
taken. -/
def HashMap.Overwrites (m : HashMap) (key : CStr) : Prop :=
  (m.settled key).find key = none ∧
    (m.settled key).cell ((m.settled key).freeCell key) ≠ none

def Op.SparesRecords (m : HashMap) : Op → Prop
  | .set key _ => ¬ m.Overwrites key
  | .del _ => True

/-- The counter is the number of occupied cells, and every loop over
`records[i]` for `i < hm_len`, in `main` and in the rebuild of the grown map,
stays inside the array of `hm_iter`. -/
def CounterExact (stray : Nat → Item) (m : HashMap) : Prop :=
  m.numOfRecs = occupied m.data ∧ m.numOfRecs ≤ m.size ∧
    hmLen m = (hmIter stray m).length ∧
    (∀ i < hmLen m, i < (hmIter stray m).length) ∧
    ∀ i < hmLen m.grow, i < (hmIter stray m.grow).length

theorem occupied_put_of_find {m : HashMap} {key : CStr} {i : Nat}
    (h : m.find key = some i) (val : Int64) :
    occupied (m.put key val).data = occupied m.data := by
  rw [HashMap.put_of_find h]
  exact occupied_modify _ _ _

theorem occupied_put_of_empty {m : HashMap} {key : CStr} (h : m.find key = none)
    (hempty : m.cell (m.freeCell key) = none) (val : Int64) :
    occupied (m.put key val).data = occupied m.data + 1 := by
  rw [HashMap.put_of_find_none h]
  apply occupied_set_some_of_empty _ _ hempty
  rw [m.data_length]
  exact HashMap.freeCell_lt key

theorem occupied_put_of_full {m : HashMap} {key : CStr} (h : m.find key = none)
    (hfull : m.cell (m.freeCell key) ≠ none) (val : Int64) :
    occupied (m.put key val).data = occupied m.data := by
  obtain ⟨item, hitem⟩ := Option.ne_none_iff_exists'.mp hfull
  rw [HashMap.put_of_find_none h]
  exact occupied_set_some_of_full _ hitem

theorem drift_put {m : HashMap} (key : CStr) (val : Int64)
    (hle : occupied m.data ≤ m.numOfRecs) :
    occupied (m.put key val).data ≤ (m.put key val).numOfRecs ∧
      ((m.put key val).numOfRecs = occupied (m.put key val).data ↔
        m.numOfRecs = occupied m.data ∧
          ¬ (m.find key = none ∧ m.cell (m.freeCell key) ≠ none)) := by
  rcases hfind : m.find key with _ | i
  · have hcount : (m.put key val).numOfRecs = m.numOfRecs + 1 := by
      rw [HashMap.put_of_find_none hfind]
      rfl
    by_cases hcell : m.cell (m.freeCell key) = none
    · rw [hcount, occupied_put_of_empty hfind hcell]
      refine ⟨by omega, ?_⟩
      simp [hcell]
    · rw [hcount, occupied_put_of_full hfind hcell]
      refine ⟨by omega, ?_⟩
      constructor
      · intro heq
        omega
      · rintro ⟨-, hspared⟩
        exact absurd ⟨rfl, hcell⟩ hspared
  · have hcount : (m.put key val).numOfRecs = m.numOfRecs := by
      rw [HashMap.put_of_find hfind]
      rfl
    rw [hcount, occupied_put_of_find hfind]
    exact ⟨hle, by simp⟩

/-- How far the counter runs ahead of the cells never goes down, and goes up
exactly in a call that overwrites a record. -/
theorem drift_step {stray : Nat → Item} {m m' : HashMap} {op : Op}
    (hle : occupied m.data ≤ m.numOfRecs) (hstep : step stray m op = some m') :
    occupied m'.data ≤ m'.numOfRecs ∧
      (m'.numOfRecs = occupied m'.data ↔
        m.numOfRecs = occupied m.data ∧ op.SparesRecords m) := by
  rcases op with ⟨key, val⟩ | key
  · obtain rfl : hmSet stray m key val = m' := by simpa [step] using hstep
    have hcount := HashMap.numOfRecs_settled (m := m) key
    have hocc := HashMap.occupied_settled (m := m) key
    have hput := drift_put key val (m := m.settled key) (by rwa [hcount, hocc])
    rw [hcount, hocc] at hput
    rw [hmSet_eq]
    exact hput
  · obtain ⟨i, item, rfl, hitem, -⟩ := step_del_cases hstep
    have hocc : occupied (m.clearItem i).data + 1 = occupied m.data :=
      occupied_set_none hitem
    simp only [HashMap.numOfRecs_clearItem, Op.SparesRecords, and_true]
    omega

theorem occupied_le_numOfRecs_init : occupied hmInit.data ≤ hmInit.numOfRecs :=
  Nat.le_refl 0

theorem occupied_le_numOfRecs {stray : Nat → Item} {ops : List Op} {m : HashMap}
    (hrun : run (step stray) hmInit ops = some m) : occupied m.data ≤ m.numOfRecs :=
  run_invariant (step stray) (fun m => occupied m.data ≤ m.numOfRecs)
    occupied_le_numOfRecs_init (fun _ _ _ hle hstep => (drift_step hle hstep).1) hrun

theorem numOfRecs_eq_occupied_iff {stray : Nat → Item} {ops : List Op} {m : HashMap}
    (hrun : run (step stray) hmInit ops = some m) :
    m.numOfRecs = occupied m.data ↔
      GuardedRun (step stray) (fun m op => op.SparesRecords m) hmInit ops m :=
  good_iff_guardedRun (fun m => occupied m.data ≤ m.numOfRecs)
    (fun m => m.numOfRecs = occupied m.data) occupied_le_numOfRecs_init rfl
    (fun _ _ _ hle hstep => (drift_step hle hstep).1)
    (fun _ _ _ hle hstep => (drift_step hle hstep).2) hrun

theorem length_hmIter_grow (stray : Nat → Item) (m : HashMap) :
    (hmIter stray m.grow).length = (hmIter stray m).length := by
  rw [length_hmIter, length_hmIter, HashMap.data_grow, occupied_append_replicate_none]

/-- The counter is exact after a run exactly when no call of the run overwrote
a record, and the 32-bit offset of `hm_iter` can number the records. -/
theorem counterExact_iff (stray : Nat → Item) (ops : List Op) (m : HashMap)
    (hrun : run (step stray) hmInit ops = some m) :
    CounterExact stray m ↔
      GuardedRun (step stray) (fun m op => op.SparesRecords m) hmInit ops m ∧
        occupied m.data < 2 ^ 32 := by
  rw [← numOfRecs_eq_occupied_iff hrun]
  have hle : occupied m.data ≤ m.size := by
    rw [← m.data_length]
    exact occupied_le_length m.data
  constructor
  · rintro ⟨hcount, -, hlen, -⟩
    rw [hmLen, length_hmIter] at hlen
    exact ⟨hcount, by omega⟩
  · rintro ⟨hcount, hfew⟩
    have hlen : hmLen m = (hmIter stray m).length := by
      rw [hmLen, length_hmIter, hcount, Nat.mod_eq_of_lt hfew]
    refine ⟨hcount, by omega, hlen, ?_, ?_⟩
    · intro i hi
      omega
    · intro i hi
      have hgrow : hmLen m.grow = hmLen m := rfl
      rw [length_hmIter_grow]
      omega

theorem counterExact_iff_one_call :
    CounterExact blankStray (hmSet blankStray hmInit (ofBuffer [97]) 1) ↔
      GuardedRun (step blankStray) (fun m op => op.SparesRecords m) hmInit
        [.set (ofBuffer [97]) 1] (hmSet blankStray hmInit (ofBuffer [97]) 1) ∧
      occupied (hmSet blankStray hmInit (ofBuffer [97]) 1).data < 2 ^ 32 :=
  counterExact_iff blankStray [.set (ofBuffer [97]) 1] _ rfl

/-- After setting `"e"`, `"c"`, `"b"` and `"g"` the counter is 4 while three
cells are occupied: `"g"` has replaced `"e"` in cell 0. -/
theorem not_counterExact_of_overwrite :
    ∃ m, run (step blankStray) hmInit
        [.set (ofBuffer [101]) 1, .set (ofBuffer [99]) 1, .set (ofBuffer [98]) 1,
          .set (ofBuffer [103]) 1] = some m ∧
      ¬ CounterExact blankStray m := by
  have hrun : (run (step blankStray) hmInit
      [.set (ofBuffer [101]) 1, .set (ofBuffer [99]) 1, .set (ofBuffer [98]) 1,
        .set (ofBuffer [103]) 1]).map (fun m => (m.numOfRecs, occupied m.data)) =
      some (4, 3) := by decide
  obtain ⟨m, hm, hcount⟩ := Option.map_eq_some_iff.mp hrun
  rw [Prod.mk.injEq] at hcount
  refine ⟨m, hm, ?_⟩
  rintro ⟨hexact, -⟩
  omega

end CHomework.WordCounter
