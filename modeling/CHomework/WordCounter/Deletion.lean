import CHomework.WordCounter.Counter

namespace CHomework.WordCounter

open CHomework.CellArray
open CHomework.CString
open CHomework.Runs

/-- The deletion only compares keys of occupied cells and ends. A stored key is
removed from the cell that holds it, and for any other key the map stays as it
is. -/
def DelSafe (m : HashMap) (key : CStr) : Prop :=
  ∃ m', hmDel m key = some m' ∧
    (m.Stored key → hmLen m' + 1 = hmLen m ∧ ¬ m'.Stored key ∧
      ∀ i item, item.key ≠ key → (m'.cell i = some item ↔ m.cell i = some item)) ∧
    (¬ m.Stored key → m' = m)

/-- The key is stored in exactly one cell, at its home index or above, and no
cell from the home cell up to there is empty. -/
def HashMap.DelReaches (m : HashMap) (key : CStr) : Prop :=
  ∃ i, m.home key ≤ i ∧ (m.cell i).map Item.key = some key ∧
    (∀ j, m.home key ≤ j → j < i → m.cell j ≠ none) ∧
    ∀ j, (m.cell j).map Item.key = some key → j = i

theorem stored_of_hmDel {m m' : HashMap} {key : CStr} (h : hmDel m key = some m') :
    m.Stored key := by
  obtain ⟨i, item, -, hitem, rfl⟩ := hmDel_cases h
  exact HashMap.stored_of_cell hitem

theorem HashMap.DelReaches.safe {m : HashMap} {key : CStr} (hreach : m.DelReaches key)
    (hcount : occupied m.data ≤ m.numOfRecs) : DelSafe m key := by
  obtain ⟨i, hhome, hhere, hbelow, honly⟩ := hreach
  obtain ⟨item, hitem, hkey⟩ := Option.map_eq_some_iff.mp hhere
  have hi := HashMap.lt_size_of_cell hitem
  have hdel : hmDel m key = some (m.clearItem i) := by
    refine hmDel_eq_some_iff.mpr ⟨i, rfl, hhome, ⟨item, hitem, hkey⟩, ?_⟩
    intro j hle hlt
    obtain ⟨other, hother⟩ := Option.ne_none_iff_exists'.mp (hbelow j hle hlt)
    refine ⟨other, hother, fun hotherKey => ?_⟩
    have := honly j (by rw [hother, Option.map_some, hotherKey])
    omega
  refine ⟨_, hdel, fun _ => ⟨?_, ?_, ?_⟩, fun hnew => absurd (stored_of_hmDel hdel) hnew⟩
  · have hpos := occupied_pos_of_cell hitem
    rw [hmLen, hmLen, HashMap.numOfRecs_clearItem]
    omega
  · intro hstored
    obtain ⟨j, other, hji, hother, hotherKey⟩ := (HashMap.stored_clearItem hi).mp hstored
    exact hji (honly j (by rw [hother, Option.map_some, hotherKey]))
  · intro j other hne
    rw [HashMap.cell_clearItem m hi]
    split
    · rename_i hij
      subst hij
      rw [hitem]
      constructor
      · intro h
        cases h
      · intro h
        obtain rfl := Option.some.inj h
        exact absurd hkey hne
    · rfl

theorem DelSafe.reaches {m : HashMap} {key : CStr} (hsafe : DelSafe m key) :
    m.DelReaches key := by
  obtain ⟨m', hdel, hremoved, -⟩ := hsafe
  obtain ⟨-, hgone, -⟩ := hremoved (stored_of_hmDel hdel)
  obtain ⟨i, rfl, hhome, ⟨item, hitem, hkey⟩, hbelow⟩ := hmDel_eq_some_iff.mp hdel
  refine ⟨i, hhome, by rw [hitem, Option.map_some, hkey], ?_, ?_⟩
  · intro j hle hlt
    obtain ⟨other, hother, -⟩ := hbelow j hle hlt
    rw [hother]
    exact Option.some_ne_none other
  · intro j hj
    obtain ⟨other, hother, hotherKey⟩ := Option.map_eq_some_iff.mp hj
    by_contra hji
    exact hgone ((HashMap.stored_clearItem (HashMap.lt_size_of_cell hitem)).mpr
      ⟨j, other, hji, hother, hotherKey⟩)

/-- In every map that a run reaches, a deletion is safe exactly when the upward
scan from the home cell meets the only record of the key before an empty cell. -/
theorem delSafe_iff (stray : Nat → Item) (ops : List Op) (m : HashMap)
    (hrun : run (step stray) hmInit ops = some m) (key : CStr) :
    DelSafe m key ↔ m.DelReaches key :=
  ⟨DelSafe.reaches, fun hreach => hreach.safe (occupied_le_numOfRecs hrun)⟩

theorem delSafe_iff_one_call :
    DelSafe (hmSet blankStray hmInit (ofBuffer [97]) 1) (ofBuffer [97]) ↔
      (hmSet blankStray hmInit (ofBuffer [97]) 1).DelReaches (ofBuffer [97]) :=
  delSafe_iff blankStray [.set (ofBuffer [97]) 1] _ rfl (ofBuffer [97])

/-- Deleting `"b"` from the map of `"a"` leaves the array. -/
theorem not_delSafe_of_not_stored :
    ∃ m, run (step blankStray) hmInit [.set (ofBuffer [97]) 1] = some m ∧
      ¬ m.Stored (ofBuffer [98]) ∧ ¬ DelSafe m (ofBuffer [98]) := by
  refine ⟨_, rfl, by decide, ?_⟩
  rintro ⟨m', hdel, -⟩
  have hnone : hmDel (hmSet blankStray hmInit (ofBuffer [97]) 1) (ofBuffer [98]) = none := by
    decide
  exact absurd (hnone.symm.trans hdel) (Option.some_ne_none m').symm

end CHomework.WordCounter
