import CHomework.WordCounter.Calls

namespace CHomework.WordCounter

open CHomework.CString
open CHomework.Runs

/-- The search for the key stops at the record of a longer key: in the home
cell, or else in the first cell of the array that extends the key. -/
def HashMap.MeetsLonger (m : HashMap) (key : CStr) (item : Item) : Prop :=
  ∃ i, m.cell i = some item ∧ key.bytes <+: item.key.bytes ∧ key ≠ item.key ∧
    (m.home key = i ∨
      (∃ other, m.cell (m.home key) = some other ∧ ¬ key.bytes <+: other.key.bytes) ∧
        ∀ j < i, ∀ other, m.cell j = some other → ¬ key.bytes <+: other.key.bytes)

theorem meetsLonger_iff {m : HashMap} {key : CStr} (hnew : ¬ m.Stored key) (item : Item) :
    m.MeetsLonger key item ↔ ∃ i, m.find key = some i ∧ m.cell i = some item := by
  have hmiss : ∀ other, hits key other = false ↔ ¬ key.bytes <+: other.key.bytes := by
    intro other
    rw [← hits_iff, Bool.not_eq_true]
  constructor
  · rintro ⟨i, hitem, hprefix, -, hreach⟩
    refine ⟨i, HashMap.find_eq_some_iff.mpr ⟨⟨item, hitem, hits_iff.mpr hprefix⟩, ?_⟩, hitem⟩
    simpa only [hmiss] using hreach
  · rintro ⟨i, hfind, hitem⟩
    obtain ⟨⟨item', hitem', hhit⟩, hreach⟩ := HashMap.find_eq_some_iff.mp hfind
    obtain rfl : item = item' := by simpa [hitem] using hitem'
    refine ⟨i, hitem, hits_iff.mp hhit, ?_, by simpa only [hmiss] using hreach⟩
    rintro rfl
    exact hnew (HashMap.stored_of_cell hitem)

/-- After a run in which a key was never set, its lookup answers 0 exactly when
the search for it meets no longer key, or one with the value 0. -/
theorem hmGet_eq_zero_iff_of_not_set (stray : Nat → Item) (ops : List Op) (m : HashMap)
    (key : CStr) (hrun : run (step stray) hmInit ops = some m)
    (hnew : ∀ val, Op.set key val ∉ ops) :
    hmGet m key = 0 ↔ ∀ item, m.MeetsLonger key item → item.value = 0 := by
  have hfresh : ¬ m.Stored key := by
    intro hstored
    obtain ⟨val, hval⟩ := set_mem_of_stored hrun hstored
    exact hnew val hval
  simp only [meetsLonger_iff hfresh]
  rcases hfind : m.find key with _ | i
  · simp [hmGet_of_find_none hfind]
  · obtain ⟨item, hitem, -⟩ := HashMap.cell_of_find hfind
    rw [hmGet_of_find hfind hitem]
    constructor
    · rintro hzero other ⟨j, hj, hother⟩
      obtain rfl : i = j := by simpa using hj
      obtain rfl : item = other := by simpa [hitem] using hother
      exact hzero
    · intro hall
      exact hall item ⟨i, rfl, hitem⟩

theorem hmGet_eq_zero_iff_of_not_set_other_letter :
    hmGet (hmSet blankStray hmInit (ofBuffer [97]) 5) (ofBuffer [98]) = 0 ↔
      ∀ item, (hmSet blankStray hmInit (ofBuffer [97]) 5).MeetsLonger (ofBuffer [98]) item →
        item.value = 0 :=
  hmGet_eq_zero_iff_of_not_set blankStray [.set (ofBuffer [97]) 5] _ (ofBuffer [98]) rfl
    (by simp [ofBuffer])

/-- After setting `"foo"` to 7 the lookup of `"f"` answers 7. -/
theorem hmGet_ne_zero_of_prefix :
    ∃ m, run (step blankStray) hmInit [.set (ofBuffer [102, 111, 111]) 7] = some m ∧
      (∀ val, Op.set (ofBuffer [102]) val ∉ [Op.set (ofBuffer [102, 111, 111]) 7]) ∧
      hmGet m (ofBuffer [102]) ≠ 0 := by
  refine ⟨_, rfl, ?_, by decide⟩
  simp [ofBuffer]

end CHomework.WordCounter
