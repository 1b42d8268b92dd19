import CHomework.WordCounter.Sound

namespace CHomework.WordCounter

open CHomework.CellArray
open CHomework.CString
open CHomework.Runs

theorem exists_value_ne (value : Int64) : ∃ val : Int64, val ≠ value := by
  by_cases hzero : value = 0
  · exact ⟨1, by rw [hzero]; decide⟩
  · exact ⟨0, fun h => hzero h.symm⟩

namespace HashMap

variable {m : HashMap}

theorem cell_put_of_ne {key : CStr} {j : Nat} {item : Item} (hitem : m.cell j = some item)
    (hupdate : m.find key ≠ some j)
    (hinsert : m.find key = none → m.cell (m.freeCell key) = none) (val : Int64) :
    (m.put key val).cell j = some item := by
  rcases hfind : m.find key with _ | i
  · rw [cell_put_of_find_none hfind, if_neg, hitem]
    rintro rfl
    rw [hinsert hfind] at hitem
    cases hitem
  · rw [cell_put_of_find hfind, if_neg, hitem]
    rintro rfl
    exact hupdate hfind

/-- A lookup that ends where the search for the key does answers the new value,
whatever that is. -/
theorem not_constant_of_find {key key' : CStr} {i : Nat} (hkey : m.find key = some i)
    (hkey' : m.find key' = some i) (value : Int64) :
    ¬ ∀ val, hmGet (m.put key val) key' = value := by
  intro hsame
  obtain ⟨val, hval⟩ := exists_value_ne value
  exact hval ((hmGet_put_of_find hkey hkey' val).symm.trans (hsame val))

theorem not_constant_of_find_none {key key' : CStr} (hkey : m.find key = none)
    (hkey' : ∀ val, (m.put key val).find key' = some (m.freeCell key)) (value : Int64) :
    ¬ ∀ val, hmGet (m.put key val) key' = value := by
  intro hsame
  obtain ⟨val, hval⟩ := exists_value_ne value
  exact hval ((hmGet_put_of_find_none hkey (hkey' val)).symm.trans (hsame val))

end HashMap

def sampleMap : HashMap :=
  hmSet blankStray (hmSet blankStray (hmSet blankStray hmInit (ofBuffer [101]) 1)
    (ofBuffer [99]) 2) (ofBuffer [108]) 3

/-- The other keys stay stored and their lookups answer as before. -/
def SetFrame (stray : Nat → Item) (m : HashMap) (key : CStr) : Prop :=
  ∀ val key', key' ≠ key → m.Stored key' →
    (hmSet stray m key val).Stored key' ∧
      hmGet (hmSet stray m key val) key' = hmGet m key'

theorem HashMap.Sound.setFrame {stray : Nat → Item} {m : HashMap} (hsound : m.Sound)
    {key : CStr} (hgrows : ¬ m.Grows key) (hkeeps : m.SetKeeps key) :
    SetFrame stray m key := by
  intro val key' hne hstored
  obtain ⟨j, item, hitem, rfl⟩ := HashMap.stored_iff.mp hstored
  rw [hmSet_of_not_grows stray hgrows]
  have hcell : (m.put key val).cell j = some item := by
    refine HashMap.cell_put_of_ne hitem ?_ (fun hnone => (hkeeps.2 hnone).1) val
    intro hfind
    exact hne (hkeeps.1 j item hitem hfind)
  refine ⟨HashMap.stored_of_cell hcell, ?_⟩
  rw [hmGet_of_find (hsound.find_put hkeeps val hitem) hcell, hsound.hmGet_eq hitem]

namespace SetFrame

variable {stray : Nat → Item} {m : HashMap} {key : CStr} {j : Nat} {item : Item}

theorem stored_put (hgrows : ¬ m.Grows key) (hframe : SetFrame stray m key)
    (hitem : m.cell j = some item) (hne : item.key ≠ key) (val : Int64) :
    (m.put key val).Stored item.key := by
  rw [← hmSet_of_not_grows stray hgrows]
  exact (hframe val item.key hne (HashMap.stored_of_cell hitem)).1

theorem hmGet_put (hsound : m.Sound) (hgrows : ¬ m.Grows key) (hframe : SetFrame stray m key)
    (hitem : m.cell j = some item) (hne : item.key ≠ key) (val : Int64) :
    hmGet (m.put key val) item.key = item.value := by
  rw [← hmSet_of_not_grows stray hgrows,
    (hframe val item.key hne (HashMap.stored_of_cell hitem)).2, hsound.hmGet_eq hitem]

theorem cell_freeCell (hsound : m.Sound) (hgrows : ¬ m.Grows key)
    (hframe : SetFrame stray m key) (hnone : m.find key = none) :
    m.cell (m.freeCell key) = none := by
  by_contra hfull
  obtain ⟨item, hitem⟩ := Option.ne_none_iff_exists'.mp hfull
  have hne : item.key ≠ key := by
    rintro rfl
    exact hsound.not_stored_of_find_none hnone (HashMap.stored_of_cell hitem)
  obtain ⟨j, other, hother, hkey⟩ :=
    HashMap.stored_iff.mp (hframe.stored_put hgrows hitem hne 0)
  rw [HashMap.cell_put_of_find_none hnone] at hother
  split at hother
  · obtain rfl : { key := key, value := 0 } = other := by simpa using hother
    exact hne hkey.symm
  · rename_i hj
    exact hj (hsound.index_unique hitem hother hkey.symm)

theorem home_or_lt (hsound : m.Sound) (hgrows : ¬ m.Grows key) (hframe : SetFrame stray m key)
    (hnone : m.find key = none) (hitem : m.cell j = some item)
    (hextends : item.key.bytes <+: key.bytes) :
    m.home item.key = j ∨ j < m.freeCell key := by
  by_contra hcut
  rw [not_or] at hcut
  rcases hcut with ⟨hhome, hlt⟩
  have hne : item.key ≠ key := by
    rintro rfl
    exact hsound.not_stored_of_find_none hnone (HashMap.stored_of_cell hitem)
  obtain ⟨-, hreach⟩ := HashMap.find_eq_some_iff.mp (hsound.found j item hitem)
  obtain ⟨hfirst, hbelow⟩ := hreach.resolve_left hhome
  have hcaptured : ∀ val, (m.put key val).find item.key = some (m.freeCell key) :=
    HashMap.find_put_of_isPrefix hnone hextends
      (Or.inr ⟨hfirst, fun k hk => hbelow k (by omega)⟩)
  exact HashMap.not_constant_of_find_none hnone hcaptured item.value
    (hframe.hmGet_put hsound hgrows hitem hne)

theorem keeps (hsound : m.Sound) (hgrows : ¬ m.Grows key) (hframe : SetFrame stray m key) :
    m.SetKeeps key := by
  constructor
  · intro i item hitem hfind
    by_contra hne
    exact HashMap.not_constant_of_find hfind (hsound.found i item hitem) item.value
      (hframe.hmGet_put hsound hgrows hitem hne)
  · intro hnone
    refine ⟨hframe.cell_freeCell hsound hgrows hnone, ?_⟩
    intro j item hitem hprefix
    exact hframe.home_or_lt hsound hgrows hnone hitem hprefix

end SetFrame

/-- In a map reached by calls that damaged no record, and with free cells left,
setting a key keeps every other record exactly when the condition holds. -/
theorem setFrame_iff (stray : Nat → Item) (ops : List Op) (m : HashMap)
    (hrun : GuardedRun (step stray) (fun m op => op.KeepsRecords m) hmInit ops m)
    (hfree : m.numOfRecs < m.size) (key : CStr) :
    SetFrame stray m key ↔ m.SetKeeps key := by
  have hsound := sound_of_guardedRun hrun
  have hgrows : ¬ m.Grows key := by
    rintro ⟨hfull, -⟩
    omega
  exact ⟨SetFrame.keeps hsound hgrows, hsound.setFrame hgrows⟩

theorem setFrame_iff_sample :
    SetFrame blankStray sampleMap (ofBuffer [98]) ↔ sampleMap.SetKeeps (ofBuffer [98]) :=
  setFrame_iff blankStray
    [.set (ofBuffer [101]) 1, .set (ofBuffer [99]) 2, .set (ofBuffer [108]) 3] sampleMap
    (guardedRun_iff.mpr rfl) (by decide) (ofBuffer [98])

/-- With `"e"`, `"c"` and `"b"` in cells 0, 1 and 3 of 4, setting `"g"` replaces
`"e"`: its home cell is 3, and the free cell 2 lies below. -/
theorem not_setFrame_of_overwrite :
    ∃ m, run (step blankStray) hmInit
        [.set (ofBuffer [101]) 1, .set (ofBuffer [99]) 2, .set (ofBuffer [98]) 3] = some m ∧
      m.numOfRecs < m.size ∧ m.Stored (ofBuffer [101]) ∧
      ¬ (hmSet blankStray m (ofBuffer [103]) 4).Stored (ofBuffer [101]) :=
  ⟨_, rfl, by decide, by decide, by decide⟩

/-- The other stored keys are found after the table has doubled, with the values
they had. -/
def GrowFrame (stray : Nat → Item) (m : HashMap) (key : CStr) : Prop :=
  ∀ val key', key' ≠ key → m.Stored key' →
    ((hmSet stray m key val).find key').isSome ∧
      hmGet (hmSet stray m key val) key' = hmGet m key'

/-- The search for the key in the doubled table stops at no longer key, and each
other record either keeps its home index, or has its home at the cell the new
record takes while the first record that extends its key has its value. -/
def HashMap.GrowFinds (m : HashMap) (key : CStr) : Prop :=
  (∀ i item, m.cell i = some item → m.grow.find key = some i → item.key = key) ∧
    ∀ j item, m.cell j = some item → item.key ≠ key →
      m.grow.home item.key < m.size ∨
        (m.grow.find key = none ∧ m.grow.home item.key = m.grow.freeCell key ∧
          ¬ item.key.bytes <+: key.bytes ∧
          ∀ i other, m.cell i = some other → firstHit (hits item.key) m.data = some i →
            other.value = item.value)

theorem firstHit_grow (m : HashMap) (key : CStr) :
    firstHit (hits key) m.grow.data = firstHit (hits key) m.data := by
  apply Option.ext
  intro i
  have hcell : ∀ j, CellArray.cell m.grow.data j = CellArray.cell m.data j := m.cell_grow
  simp only [firstHit_eq_some_iff, hcell]

theorem HashMap.Sound.growFrame {stray : Nat → Item} {m : HashMap} (hsound : m.Sound)
    {key : CStr} (hgrows : m.Grows key) (hfinds : m.GrowFinds key) :
    GrowFrame stray m key := by
  intro val key' hne hstored
  obtain ⟨j, item, hitem, rfl⟩ := HashMap.stored_iff.mp hstored
  rw [hmSet_of_grows stray hgrows, hsound.hmGet_eq hitem]
  have hgrown : m.grow.cell j = some item := by rw [m.cell_grow, hitem]
  have hcell : (m.grow.put key val).cell j = some item := by
    refine HashMap.cell_put_of_ne hgrown ?_ (fun _ => m.cell_freeCell_grow key) val
    intro hfind
    exact hne (hfinds.1 j item hitem hfind)
  rcases hfinds.2 j item hitem hne with hlt | ⟨hnone, hhome, hmiss, hvalue⟩
  · have hfound : m.grow.find item.key = some j := by
      rw [HashMap.find_grow_of_lt hlt, hsound.found j item hitem]
    have hput : (m.grow.put key val).find item.key = some j := by
      rcases hfind : m.grow.find key with _ | i
      · refine HashMap.find_put_of_empty hfind (m.cell_freeCell_grow key) hfound ?_ val
        intro _
        have := hsound.size_le_freeCell_grow hgrows.1 key
        have := HashMap.lt_size_of_cell hitem
        omega
      · rw [HashMap.find_put_of_find hfind, hfound]
    rw [hput, hmGet_of_find hput hcell]
    exact ⟨rfl, rfl⟩
  · have hexists : firstHit (hits item.key) m.data ≠ none := by
      intro hnohit
      have hhit := firstHit_eq_none_iff.mp hnohit j item hitem
      rw [hits_self rfl] at hhit
      cases hhit
    obtain ⟨i, hfirst⟩ := Option.ne_none_iff_exists'.mp hexists
    obtain ⟨other, hother, hhit⟩ := (firstHit_eq_some_iff.mp hfirst).1
    have hput : (m.grow.put key val).find item.key = some i :=
      HashMap.find_put_of_home_eq_freeCell hnone hhome hmiss (m.cell_freeCell_grow key)
        (by rw [firstHit_grow, hfirst]) val
    have hcelli : (m.grow.put key val).cell i = some other := by
      refine HashMap.cell_put_of_ne ?_ (by simp [hnone])
        (fun _ => m.cell_freeCell_grow key) val
      rw [m.cell_grow]
      exact hother
    rw [hput, hmGet_of_find hput hcelli, hvalue i other hother hfirst]
    exact ⟨rfl, rfl⟩

namespace GrowFrame

variable {stray : Nat → Item} {m : HashMap} {key : CStr} {j : Nat} {item : Item}

theorem find_put (hgrows : m.Grows key) (hframe : GrowFrame stray m key)
    (hitem : m.cell j = some item) (hne : item.key ≠ key) (val : Int64) :
    (m.grow.put key val).find item.key ≠ none := by
  rw [← hmSet_of_grows stray hgrows]
  exact Option.isSome_iff_ne_none.mp
    (hframe val item.key hne (HashMap.stored_of_cell hitem)).1

theorem hmGet_put (hsound : m.Sound) (hgrows : m.Grows key) (hframe : GrowFrame stray m key)
    (hitem : m.cell j = some item) (hne : item.key ≠ key) (val : Int64) :
    hmGet (m.grow.put key val) item.key = item.value := by
  rw [← hmSet_of_grows stray hgrows,
    (hframe val item.key hne (HashMap.stored_of_cell hitem)).2, hsound.hmGet_eq hitem]

/-- An update leaves the cells of the new half empty. -/
theorem home_lt_of_find (hgrows : m.Grows key) (hframe : GrowFrame stray m key) {i : Nat}
    (hfind : m.grow.find key = some i) (hitem : m.cell j = some item) (hne : item.key ≠ key) :
    m.grow.home item.key < m.size := by
  by_contra hle
  apply hframe.find_put hgrows hitem hne 0
  rw [HashMap.find_put_of_find hfind, HashMap.find_grow_of_le (by omega)]

/-- An insertion fills one cell of the new half at most. -/
theorem home_eq_of_find_none (hgrows : m.Grows key) (hframe : GrowFrame stray m key)
    (hnone : m.grow.find key = none) (hitem : m.cell j = some item) (hne : item.key ≠ key)
    (hle : m.size ≤ m.grow.home item.key) : m.grow.home item.key = m.grow.freeCell key := by
  by_contra hother
  apply hframe.find_put hgrows hitem hne 0
  rw [HashMap.find_eq_none_iff]
  left
  rw [HashMap.cell_put_of_find_none hnone, HashMap.put_of_find_none hnone,
    HashMap.home_storeItem, if_neg (Ne.symm hother)]
  exact HashMap.cell_grow_of_le hle

theorem not_isPrefix (hsound : m.Sound) (hgrows : m.Grows key) (hframe : GrowFrame stray m key)
    (hnone : m.grow.find key = none) (hitem : m.cell j = some item) (hne : item.key ≠ key)
    (hhome : m.grow.home item.key = m.grow.freeCell key) : ¬ item.key.bytes <+: key.bytes := by
  intro hprefix
  have hcaptured : ∀ val, (m.grow.put key val).find item.key = some (m.grow.freeCell key) :=
    HashMap.find_put_of_isPrefix hnone hprefix (Or.inl hhome)
  exact HashMap.not_constant_of_find_none hnone hcaptured item.value
    (hframe.hmGet_put hsound hgrows hitem hne)

theorem finds (hsound : m.Sound) (hgrows : m.Grows key) (hframe : GrowFrame stray m key) :
    m.GrowFinds key := by
  constructor
  · intro i item hitem hfind
    by_contra hne
    have hfound : m.grow.find item.key = some i := by
      rw [HashMap.find_grow_of_lt (hframe.home_lt_of_find hgrows hfind hitem hne),
        hsound.found i item hitem]
    exact HashMap.not_constant_of_find hfind hfound item.value
      (hframe.hmGet_put hsound hgrows hitem hne)
  · intro j item hitem hne
    by_cases hlt : m.grow.home item.key < m.size
    · exact Or.inl hlt
    have hnone : m.grow.find key = none := by
      rcases hfind : m.grow.find key with _ | i
      · rfl
      · exact absurd (hframe.home_lt_of_find hgrows hfind hitem hne) hlt
    have hhome := hframe.home_eq_of_find_none hgrows hnone hitem hne (Nat.le_of_not_lt hlt)
    have hmiss := hframe.not_isPrefix hsound hgrows hnone hitem hne hhome
    refine Or.inr ⟨hnone, hhome, hmiss, ?_⟩
    intro i other hother hfirst
    have hfound : (m.grow.put key 0).find item.key = some i :=
      HashMap.find_put_of_home_eq_freeCell hnone hhome hmiss (m.cell_freeCell_grow key)
        (by rw [firstHit_grow, hfirst]) 0
    have hcelli : (m.grow.put key 0).cell i = some other := by
      refine HashMap.cell_put_of_ne ?_ (by simp [hnone]) (fun _ => m.cell_freeCell_grow key) 0
      rw [m.cell_grow, hother]
    rw [← hmGet_of_find hfound hcelli]
    exact hframe.hmGet_put hsound hgrows hitem hne 0

end GrowFrame

/-- In a map reached by calls that damaged no record, a call that doubles the
table keeps every other record in reach exactly when the condition holds. -/
theorem growFrame_iff (stray : Nat → Item) (ops : List Op) (m : HashMap)
    (hrun : GuardedRun (step stray) (fun m op => op.KeepsRecords m) hmInit ops m)
    (key : CStr) (hgrows : m.Grows key) :
    GrowFrame stray m key ↔ m.GrowFinds key :=
  ⟨GrowFrame.finds (sound_of_guardedRun hrun) hgrows,
    (sound_of_guardedRun hrun).growFrame hgrows⟩

theorem growFrame_iff_sample :
    GrowFrame blankStray
        (hmSet blankStray (hmSet blankStray hmInit (ofBuffer [101]) 1) (ofBuffer [99]) 2)
        (ofBuffer [108]) ↔
      (hmSet blankStray (hmSet blankStray hmInit (ofBuffer [101]) 1)
        (ofBuffer [99]) 2).GrowFinds (ofBuffer [108]) :=
  growFrame_iff blankStray [.set (ofBuffer [101]) 1, .set (ofBuffer [99]) 2] _
    (guardedRun_iff.mpr rfl) (ofBuffer [108]) (by decide)

/-- Setting `"c"` in the full table of `"a"` and `"b"` doubles it, and `"b"` is
no longer found: its new home cell is empty. -/
theorem not_growFrame_of_displaced :
    ∃ m, run (step blankStray) hmInit
        [.set (ofBuffer [97]) 1, .set (ofBuffer [98]) 2] = some m ∧
      m.Grows (ofBuffer [99]) ∧ hmGet m (ofBuffer [98]) = 2 ∧
      hmGet (hmSet blankStray m (ofBuffer [99]) 3) (ofBuffer [98]) = 0 :=
  ⟨_, rfl, by decide, by decide, by decide⟩

/-- One record less, no cell holds the deleted key, and the lookups of the other
stored keys answer as before. -/
def DelFrame (m m' : HashMap) (key : CStr) : Prop :=
  hmLen m' + 1 = hmLen m ∧ ¬ m'.Stored key ∧
    ∀ key', key' ≠ key → m'.Stored key' → hmGet m' key' = hmGet m key'

/-- Every other record whose home is the cell of the key has the value 0. -/
def HashMap.DelHidesNone (m : HashMap) (key : CStr) : Prop :=
  ∀ t item, m.cell t = some item → item.key = key →
    ∀ j other, m.cell j = some other → other.key ≠ key → m.home other.key = t →
      other.value = 0

theorem HashMap.Sound.hidesNone_iff {m m' : HashMap} (hsound : m.Sound) {key : CStr}
    (hdel : hmDel m key = some m') : DelFrame m m' key ↔ m.DelHidesNone key := by
  obtain ⟨t, item, rfl, hitem, rfl⟩ := hmDel_cases hdel
  have ht := HashMap.lt_size_of_cell hitem
  have hpos : 0 < m.numOfRecs := by
    rw [hsound.counted]
    exact occupied_pos_of_cell hitem
  have hne : ∀ j other, j ≠ t → m.cell j = some other → other.key ≠ item.key :=
    fun j other hjt hother hkey => hjt (hsound.index_unique hother hitem hkey)
  have hlookup : ∀ j other, j ≠ t → m.cell j = some other →
      hmGet (m.clearItem t) other.key =
        if m.home other.key = t then 0 else other.value := by
    intro j other hjt hother
    split
    · rename_i hhome
      apply hmGet_of_find_none
      rw [HashMap.find_eq_none_iff, HashMap.home_clearItem]
      left
      rw [HashMap.cell_clearItem m ht, if_pos hhome.symm]
    · rename_i hhome
      have hcell : (m.clearItem t).cell j = some other := by
        rw [HashMap.cell_clearItem m ht, if_neg (Ne.symm hjt), hother]
      exact hmGet_of_find (hsound.find_clearItem hother hjt hhome) hcell
  constructor
  · rintro ⟨-, -, hsame⟩ t' item' hitem' hkey' j other hother hotherKey hhome
    obtain rfl : t' = t := hsound.index_unique hitem' hitem hkey'
    have hjt : j ≠ t' := by
      rintro rfl
      exact hotherKey (by rw [hitem] at hother; cases hother; rfl)
    have hkept : (m.clearItem t').Stored other.key :=
      (HashMap.stored_clearItem ht).mpr ⟨j, other, hjt, hother, rfl⟩
    have hget := hsame other.key hotherKey hkept
    rw [hlookup j other hjt hother, if_pos hhome, hsound.hmGet_eq hother] at hget
    exact hget.symm
  · intro hhides
    refine ⟨?_, ?_, ?_⟩
    · rw [hmLen, hmLen, HashMap.numOfRecs_clearItem]
      omega
    · intro hstored
      obtain ⟨j, other, hjt, hother, hkey⟩ := (HashMap.stored_clearItem ht).mp hstored
      exact hne j other hjt hother hkey
    · intro key' hkey' hstored
      obtain ⟨j, other, hjt, hother, rfl⟩ := (HashMap.stored_clearItem ht).mp hstored
      rw [hlookup j other hjt hother, hsound.hmGet_eq hother]
      split
      · rename_i hhome
        exact (hhides t item hitem rfl j other hother hkey' hhome).symm
      · rfl

/-- In a map reached by calls that damaged no record, a deletion that returns
removes one record and hides no other exactly when the condition holds. -/
theorem delFrame_iff (stray : Nat → Item) (ops : List Op) (m m' : HashMap) (key : CStr)
    (hrun : GuardedRun (step stray) (fun m op => op.KeepsRecords m) hmInit ops m)
    (hdel : hmDel m key = some m') : DelFrame m m' key ↔ m.DelHidesNone key :=
  (sound_of_guardedRun hrun).hidesNone_iff hdel

theorem delFrame_iff_sample :
    DelFrame sampleMap (sampleMap.clearItem 1) (ofBuffer [99]) ↔
      sampleMap.DelHidesNone (ofBuffer [99]) :=
  delFrame_iff blankStray
    [.set (ofBuffer [101]) 1, .set (ofBuffer [99]) 2, .set (ofBuffer [108]) 3] sampleMap
    (sampleMap.clearItem 1) (ofBuffer [99]) (guardedRun_iff.mpr rfl) (by decide)

/-- After setting `"a"` and `"e"`, which share the home cell 0, deleting `"a"`
makes the lookup of `"e"` answer 0. -/
theorem not_delFrame_of_freed_home :
    ∃ m m', run (step blankStray) hmInit
        [.set (ofBuffer [97]) 1, .set (ofBuffer [101]) 2] = some m ∧
      hmDel m (ofBuffer [97]) = some m' ∧ m'.Stored (ofBuffer [101]) ∧
      hmGet m (ofBuffer [101]) = 2 ∧ hmGet m' (ofBuffer [101]) = 0 :=
  ⟨_, _, rfl, rfl, by decide, by decide, by decide⟩

end CHomework.WordCounter
