import CHomework.WordCounter.Calls

/-!
Maps in which every search ends at the record it looks for, and the conditions
under which the calls keep it so.
-/

namespace CHomework.WordCounter

open CHomework.CellArray
open CHomework.CString
open CHomework.Runs

namespace HashMap

/-- The counter counts the occupied cells, and the search for a stored key ends
at its record. In particular no key is stored twice. -/
structure Sound (m : HashMap) : Prop where
  counted : m.numOfRecs = occupied m.data
  found : ∀ i item, m.cell i = some item → m.find item.key = some i

/-- A call that does not grow the map damages no record: the search for the key
stops at no longer key, an insertion goes into an empty cell, and no record
displaced from its home cell is cut off by a longer key put before it. -/
def SetKeeps (m : HashMap) (key : CStr) : Prop :=
  (∀ i item, m.cell i = some item → m.find key = some i → item.key = key) ∧
    (m.find key = none → m.cell (m.freeCell key) = none ∧
      ∀ j item, m.cell j = some item → item.key.bytes <+: key.bytes →
        m.home item.key = j ∨ j < m.freeCell key)

/-- A call that grows the map damages no record: the search for the key in the
doubled table stops at no longer key, and every home index stays in the old
half, or is the very cell that the new record takes, from where the scan of the
array meets the record first. -/
def GrowKeeps (m : HashMap) (key : CStr) : Prop :=
  (∀ i item, m.cell i = some item → m.grow.find key = some i → item.key = key) ∧
    ∀ j item, m.cell j = some item →
      m.grow.home item.key < m.size ∨
        (m.grow.find key = none ∧ m.grow.home item.key = m.grow.freeCell key ∧
          ¬ item.key.bytes <+: key.bytes ∧
          ∀ i other, m.cell i = some other → i < j →
            ¬ item.key.bytes <+: other.key.bytes)

/-- No other record has its home at the cell that the deletion frees. -/
def DelKeeps (m : HashMap) (key : CStr) : Prop :=
  ∀ t item, m.cell t = some item → item.key = key →
    ∀ j other, m.cell j = some other → other.key ≠ key → m.home other.key ≠ t

instance (m : HashMap) (key : CStr) : Decidable (m.SetKeeps key) := by
  unfold SetKeeps
  infer_instance

instance (m : HashMap) (key : CStr) : Decidable (m.GrowKeeps key) := by
  unfold GrowKeeps
  infer_instance

instance (m : HashMap) (key : CStr) : Decidable (m.DelKeeps key) := by
  unfold DelKeeps
  infer_instance

variable {m : HashMap}

theorem Sound.not_stored_of_find_none (hsound : m.Sound) {key : CStr}
    (h : m.find key = none) : ¬ m.Stored key := by
  intro hstored
  obtain ⟨i, item, hitem, rfl⟩ := stored_iff.mp hstored
  rw [hsound.found i item hitem] at h
  cases h

theorem Sound.index_unique (hsound : m.Sound) {i j : Nat} {item other : Item}
    (hi : m.cell i = some item) (hj : m.cell j = some other)
    (hkey : item.key = other.key) : i = j := by
  have hfound := hsound.found i item hi
  rw [hkey, hsound.found j other hj] at hfound
  simpa [eq_comm] using hfound

theorem Sound.hmGet_eq (hsound : m.Sound) {i : Nat} {item : Item}
    (hitem : m.cell i = some item) : hmGet m item.key = item.value :=
  hmGet_of_find (hsound.found i item hitem) hitem

theorem Sound.full (hsound : m.Sound) (hfull : m.numOfRecs = m.size) {i : Nat}
    (hi : i < m.size) : m.cell i ≠ none := by
  apply cell_ne_none_of_occupied_eq_length
  · rw [← hsound.counted, hfull, m.data_length]
  · rwa [m.data_length]

theorem sound_hmInit : hmInit.Sound where
  counted := rfl
  found := by
    intro i item hitem
    simp [cell_hmInit] at hitem

/-- A search that gets to the free cell ends at the new record if that extends its
key. -/
theorem find_put_of_isPrefix {key key' : CStr} (h : m.find key = none)
    (hkey : key'.bytes <+: key.bytes)
    (hreach : m.home key' = m.freeCell key ∨
      (∃ item, m.cell (m.home key') = some item ∧ hits key' item = false) ∧
        ∀ i < m.freeCell key, ∀ item, m.cell i = some item → hits key' item = false)
    (val : Int64) : (m.put key val).find key' = some (m.freeCell key) := by
  rw [put_of_find_none h]
  have hlt : m.freeCell key < m.data.length := by
    rw [m.data_length]
    exact freeCell_lt key
  exact probe_set_self hlt (hits_iff.mpr hkey) hreach

theorem find_put_self {key : CStr} (h : m.find key = none) (val : Int64) :
    (m.put key val).find key = some (m.freeCell key) := by
  refine find_put_of_isPrefix h List.prefix_rfl ?_ val
  rcases hhome : m.cell (m.home key) with _ | item
  · left
    rw [freeCell, if_pos hhome]
  · right
    have hmiss := (find_eq_none_iff.mp h).resolve_left (by rw [hhome]; exact Option.some_ne_none _)
    exact ⟨⟨item, rfl, hmiss _ item hhome⟩, fun i _ => hmiss i⟩

theorem hmGet_put_of_find {key key' : CStr} {i : Nat} (hkey : m.find key = some i)
    (hkey' : m.find key' = some i) (val : Int64) : hmGet (m.put key val) key' = val := by
  obtain ⟨item, hitem, -⟩ := cell_of_find hkey
  have hcell : (m.put key val).cell i = some { item with value := val } := by
    rw [cell_put_of_find hkey, if_pos rfl, hitem]
    rfl
  rw [hmGet_of_find ((find_put_of_find hkey val key').trans hkey') hcell]

theorem hmGet_put_of_find_none {key key' : CStr} {val : Int64} (hkey : m.find key = none)
    (hkey' : (m.put key val).find key' = some (m.freeCell key)) :
    hmGet (m.put key val) key' = val := by
  have hcell : (m.put key val).cell (m.freeCell key) = some { key := key, value := val } := by
    rw [cell_put_of_find_none hkey, if_pos rfl]
  rw [hmGet_of_find hkey' hcell]

/-- A record that its search finds is still found after an insertion into an
empty cell that does not come before it under a longer key. -/
theorem find_put_of_empty {key key' : CStr} {j : Nat} (h : m.find key = none)
    (hempty : m.cell (m.freeCell key) = none) (hfind : m.find key' = some j)
    (hclear : key'.bytes <+: key.bytes → m.home key' = j ∨ j < m.freeCell key)
    (val : Int64) : (m.put key val).find key' = some j := by
  rw [put_of_find_none h]
  have hlt : m.freeCell key < m.data.length := by
    rw [m.data_length]
    exact freeCell_lt key
  exact probe_set_some hlt hempty hfind fun hhit => hclear (hits_iff.mp hhit)

theorem numOfRecs_put_eq_occupied {key : CStr} (hcount : m.numOfRecs = occupied m.data)
    (hempty : m.find key = none → m.cell (m.freeCell key) = none) (val : Int64) :
    (m.put key val).numOfRecs = occupied (m.put key val).data := by
  rcases hfind : m.find key with _ | i
  · have hlt : m.freeCell key < m.data.length := by
      rw [m.data_length]
      exact freeCell_lt key
    rw [put_of_find_none hfind, numOfRecs_storeItem, hcount]
    exact (occupied_set_some_of_empty _ hlt (hempty hfind)).symm
  · rw [put_of_find hfind, numOfRecs_updateValue, hcount]
    exact (occupied_modify _ _ _).symm

/-- What is left to show for an insertion or update to end in a sound map: each
record that is not the updated one is found where it is. -/
theorem sound_put {key : CStr} {val : Int64} (hcount : m.numOfRecs = occupied m.data)
    (hempty : m.find key = none → m.cell (m.freeCell key) = none)
    (hown : ∀ i item, m.cell i = some item → m.find key = some i → item.key = key)
    (hfind : ∀ j item, m.cell j = some item → (m.put key val).find item.key = some j) :
    (m.put key val).Sound := by
  refine ⟨numOfRecs_put_eq_occupied hcount hempty val, ?_⟩
  intro j item hitem
  rcases hkey : m.find key with _ | i
  · rw [cell_put_of_find_none hkey] at hitem
    split at hitem
    · rename_i hfree
      obtain rfl : { key := key, value := val } = item := by simpa using hitem
      rw [find_put_self hkey, hfree]
    · exact hfind j item hitem
  · rw [cell_put_of_find hkey] at hitem
    split at hitem
    · rename_i hij
      subst hij
      obtain ⟨old, hold, rfl⟩ := Option.map_eq_some_iff.mp hitem
      rw [find_put_of_find hkey, hown i old hold hkey, hkey]
    · exact hfind j item hitem

theorem Sound.find_put (hsound : m.Sound) {key : CStr} (hkeeps : m.SetKeeps key)
    (val : Int64) {j : Nat} {item : Item} (hitem : m.cell j = some item) :
    (m.put key val).find item.key = some j := by
  have hfound := hsound.found j item hitem
  rcases hfind : m.find key with _ | i
  · obtain ⟨hempty, hclear⟩ := hkeeps.2 hfind
    exact find_put_of_empty hfind hempty hfound (hclear j item hitem) val
  · rw [find_put_of_find hfind, hfound]

theorem Sound.put (hsound : m.Sound) {key : CStr} (hkeeps : m.SetKeeps key)
    (val : Int64) : (m.put key val).Sound :=
  sound_put hsound.counted (fun hnone => (hkeeps.2 hnone).1) hkeeps.1
    fun _ _ hitem => hsound.find_put hkeeps val hitem

theorem home_grow_of_lt {key : CStr} (h : m.grow.home key < m.size) :
    m.grow.home key = m.home key := by
  have hmod : m.grow.home key % m.size = m.home key := by
    rw [home, home, size_grow, Nat.mod_mul_right_mod]
  rw [← hmod, Nat.mod_eq_of_lt h]

theorem cell_grow_of_le {i : Nat} (hi : m.size ≤ i) : m.grow.cell i = none := by
  rw [cell_grow]
  rcases hcell : m.cell i with _ | item
  · rfl
  · have := lt_size_of_cell hcell
    omega

theorem find_grow_of_lt {key : CStr} (h : m.grow.home key < m.size) :
    m.grow.find key = m.find key := by
  rw [find, home_grow_of_lt h]
  exact probe_congr m.cell_grow

theorem find_grow_of_le {key : CStr} (h : m.size ≤ m.grow.home key) :
    m.grow.find key = none :=
  find_eq_none_iff.mpr (Or.inl (cell_grow_of_le h))

theorem cell_freeCell_grow (key : CStr) : m.grow.cell (m.grow.freeCell key) = none := by
  rw [freeCell]
  split
  · rename_i hhome
    exact hhome
  · rename_i hhome
    have hlt : m.grow.home key < m.size := by
      by_contra hle
      exact hhome (cell_grow_of_le (by omega))
    have hpos := m.size_pos
    rcases hfree : firstEmptyAbove (m.grow.home key) m.grow.data with _ | t
    · have hlen : m.size < m.grow.data.length := by
        rw [m.grow.data_length, size_grow]
        omega
      exact absurd (cell_grow_of_le (Nat.le_refl m.size))
        (ne_none_of_firstEmptyAbove hfree hlt hlen)
    · exact (firstEmptyAbove_spec hfree).2.2

theorem Sound.size_le_freeCell_grow (hsound : m.Sound) (hfull : m.numOfRecs = m.size)
    (key : CStr) : m.size ≤ m.grow.freeCell key := by
  by_contra hlt
  have hempty := m.cell_freeCell_grow key
  rw [cell_grow] at hempty
  exact hsound.full hfull (by omega) hempty

/-- A record whose home cell is the one that a new record takes is found by the
scan that follows. -/
theorem find_put_of_home_eq_freeCell {key key' : CStr} {i : Nat} (h : m.find key = none)
    (hhome : m.home key' = m.freeCell key) (hmiss : ¬ key'.bytes <+: key.bytes)
    (hempty : m.cell (m.freeCell key) = none)
    (hfirst : firstHit (hits key') m.data = some i) (val : Int64) :
    (m.put key val).find key' = some i := by
  obtain ⟨⟨other, hother, hhit⟩, hbelow⟩ := firstHit_eq_some_iff.mp hfirst
  have hnew : hits key' { key := key, value := val } = false := by
    rw [← Bool.not_eq_true, hits_iff]
    exact hmiss
  have hne : m.freeCell key ≠ i := by
    intro heq
    rw [heq] at hempty
    rw [cell, hother] at hempty
    cases hempty
  rw [find_eq_some_iff]
  refine ⟨⟨other, ?_, hhit⟩, Or.inr ⟨⟨{ key := key, value := val }, ?_, hnew⟩, ?_⟩⟩
  · rw [cell_put_of_find_none h, if_neg hne]
    exact hother
  · rw [cell_put_of_find_none h, if_pos]
    rw [put_of_find_none h, home_storeItem, hhome]
  · intro k hk item hitem
    rw [cell_put_of_find_none h] at hitem
    split at hitem
    · obtain rfl : { key := key, value := val } = item := by simpa using hitem
      exact hnew
    · exact hbelow k hk item hitem

theorem Sound.find_put_grow (hsound : m.Sound) (hfull : m.numOfRecs = m.size)
    {key : CStr} (hkeeps : m.GrowKeeps key) (val : Int64) {j : Nat} {item : Item}
    (hitem : m.cell j = some item) : (m.grow.put key val).find item.key = some j := by
  rcases hkeeps.2 j item hitem with hlt | ⟨hnone, hhome, hmiss, hbelow⟩
  · have hfound : m.grow.find item.key = some j := by
      rw [find_grow_of_lt hlt, hsound.found j item hitem]
    rcases hfind : m.grow.find key with _ | i
    · refine find_put_of_empty hfind (m.cell_freeCell_grow key) hfound ?_ val
      intro _
      have := hsound.size_le_freeCell_grow hfull key
      have := lt_size_of_cell hitem
      omega
    · rw [find_put_of_find hfind, hfound]
  · refine find_put_of_home_eq_freeCell hnone hhome hmiss (m.cell_freeCell_grow key) ?_ val
    rw [firstHit_eq_some_iff]
    refine ⟨⟨item, ?_, hits_self rfl⟩, ?_⟩
    · rw [← hitem]
      exact m.cell_grow j
    · intro i hi other hother
      rw [← Bool.not_eq_true, hits_iff]
      refine hbelow i other ?_ hi
      rw [← hother]
      exact (m.cell_grow i).symm

theorem Sound.put_grow (hsound : m.Sound) (hfull : m.numOfRecs = m.size) {key : CStr}
    (hkeeps : m.GrowKeeps key) (val : Int64) : (m.grow.put key val).Sound := by
  have hown : ∀ i item, m.grow.cell i = some item → m.grow.find key = some i →
      item.key = key := by
    intro i item hitem
    rw [cell_grow] at hitem
    exact hkeeps.1 i item hitem
  refine sound_put ?_ (fun _ => m.cell_freeCell_grow key) hown ?_
  · rw [numOfRecs_grow, hsound.counted, data_grow, occupied_append_replicate_none]
  · intro j item hitem
    rw [cell_grow] at hitem
    exact hsound.find_put_grow hfull hkeeps val hitem

theorem Sound.find_clearItem (hsound : m.Sound) {t j : Nat} {other : Item}
    (hother : m.cell j = some other) (hjt : j ≠ t) (hhome : m.home other.key ≠ t) :
    (m.clearItem t).find other.key = some j :=
  probe_set_none (hsound.found j other hother) hhome hjt

theorem Sound.clearItem (hsound : m.Sound) {t : Nat} {item : Item}
    (hitem : m.cell t = some item) (hkeeps : m.DelKeeps item.key) :
    (m.clearItem t).Sound := by
  have hocc : occupied (m.clearItem t).data + 1 = occupied m.data :=
    occupied_set_none hitem
  refine ⟨?_, ?_⟩
  · rw [numOfRecs_clearItem, hsound.counted]
    omega
  · intro j other hother
    rw [cell_clearItem m (lt_size_of_cell hitem)] at hother
    split at hother
    · cases hother
    · rename_i htj
      have hne : other.key ≠ item.key := fun hkey =>
        htj (hsound.index_unique hitem hother hkey.symm)
      exact hsound.find_clearItem hother (Ne.symm htj)
        (hkeeps t item hitem rfl j other hother hne)

end HashMap

def Op.KeepsRecords (m : HashMap) : Op → Prop
  | .set key _ => if m.Grows key then m.GrowKeeps key else m.SetKeeps key
  | .del key => m.DelKeeps key

instance (m : HashMap) (op : Op) : Decidable (op.KeepsRecords m) := by
  unfold Op.KeepsRecords
  split <;> infer_instance

theorem sound_step {stray : Nat → Item} {m m' : HashMap} {op : Op} (hsound : m.Sound)
    (hkeeps : op.KeepsRecords m) (hstep : step stray m op = some m') : m'.Sound := by
  rcases op with ⟨key, val⟩ | key
  · obtain rfl : hmSet stray m key val = m' := by simpa [step] using hstep
    rw [Op.KeepsRecords] at hkeeps
    split at hkeeps
    · rename_i hgrows
      rw [hmSet_of_grows stray hgrows]
      exact hsound.put_grow hgrows.1 hkeeps val
    · rename_i hgrows
      rw [hmSet_of_not_grows stray hgrows]
      exact hsound.put hkeeps val
  · obtain ⟨i, item, rfl, hitem, rfl⟩ := step_del_cases hstep
    exact hsound.clearItem hitem hkeeps

theorem sound_of_guardedRun {stray : Nat → Item} {ops : List Op} {m : HashMap}
    (hrun : GuardedRun (step stray) (fun m op => op.KeepsRecords m) hmInit ops m) :
    m.Sound :=
  hrun.invariant HashMap.sound_hmInit fun _ _ _ hsound hkeeps hstep =>
    sound_step hsound hkeeps hstep

end CHomework.WordCounter
