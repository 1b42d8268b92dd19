import Mathlib.Logic.Function.Basic
import CHomework.WordCounter.Sound

/-!
The hash map as a dictionary. Runs whose calls damage no record refine runs of
the dictionary operations.
-/

namespace CHomework.WordCounter

open CHomework.CellArray
open CHomework.CString
open CHomework.Runs

/-- What the map is for: each key has a value or none. -/
abbrev Dictionary := CStr → Option Int64

def Dictionary.empty : Dictionary := fun _ => none

def Dictionary.apply (d : Dictionary) : Op → Dictionary
  | .set key val => Function.update d key (some val)
  | .del key => Function.update d key none

/-- The records are the entries of the dictionary, and each is found. -/
structure Represents (m : HashMap) (d : Dictionary) : Prop where
  sound : m.Sound
  mem_iff : ∀ item, item ∈ contents m.data ↔ d item.key = some item.value

/-- The records after an insertion or update that hits no other key. -/
theorem mem_contents_put {g : HashMap} {key : CStr}
    (hown : ∀ i item, g.cell i = some item → g.find key = some i → item.key = key)
    (honly : ∀ i item, g.cell i = some item → item.key = key → g.find key = some i)
    (hempty : g.find key = none → g.cell (g.freeCell key) = none) (val : Int64)
    (item : Item) :
    item ∈ contents (g.put key val).data ↔
      (item.key = key ∧ item.value = val) ∨ (item.key ≠ key ∧ item ∈ contents g.data) := by
  rw [mem_contents_iff, mem_contents_iff]
  show (∃ i, (g.put key val).cell i = some item) ↔
    _ ∨ (_ ∧ ∃ i, g.cell i = some item)
  cases hfind : g.find key with
  | none =>
      simp only [HashMap.cell_put_of_find_none hfind]
      constructor
      · rintro ⟨i, hi⟩
        split at hi
        · rw [Option.some.injEq] at hi
          subst hi
          exact Or.inl ⟨rfl, rfl⟩
        · refine Or.inr ⟨?_, i, hi⟩
          intro hkey
          have hfound := honly i item hi hkey
          rw [hfind] at hfound
          cases hfound
      · rintro (⟨rfl, rfl⟩ | ⟨-, i, hi⟩)
        · exact ⟨g.freeCell item.key, if_pos rfl⟩
        · refine ⟨i, ?_⟩
          rw [if_neg, hi]
          rintro rfl
          rw [hempty hfind] at hi
          cases hi
  | some t =>
      rcases HashMap.cell_of_find hfind with ⟨old, hold, -⟩
      have hkeyOld := hown t old hold hfind
      simp only [HashMap.cell_put_of_find hfind]
      constructor
      · rintro ⟨i, hi⟩
        split at hi
        · rename_i hti
          rw [← hti, hold, Option.map_some, Option.some.injEq] at hi
          subst hi
          exact Or.inl ⟨hkeyOld, rfl⟩
        · rename_i hti
          refine Or.inr ⟨?_, i, hi⟩
          intro hkey
          have hfound := honly i item hi hkey
          rw [hfind, Option.some.injEq] at hfound
          exact hti hfound
      · rintro (⟨hkey, hvalue⟩ | ⟨hne, i, hi⟩)
        · refine ⟨t, ?_⟩
          rw [if_pos rfl, hold, Option.map_some, ← hvalue, hkeyOld, ← hkey]
        · refine ⟨i, ?_⟩
          rw [if_neg, hi]
          rintro rfl
          exact hne (hown t item hi hfind)

theorem mem_contents_clearItem {m : HashMap} (hsound : m.Sound) {t : Nat} {old : Item}
    (hold : m.cell t = some old) (item : Item) :
    item ∈ contents (m.clearItem t).data ↔ item.key ≠ old.key ∧ item ∈ contents m.data := by
  rw [mem_contents_iff, mem_contents_iff]
  show (∃ i, (m.clearItem t).cell i = some item) ↔ _ ∧ ∃ i, m.cell i = some item
  simp only [HashMap.cell_clearItem m (HashMap.lt_size_of_cell hold)]
  constructor
  · rintro ⟨i, hi⟩
    split at hi
    · cases hi
    · rename_i hti
      exact ⟨fun hkey => hti (hsound.index_unique hold hi hkey.symm), i, hi⟩
  · rintro ⟨hne, i, hi⟩
    refine ⟨i, ?_⟩
    rw [if_neg, hi]
    rintro rfl
    rw [hold, Option.some.injEq] at hi
    exact hne (congrArg Item.key hi.symm)

theorem mem_contents_grow {m : HashMap} (item : Item) :
    item ∈ contents m.grow.data ↔ item ∈ contents m.data := by
  rw [mem_contents_iff, mem_contents_iff]
  show (∃ i, m.grow.cell i = some item) ↔ ∃ i, m.cell i = some item
  simp only [HashMap.cell_grow]

theorem mem_contents_hmSet {stray : Nat → Item} {m : HashMap} {key : CStr} {val : Int64}
    (hsound : m.Sound) (hkeeps : (Op.set key val).KeepsRecords m) (item : Item) :
    item ∈ contents (hmSet stray m key val).data ↔
      (item.key = key ∧ item.value = val) ∨ (item.key ≠ key ∧ item ∈ contents m.data) := by
  rw [Op.KeepsRecords] at hkeeps
  split at hkeeps
  · rename_i hgrows
    rw [hmSet_of_grows stray hgrows, ← mem_contents_grow (m := m)]
    apply mem_contents_put
    · intro i item hitem
      rw [HashMap.cell_grow] at hitem
      exact hkeeps.1 i item hitem
    · rintro i item hitem rfl
      rw [HashMap.cell_grow] at hitem
      rcases hkeeps.2 i item hitem with hlt | ⟨-, -, hmiss, -⟩
      · rw [HashMap.find_grow_of_lt hlt]
        exact hsound.found i item hitem
      · exact absurd List.prefix_rfl hmiss
    · intro _
      exact m.cell_freeCell_grow key
  · rename_i hgrows
    rw [hmSet_of_not_grows stray hgrows]
    apply mem_contents_put hkeeps.1
    · rintro i item hitem rfl
      exact hsound.found i item hitem
    · intro hnone
      exact (hkeeps.2 hnone).1

/-- A call that damages no record does to the records what the operation does
to the dictionary. -/
theorem Represents.step {stray : Nat → Item} {m m' : HashMap} {d : Dictionary} {op : Op}
    (h : Represents m d) (hkeeps : op.KeepsRecords m) (hstep : step stray m op = some m') :
    Represents m' (d.apply op) := by
  refine ⟨sound_step h.sound hkeeps hstep, ?_⟩
  intro item
  cases op with
  | set key val =>
      obtain rfl : hmSet stray m key val = m' := by simpa [WordCounter.step] using hstep
      rw [mem_contents_hmSet h.sound hkeeps, h.mem_iff]
      show _ ↔ Function.update d key (some val) item.key = some item.value
      rw [Function.update_apply]
      split
      · rename_i hkey
        simp [hkey, eq_comm]
      · rename_i hkey
        simp [hkey]
  | del key =>
      rcases step_del_cases hstep with ⟨t, old, rfl, hold, rfl⟩
      rw [mem_contents_clearItem h.sound hold, h.mem_iff]
      show _ ↔ Function.update d old.key none item.key = some item.value
      rw [Function.update_apply]
      split
      · rename_i hkey
        simp [hkey]
      · rename_i hkey
        simp [hkey]

theorem represents_hmInit : Represents hmInit Dictionary.empty := by
  refine ⟨HashMap.sound_hmInit, ?_⟩
  intro item
  simp [hmInit, contents, Dictionary.empty]

/-- A run whose calls damage no record refines the run of the dictionary. -/
theorem represents_of_guardedRun {stray : Nat → Item} {ops : List Op} {m : HashMap}
    (hrun : GuardedRun (step stray) (fun m op => op.KeepsRecords m) hmInit ops m) :
    Represents m (ops.foldl Dictionary.apply Dictionary.empty) :=
  hrun.simulates Dictionary.apply represents_hmInit fun _ _ _ _ h hkeeps hstep =>
    h.step hkeeps hstep

section Represents

variable {m : HashMap} {d : Dictionary}

theorem Represents.stored_iff (h : Represents m d) (key : CStr) :
    m.Stored key ↔ d key ≠ none := by
  constructor
  · rintro ⟨item, hmem, rfl⟩ hnone
    rw [h.mem_iff, hnone] at hmem
    cases hmem
  · intro hsome
    rcases Option.ne_none_iff_exists'.mp hsome with ⟨val, hval⟩
    exact ⟨{ key := key, value := val }, (h.mem_iff _).mpr hval, rfl⟩

/-- `hm_get` is the lookup of the dictionary, except for a missing key that a
stored key extends. -/
theorem Represents.hmGet_eq (h : Represents m d) {key : CStr}
    (hkey : m.Stored key ∨ ∀ item ∈ contents m.data, ¬ key.bytes <+: item.key.bytes) :
    hmGet m key = (d key).getD 0 := by
  rcases hkey with hstored | hlonger
  · rcases HashMap.stored_iff.mp hstored with ⟨i, item, hitem, rfl⟩
    have hmem : item ∈ contents m.data := mem_contents_iff.mpr ⟨i, hitem⟩
    rw [h.sound.hmGet_eq hitem, (h.mem_iff item).mp hmem, Option.getD_some]
  · have hnone : d key = none := by
      by_contra hsome
      rcases (h.stored_iff key).mpr hsome with ⟨item, hmem, rfl⟩
      exact hlonger item hmem List.prefix_rfl
    rw [hnone, Option.getD_none]
    apply hmGet_of_find_none
    rw [HashMap.find_eq_none_iff]
    right
    intro i item hitem
    rw [← Bool.not_eq_true, hits_iff]
    exact hlonger item (mem_contents_iff.mpr ⟨i, hitem⟩)

/-- `hm_iter` lists the entries of the dictionary, and `hm_len` is their number. -/
theorem Represents.hmIter_spec (h : Represents m d) (stray : Nat → Item)
    (hfew : occupied m.data < 2 ^ 32) :
    hmLen m = (hmIter stray m).length ∧
      ∀ item, item ∈ hmIter stray m ↔ d item.key = some item.value := by
  rw [hmIter_eq_contents stray hfew]
  refine ⟨?_, h.mem_iff⟩
  rw [length_contents]
  exact h.sound.counted

end Represents

end CHomework.WordCounter
