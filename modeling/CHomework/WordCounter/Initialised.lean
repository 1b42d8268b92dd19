import CHomework.WordCounter.Memory
import CHomework.WordCounter.Search

namespace CHomework.WordCounter.Memory

open CHomework.Buffer
open CHomework.CellArray
open CHomework.CString

def ofMap (m : HashMap) : RawMap where
  data := m.data.map .known
  numOfRecs := m.numOfRecs
  size := m.size
  data_length := by rw [List.length_map, m.data_length]
  size_pos := m.size_pos

theorem RawMap.ext {m m' : RawMap} (hdata : m.data = m'.data)
    (hcount : m.numOfRecs = m'.numOfRecs) (hsize : m.size = m'.size) : m = m' := by
  cases m
  cases m'
  simp_all

variable (m : HashMap)

theorem readAt_ofMap {i : Nat} (hi : i < m.size) : (ofMap m).readAt i = .ok (m.cell i) := by
  have hlt : i < m.data.length := by rwa [m.data_length]
  rw [RawMap.readAt, ofMap, List.getD_eq_getElem?_getD, List.getElem?_map,
    HashMap.cell, CellArray.cell, List.getElem?_eq_getElem hlt]
  rfl

theorem storeItem_ofMap (i : Nat) (item : Item) :
    (ofMap m).storeItem i item = ofMap (m.storeItem i item) := by
  apply RawMap.ext
  · exact List.map_set.symm
  · rfl
  · rfl

theorem updateValue_ofMap (i : Nat) (value : Int64) :
    (ofMap m).updateValue i value = ofMap (m.updateValue i value) := by
  apply RawMap.ext
  · show (m.data.map Cell.known).modify i _ = (m.data.modify i _).map Cell.known
    apply List.ext_getElem?
    intro j
    rw [List.getElem?_modify, List.getElem?_map, List.getElem?_map, List.getElem?_modify]
    split
    · rcases m.data[j]? with _ | _
      · rfl
      · rfl
    · rcases m.data[j]? with _ | _
      · rfl
      · rfl
  · rfl
  · rfl

theorem getScan_known (key : CStr) (cells : List (Option Item)) :
    getScan key (cells.map .known) = .ok (WordCounter.getScan key cells) := by
  induction cells with
  | nil => rfl
  | cons c cells ih =>
      rcases c with _ | item
      · exact ih
      · rw [List.map_cons, getScan, WordCounter.getScan]
        show (if hits key item then _ else _) = _
        split
        · rfl
        · exact ih

theorem setScan_known (key : CStr) (hashVal : Nat) (cells : List (Option Item))
    (i nearest : Nat) :
    setScan key hashVal (cells.map .known) i nearest =
      .ok (WordCounter.setScan key hashVal cells i nearest) := by
  induction cells generalizing i nearest with
  | nil => rfl
  | cons c cells ih =>
      rcases c with _ | item
      · exact ih _ _
      · rw [List.map_cons, setScan, WordCounter.setScan]
        show (if hits key item then _ else _) = _
        split
        · rfl
        · exact ih _ _

theorem hmGet_ofMap (key : CStr) : hmGet (ofMap m) key = .ok (WordCounter.hmGet m key) := by
  have hread : (ofMap m).readAt ((ofMap m).home key) = .ok (m.cell (m.home key)) :=
    readAt_ofMap m (m.home_lt key)
  rw [hmGet, hread, WordCounter.hmGet]
  rcases m.cell (m.home key) with _ | item
  · rfl
  · show (if hits key item then _ else _) = _
    dsimp only
    split
    · rfl
    · exact getScan_known key m.data

/-- A call that does not grow the map does what it does on written cells. -/
theorem hmSet_ofMap {key : CStr} (h : ¬ m.Grows key) (val : Int64) :
    hmSet (ofMap m) key val = .ok (ofMap (m.put key val)) := by
  have hput := hmSetFuel_of_not_grows (fun _ => { key := key, value := val }) h 0 val
  have hread : (ofMap m).readAt ((ofMap m).home key) = .ok (m.cell (m.home key)) :=
    readAt_ofMap m (m.home_lt key)
  rw [hmSet, hmSetFuel, hread]
  rw [WordCounter.hmSetFuel] at hput
  rcases hcell : m.cell (m.home key) with _ | item
  · simp only [hcell, Option.some.injEq] at hput
    rw [← hput, ← storeItem_ofMap]
    rfl
  · simp only [hcell] at hput
    show (if hits key item then _ else _) = _
    split
    · rename_i hhit
      rw [if_pos hhit, Option.some.injEq] at hput
      rw [← hput, ← updateValue_ofMap]
      rfl
    · rename_i hhit
      have hfull : m.numOfRecs ≠ m.size := by
        intro hfull
        exact h ⟨hfull, by simpa [hcell] using hhit⟩
      have hscan : setScan key ((ofMap m).home key) (ofMap m).data 0 0 =
          .ok (WordCounter.setScan key (m.home key) m.data 0 0) := setScan_known _ _ _ _ _
      rw [if_neg hhit, if_neg hfull] at hput
      rw [if_neg (show ¬ (ofMap m).numOfRecs = (ofMap m).size from hfull), hscan]
      rcases hend : WordCounter.setScan key (m.home key) m.data 0 0 with i | nearest
      · rw [hend, Option.some.injEq] at hput
        rw [← hput, ← updateValue_ofMap]
        rfl
      · rw [hend, Option.some.injEq] at hput
        rw [← hput, ← storeItem_ofMap]
        rfl

/-- `hm_iter` reads every cell, so it meets an unknown one. -/
theorem hmIterLoop_unknown (cells : List (Option Item)) (rest : List Cell) (offset : UInt32)
    (result : List Cell) :
    hmIterLoop (cells.map .known ++ .unknown :: rest) offset result =
      .error .uninitialised := by
  induction cells generalizing offset result with
  | nil => rfl
  | cons c cells ih =>
      rcases c with _ | item
      · exact ih _ _
      · exact ih _ _

theorem hmIter_grow : hmIter (ofMap m).grow = .error .uninitialised := by
  obtain ⟨n, hn⟩ : ∃ n, m.size = n + 1 := ⟨m.size - 1, by have := m.size_pos; omega⟩
  have hlen : (m.data.map Cell.known).length = m.size := by
    rw [List.length_map, m.data_length]
  have hdata : (ofMap m).grow.data =
      m.data.map Cell.known ++ .unknown :: List.replicate n .unknown := by
    show realloc Cell.unknown (m.size * 2) (m.data.map Cell.known) = _
    rw [realloc_of_le _ (by omega), hlen, show m.size * 2 - m.size = n + 1 by omega]
    rfl
  rw [hmIter, hdata]
  exact hmIterLoop_unknown _ _ _ _

theorem hmSet_ofMap_of_grows {key : CStr} (h : m.Grows key) (val : Int64) :
    hmSet (ofMap m) key val = .error .uninitialised := by
  have hread : (ofMap m).readAt ((ofMap m).home key) = .ok (m.cell (m.home key)) :=
    readAt_ofMap m (m.home_lt key)
  obtain ⟨hfull, hmiss⟩ := h
  obtain ⟨item, hcell, hhit⟩ := (Option.any_eq_true _ _).mp hmiss
  rw [hmSet, hmSetFuel, hread, hcell]
  show (if hits key item then _ else _) = _
  rw [if_neg (by simpa using hhit), if_pos (show (ofMap m).numOfRecs = (ofMap m).size from hfull),
    hmRebuild, hmIter_grow]
  rfl

def setKeys (calls : List Call) : List CStr :=
  calls.filterMap fun
    | .set key _ => some key
    | .get _ => none

/-- Every key that is set later is a prefix of the key that is set first. -/
def KeysFit (calls : List Call) : Prop :=
  ∀ first later, setKeys calls = first :: later → ∀ key ∈ later, key.bytes <+: first.bytes

theorem setKeys_set (key : CStr) (val : Int64) (calls : List Call) :
    setKeys (.set key val :: calls) = key :: setKeys calls := rfl

theorem keysFit_set_iff (key : CStr) (val : Int64) (calls : List Call) :
    KeysFit (.set key val :: calls) ↔ ∀ key' ∈ setKeys calls, key'.bytes <+: key.bytes := by
  rw [KeysFit, setKeys_set]
  constructor
  · intro h
    exact h key _ rfl
  · rintro h first later hcons
    obtain ⟨rfl, rfl⟩ := List.cons_eq_cons.mp hcons
    exact h

/-- One cell, which is empty or holds a record with this key. -/
structure OneCell (first : Option CStr) (m : HashMap) : Prop where
  size_eq : m.size = 1
  count_eq : m.numOfRecs = first.toList.length
  key_eq : (m.cell 0).map Item.key = first

section OneCell

variable {m : HashMap} {first : CStr}

theorem OneCell.home_eq {first : Option CStr} (h : OneCell first m) (key : CStr) :
    m.home key = 0 := by
  have := m.home_lt key
  rw [h.size_eq] at this
  omega

theorem OneCell.grows_iff (h : OneCell (some first) m) (key : CStr) :
    m.Grows key ↔ ¬ key.bytes <+: first.bytes := by
  obtain ⟨item, hitem, rfl⟩ := Option.map_eq_some_iff.mp h.key_eq
  have hfull : m.numOfRecs = m.size := by rw [h.count_eq, h.size_eq]; rfl
  rw [HashMap.Grows, h.home_eq key, hitem, Option.any_some, ← hits_iff]
  simp [hfull]

theorem oneCell_hmInit : OneCell none WordCounter.hmInit := ⟨rfl, rfl, rfl⟩

/-- The first record goes into the only cell. -/
theorem OneCell.put_first (h : OneCell none m) (key : CStr) (val : Int64) :
    OneCell (some key) (m.put key val) := by
  have hempty : m.cell (m.home key) = none := by
    rw [h.home_eq key]
    exact Option.map_eq_none_iff.mp h.key_eq
  have hfind : m.find key = none := HashMap.find_eq_none_iff.mpr (Or.inl hempty)
  have hfree : m.freeCell key = 0 := by
    rw [HashMap.freeCell, if_pos hempty, h.home_eq key]
  have hcount := h.count_eq
  rw [HashMap.put_of_find_none hfind, hfree]
  refine ⟨h.size_eq, by rw [HashMap.numOfRecs_storeItem, hcount]; rfl, ?_⟩
  rw [HashMap.cell_storeItem m (by rw [h.size_eq]; exact Nat.one_pos), if_pos rfl]
  rfl

theorem OneCell.put_prefix (h : OneCell (some first) m) {key : CStr}
    (hkey : key.bytes <+: first.bytes) (val : Int64) :
    OneCell (some first) (m.put key val) := by
  obtain ⟨item, hitem, hfirst⟩ := Option.map_eq_some_iff.mp h.key_eq
  have hfind : m.find key = some 0 := by
    refine HashMap.find_eq_some_iff.mpr ⟨⟨item, hitem, hits_iff.mpr ?_⟩, Or.inl (h.home_eq key)⟩
    rwa [hfirst]
  rw [HashMap.put_of_find hfind]
  refine ⟨h.size_eq, h.count_eq, ?_⟩
  rw [HashMap.cell_updateValue, if_pos rfl, hitem, ← hfirst]
  rfl

theorem OneCell.not_grows (h : OneCell none m) (key : CStr) : ¬ m.Grows key := by
  rintro ⟨hfull, -⟩
  rw [h.count_eq, h.size_eq] at hfull
  cases hfull

/-- Behind the first record, a run uses written cells only as long as every key
it sets is a prefix of that record's key. -/
theorem OneCell.foldlM_step (h : OneCell (some first) m) (calls : List Call) :
    ((∀ key ∈ setKeys calls, key.bytes <+: first.bytes) →
      ∃ m', calls.foldlM step (ofMap m) = .ok (ofMap m')) ∧
    ((¬ ∀ key ∈ setKeys calls, key.bytes <+: first.bytes) →
      calls.foldlM step (ofMap m) = .error .uninitialised) := by
  induction calls generalizing m with
  | nil => exact ⟨fun _ => ⟨m, rfl⟩, fun hno => absurd (by simp [setKeys]) hno⟩
  | cons call calls ih =>
      rw [List.foldlM_cons]
      rcases call with ⟨key, val⟩ | key
      · rw [step, setKeys_set, List.forall_mem_cons]
        by_cases hkey : key.bytes <+: first.bytes
        · have hgrows : ¬ m.Grows key := by
            rw [h.grows_iff key]
            exact not_not.mpr hkey
          rw [hmSet_ofMap m hgrows]
          simp only [hkey, true_and]
          exact ih (h.put_prefix hkey val)
        · rw [hmSet_ofMap_of_grows m ((h.grows_iff key).mpr hkey)]
          exact ⟨fun hall => absurd hall.1 hkey, fun _ => rfl⟩
      · rw [step, hmGet_ofMap]
        exact ih h

theorem OneCell.foldlM_step_first (h : OneCell none m) (calls : List Call) :
    (KeysFit calls → ∃ m', calls.foldlM step (ofMap m) = .ok (ofMap m')) ∧
    (¬ KeysFit calls → calls.foldlM step (ofMap m) = .error .uninitialised) := by
  induction calls with
  | nil => exact ⟨fun _ => ⟨m, rfl⟩, fun hno => absurd (by simp [KeysFit, setKeys]) hno⟩
  | cons call calls ih =>
      rw [List.foldlM_cons]
      rcases call with ⟨key, val⟩ | key
      · rw [step, hmSet_ofMap m (h.not_grows key), keysFit_set_iff]
        exact (h.put_first key val).foldlM_step calls
      · rw [step, hmGet_ofMap]
        exact ih

end OneCell

/-- A run of `hm_set` and `hm_get` calls uses only cells that were written before
exactly when it never sets a key that is no prefix of its first one, and then all
its calls return. -/
theorem runCalls_initialised_iff (calls : List Call) :
    (runCalls calls ≠ .error .uninitialised ↔ KeysFit calls) ∧
      (KeysFit calls → ∃ m, runCalls calls = .ok (ofMap m)) := by
  obtain ⟨hok, herror⟩ := oneCell_hmInit.foldlM_step_first calls
  refine ⟨⟨fun hne => ?_, fun hfit => ?_⟩, hok⟩
  · by_contra hfit
    exact hne (herror hfit)
  · obtain ⟨m', hm'⟩ := hok hfit
    have hrun : runCalls calls = .ok (ofMap m') := hm'
    simp [hrun]

/-- The second key doubles the table, and `hm_iter` reads the cell that `realloc`
added. -/
theorem not_runCalls_initialised_of_growth :
    runCalls [.set (ofBuffer [97]) 1, .set (ofBuffer [98]) 1] = .error .uninitialised := rfl

end CHomework.WordCounter.Memory
