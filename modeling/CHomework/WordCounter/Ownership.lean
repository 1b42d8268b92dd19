import CHomework.Lib.Allocation
import CHomework.WordCounter.Records

/-!
Who owns the blocks the hash map allocates. Every cell holds the copy of a key, and
`hm_clear` frees what the cells hold at the end. The cells that `realloc` adds are taken
as empty here too.
-/

namespace CHomework.WordCounter

open CHomework.Allocation
open CHomework.Buffer
open CHomework.CellArray
open CHomework.CString
open CHomework.Runs

/-- `hm_set` puts its copy of the key into a cell that was empty. -/
def HashMap.StoresFree (m : HashMap) (key : CStr) : Prop :=
  ¬ m.Grows key ∧ m.find key = none ∧ m.cell (m.freeCell key) = none

namespace Ownership

/-- The map with the block of its data array and the blocks of the keys. -/
structure OwnedMap where
  map : HashMap
  data : Nat
  keys : List (Option Nat)
  keys_eq : keys.map Option.isSome = map.data.map Option.isSome

namespace OwnedMap

/-- What `hm_clear` frees. -/
def blocks (m : OwnedMap) : List Nat := m.data :: contents m.keys

def storeItem (m : OwnedMap) (i : Nat) (item : Item) (copy : Nat) : OwnedMap where
  map := m.map.storeItem i item
  data := m.data
  keys := m.keys.set i (some copy)
  keys_eq := by
    rw [HashMap.storeItem, List.map_set, List.map_set, m.keys_eq]
    rfl

def updateValue (m : OwnedMap) (i : Nat) (value : Int64) : OwnedMap where
  map := m.map.updateValue i value
  data := m.data
  keys := m.keys
  keys_eq := by
    rw [m.keys_eq]
    apply List.ext_getElem?
    intro j
    rw [HashMap.updateValue, List.getElem?_map, List.getElem?_map, List.getElem?_modify]
    rcases m.map.data[j]? with _ | c
    · rfl
    · split
      · simp
      · rfl

def clearItem (m : OwnedMap) (i : Nat) : OwnedMap where
  map := m.map.clearItem i
  data := m.data
  keys := m.keys.set i none
  keys_eq := by
    rw [HashMap.clearItem, List.map_set, List.map_set, m.keys_eq]
    rfl

def grow (m : OwnedMap) (data : Nat) : OwnedMap where
  map := m.map.grow
  data := data
  keys := realloc none (m.map.size * 2) m.keys
  keys_eq := by
    show (realloc none _ m.keys).map Option.isSome =
      (realloc none (m.map.size * 2) m.map.data).map Option.isSome
    rw [map_realloc, map_realloc, m.keys_eq]
    rfl

end OwnedMap

def hmInit (h : Heap) : OwnedMap × Heap :=
  let (data, h) := h.malloc
  ({ map := WordCounter.hmInit, data := data, keys := [none], keys_eq := rfl }, h)

/-- The array of records grows by one cell with each record. -/
def hmIterLoop : List (Option Item) → Nat → Heap → Option (Nat × Heap)
  | [], result, h => some (result, h)
  | none :: cells, result, h => hmIterLoop cells result h
  | some _ :: cells, result, h => do
      let (result, h) ← h.realloc result
      hmIterLoop cells result h

/-- The block of the array that `hm_iter` returns. -/
def hmIter (m : OwnedMap) (h : Heap) : Option (Nat × Heap) :=
  let (result, h) := h.malloc
  hmIterLoop m.map.data result h

/-- A round of the loop in `hm_rebuild`. A read behind the array has no result. -/
def insertRecord (set : OwnedMap → CStr → Int64 → Heap → Option (OwnedMap × Heap))
    (records : List Item) (newMap : OwnedMap × Heap) (i : Nat) : Option (OwnedMap × Heap) := do
  let record ← records[i]?
  set newMap.1 record.key record.value newMap.2

/-- Nothing frees the new map or the records. -/
def hmRebuild (set : OwnedMap → CStr → Int64 → Heap → Option (OwnedMap × Heap))
    (stray : Nat → Item) (oldMap : OwnedMap) (h : Heap) : Option (OwnedMap × Heap) := do
  let (newMap, h) := hmInit h
  let records := WordCounter.hmIter stray oldMap.map
  let (_, h) ← hmIter oldMap h
  let (_, h) ← (List.range (hmLen oldMap.map)).foldlM (insertRecord set records) (newMap, h)
  return (oldMap, h)

/-- `hm_set` with a bound on the depth of the recursion. The copy of the key is made
before it is known whether a cell takes it. -/
def hmSetFuel (stray : Nat → Item) :
    Nat → OwnedMap → CStr → Int64 → Heap → Option (OwnedMap × Heap)
  | 0, _, _, _, _ => none
  | fuel + 1, m, key, val, h =>
      let (copy, h) := h.malloc
      let item : Item := { key := key, value := val }
      let hashVal := m.map.home key
      match m.map.cell hashVal with
      | none => some (m.storeItem hashVal item copy, h)
      | some current =>
          if hits key current then some (m.updateValue hashVal val, h)
          else if m.map.numOfRecs = m.map.size then do
            let (data, h) ← h.realloc m.data
            let (grown, h) ← hmRebuild (hmSetFuel stray fuel) stray (m.grow data) h
            hmSetFuel stray fuel grown key val h
          else
            match setScan key hashVal m.map.data 0 0 with
            | .found i => some (m.updateValue i val, h)
            | .vacant nearestEmptyCell => some (m.storeItem nearestEmptyCell item copy, h)

def hmSet (stray : Nat → Item) (m : OwnedMap) (key : CStr) (val : Int64) (h : Heap) :
    Option (OwnedMap × Heap) :=
  hmSetFuel stray (m.map.numOfRecs + 2) m key val h

/-- `hm_del` empties the cell and does not free the key. -/
def hmDel (m : OwnedMap) (key : CStr) : Option OwnedMap :=
  let hashVal := m.map.home key
  match m.map.cell hashVal with
  | none => none
  | some item =>
      if strcmp item.key key ≠ 0 then
        (delScan key (m.map.data.drop hashVal) hashVal).map m.clearItem
      else some (m.clearItem hashVal)

/-- The loop of `hm_clear`. -/
def hmClearLoop : List (Option Nat) → Heap → Option Heap
  | [], h => some h
  | none :: cells, h => hmClearLoop cells h
  | some key :: cells, h => do
      let h ← h.free key
      hmClearLoop cells h

def hmClear (m : OwnedMap) (h : Heap) : Option Heap := do
  let h ← hmClearLoop m.keys h
  h.free m.data

def step (stray : Nat → Item) (s : OwnedMap × Heap) : Op → Option (OwnedMap × Heap)
  | .set key val => hmSet stray s.1 key val s.2
  | .del key => if s.1.map.Stored key then (hmDel s.1 key).map (·, s.2) else none

section Blocks

variable {m : OwnedMap} {h : Heap}

theorem isSome_cell_keys (m : OwnedMap) (i : Nat) :
    (CellArray.cell m.keys i).isSome = (m.map.cell i).isSome := by
  have hcell : (m.keys.map Option.isSome)[i]? = (m.map.data.map Option.isSome)[i]? := by
    rw [m.keys_eq]
  rw [List.getElem?_map, List.getElem?_map] at hcell
  rw [HashMap.cell, CellArray.cell, CellArray.cell]
  rcases hkey : m.keys[i]? with _ | c
  · rcases hitem : m.map.data[i]? with _ | d
    · rfl
    · simp [hkey, hitem] at hcell
  · rcases hitem : m.map.data[i]? with _ | d
    · simp [hkey, hitem] at hcell
    · simpa [hkey, hitem] using hcell

theorem length_keys (m : OwnedMap) : m.keys.length = m.map.size := by
  rw [← m.map.data_length]
  simpa using congrArg List.length m.keys_eq

theorem blocks_storeItem_of_empty {i : Nat} (hi : i < m.map.size)
    (hempty : m.map.cell i = none) (item : Item) (copy : Nat) :
    (m.storeItem i item copy).blocks.Perm (copy :: m.blocks) := by
  have hkey : CellArray.cell m.keys i = none := by
    simpa [hempty] using isSome_cell_keys m i
  have hperm := contents_set_some_perm copy (by rwa [length_keys]) hkey
  exact (hperm.cons m.data).trans (List.Perm.swap copy m.data _)

/-- The copy of the key takes the place of the one that was in the cell. -/
theorem blocks_storeItem_of_full {i : Nat} {item : Item} (hfull : m.map.cell i = some item)
    (item' : Item) (copy : Nat) :
    ∃ key others, m.blocks.Perm (key :: others) ∧
      (m.storeItem i item' copy).blocks.Perm (copy :: others) := by
  obtain ⟨key, hkey⟩ : ∃ key, CellArray.cell m.keys i = some key := by
    apply Option.isSome_iff_exists.mp
    rw [isSome_cell_keys, hfull]
    rfl
  have hi := lt_length_of_cell hkey
  have hnew : CellArray.cell (m.keys.set i (some copy)) i = some copy :=
    cell_set_self _ _ hi
  refine ⟨key, m.data :: contents (m.keys.set i none), ?_, ?_⟩
  · exact ((contents_perm_cons hkey).cons m.data).trans (List.Perm.swap key m.data _)
  · have hperm := contents_perm_cons hnew
    rw [List.set_set] at hperm
    exact (hperm.cons m.data).trans (List.Perm.swap copy m.data _)

theorem blocks_clearItem {i : Nat} {item : Item} (hfull : m.map.cell i = some item) :
    ∃ key, m.blocks.Perm (key :: (m.clearItem i).blocks) := by
  obtain ⟨key, hkey⟩ : ∃ key, CellArray.cell m.keys i = some key := by
    apply Option.isSome_iff_exists.mp
    rw [isSome_cell_keys, hfull]
    rfl
  exact ⟨key, ((contents_perm_cons hkey).cons m.data).trans (List.Perm.swap key m.data _)⟩

theorem blocks_grow (m : OwnedMap) (data : Nat) :
    (m.grow data).blocks = data :: contents m.keys := by
  have hle : m.keys.length ≤ m.map.size * 2 := by
    rw [length_keys]
    omega
  show data :: contents (realloc none (m.map.size * 2) m.keys) = _
  rw [realloc_of_le none hle, contents_append_replicate_none]

end Blocks

namespace OwnedMap

/-- `hm_set` without its growth branch. The copy of the key has been made. -/
def put (m : OwnedMap) (key : CStr) (val : Int64) (copy : Nat) : OwnedMap :=
  match m.map.find key with
  | some i => m.updateValue i val
  | none => m.storeItem (m.map.freeCell key) { key := key, value := val } copy

theorem map_put (m : OwnedMap) (key : CStr) (val : Int64) (copy : Nat) :
    (m.put key val copy).map = m.map.put key val := by
  rw [put, HashMap.put]
  rcases m.map.find key with _ | i
  · rfl
  · rfl

end OwnedMap

section Set

variable {stray : Nat → Item} {m : OwnedMap} {key : CStr} {h : Heap}

theorem hmSetFuel_of_not_grows (hgrows : ¬ m.map.Grows key) (fuel : Nat) (val : Int64) (h : Heap) :
    hmSetFuel stray (fuel + 1) m key val h =
      some (m.put key val h.malloc.1, h.malloc.2) := by
  rw [hmSetFuel, OwnedMap.put, HashMap.find_eq]
  rcases hhome : m.map.cell (m.map.home key) with _ | item
  · simp [HashMap.freeCell, hhome]
  · by_cases hhit : hits key item = true
    · simp only [hhome, if_pos hhit]
    · have hfull : m.map.numOfRecs ≠ m.map.size := by
        intro hfull
        exact hgrows ⟨hfull, by simpa [hhome] using hhit⟩
      simp only [hhome, if_neg hhit, if_neg hfull]
      rcases hscan : firstHit (hits key) m.map.data with _ | i
      · rw [setScan_of_firstHit_none hscan]
        simp [HashMap.freeCell, hhome, firstEmptyAbove]
      · rw [setScan_of_firstHit hscan, Nat.zero_add]

theorem hmSetFuel_of_grows (hgrows : m.map.Grows key) (fuel : Nat) (val : Int64) (h : Heap) :
    hmSetFuel stray (fuel + 1) m key val h =
      (h.malloc.2.realloc m.data).bind fun (data, h) =>
        (hmRebuild (hmSetFuel stray fuel) stray (m.grow data) h).bind fun (grown, h) =>
          hmSetFuel stray fuel grown key val h := by
  obtain ⟨hfull, hmiss⟩ := hgrows
  obtain ⟨item, hhome, hhit⟩ := (Option.any_eq_true _ _).mp hmiss
  have hhit' : hits key item = false := by simpa using hhit
  rw [hmSetFuel]
  simp only [hhome, hhit', hfull, Bool.false_eq_true, if_false, if_true]
  rfl

/-- The insertion or update keeps what the map owns in order. Its copy of the key is
in a cell afterwards, or nobody has it, and a copy that it takes the cell from is
lost. -/
theorem keeps_put (hown : Owns h m.blocks) (key : CStr) (val : Int64) :
    Keeps h m.blocks h.malloc.2 (m.put key val h.malloc.1).blocks ∧
      (h.malloc.2.rest (m.put key val h.malloc.1).blocks = h.rest m.blocks ↔
        m.map.find key = none ∧ m.map.cell (m.map.freeCell key) = none) := by
  have hcopy := hown.malloc
  rw [OwnedMap.put]
  rcases hfind : m.map.find key with _ | i
  · rcases hcell : m.map.cell (m.map.freeCell key) with _ | item
    · -- the cell is empty and takes the copy
      have hperm := (blocks_storeItem_of_empty (HashMap.freeCell_lt key) hcell
        { key := key, value := val } h.malloc.1).symm
      have hrest := (Heap.rest_perm (h := h.malloc.2) hperm).symm.trans (h.rest_malloc m.blocks)
      exact ⟨⟨hcopy.perm hperm, hrest.superset⟩, by simpa using hrest⟩
    · -- the record in the cell is overwritten, and its key is lost
      obtain ⟨lost, others, hold, hnew⟩ := blocks_storeItem_of_full hcell
        { key := key, value := val } h.malloc.1
      have hown' := hown.perm hold
      have hrest := (Heap.rest_perm (h := h.malloc.2) hnew).trans (h.rest_malloc others)
      have hlost := hown'.rest_ssubset
      rw [← Heap.rest_perm hold, ← hrest] at hlost
      exact ⟨⟨hown'.forget.malloc.perm hnew.symm, hlost.subset⟩, by simpa using hlost.ne'⟩
  · -- the record is updated, and the copy of its key is lost
    have hlost := hcopy.rest_ssubset
    rw [h.rest_malloc m.blocks] at hlost
    refine ⟨⟨hcopy.forget, hlost.subset⟩, ?_⟩
    simpa using show h.malloc.2.rest (m.updateValue i val).blocks ≠ _ from hlost.ne'

/-- The array of records is a block of its own. -/
theorem hmIterLoop_spec (cells : List (Option Item)) {result : Nat} {owned : List Nat}
    (hown : Owns h (result :: owned)) :
    ∃ result' h', hmIterLoop cells result h = some (result', h') ∧
      Owns h' (result' :: owned) ∧ h'.rest (result' :: owned) = h.rest (result :: owned) := by
  induction cells generalizing h result with
  | nil => exact ⟨result, h, rfl, hown, rfl⟩
  | cons c cells ih =>
      rcases c with _ | item
      · exact ih hown
      · obtain ⟨result₁, h₁, hrealloc, hown₁, hrest₁⟩ := hown.realloc
        obtain ⟨result', h', hloop, hown', hrest'⟩ := ih hown₁
        refine ⟨result', h', ?_, hown', hrest'.trans hrest₁⟩
        rw [hmIterLoop, hrealloc]
        exact hloop

theorem hmIter_spec (m : OwnedMap) {owned : List Nat} (hown : Owns h owned) :
    ∃ result h', hmIter m h = some (result, h') ∧ Owns h' (result :: owned) ∧
      h'.rest (result :: owned) = h.rest owned := by
  obtain ⟨result, h', hloop, hown', hrest⟩ := hmIterLoop_spec m.map.data hown.malloc
  exact ⟨result, h', hloop, hown', hrest.trans (h.rest_malloc owned)⟩

/-- The map with its blocks behind a map of the plain model, in a program that started
with the blocks `h₀` and owned none of them. -/
def Tracks (h₀ : Heap) (plain : HashMap) (s : OwnedMap × Heap) : Prop :=
  s.1.map = plain ∧ Keeps h₀ [] s.2 s.1.blocks

theorem tracks_hmInit (h : Heap) : Tracks h WordCounter.hmInit (hmInit h) :=
  ⟨rfl, Keeps.malloc (owns_nil h)⟩

/-- A call that stays inside does what the insertion of the plain model does, and keeps what
the map owns in order. -/
def Refines (stray : Nat → Item) (fuel : Nat) : Prop :=
  ∀ m key val h map', Owns h m.blocks →
    WordCounter.hmSetFuel stray fuel m.map key val = some map' →
    ((hmSetFuel stray fuel m key val h).isSome ↔
      SetCall.StaysInside stray { map := m.map, key := key, val := val }) ∧
    ∀ s, hmSetFuel stray fuel m key val h = some s →
      s.1.map = map' ∧ Keeps h m.blocks s.2 s.1.blocks

/-- The induction is on the rounds of the loop. -/
theorem insertRecord_spec {fuel : Nat} (hset : Refines stray fuel) (oldMap : HashMap)
    {h₀ : Heap} {s : OwnedMap × Heap} (htracks : Tracks h₀ WordCounter.hmInit s) {k : Nat}
    (hk : k ≤ hmLen oldMap) {newMap : HashMap}
    (hplain : run (fun newMap i => WordCounter.hmSetFuel stray fuel newMap
        ((WordCounter.hmIter stray oldMap).getD i (stray i)).key
        ((WordCounter.hmIter stray oldMap).getD i (stray i)).value) WordCounter.hmInit
          (List.range k) = some newMap) :
    Rebuilds stray oldMap k newMap ∧
      ((run (insertRecord (hmSetFuel stray fuel) (WordCounter.hmIter stray oldMap)) s
        (List.range k)).isSome ↔ InsertsInside stray oldMap k) ∧
      ∀ s', run (insertRecord (hmSetFuel stray fuel) (WordCounter.hmIter stray oldMap)) s
        (List.range k) = some s' → Tracks h₀ newMap s' := by
  induction k generalizing newMap with
  | zero =>
      obtain rfl : WordCounter.hmInit = newMap := Option.some.inj hplain
      refine ⟨.init, iff_of_true rfl ⟨Nat.zero_le _, by simp⟩, fun s' hs' => ?_⟩
      exact Option.some.inj hs' ▸ htracks
  | succ k ih =>
      rw [List.range_succ, run_snoc] at hplain ⊢
      obtain ⟨newMap₁, hplain₁, hlast⟩ := Option.bind_eq_some_iff.mp hplain
      obtain ⟨hrebuilds, hiff, htracks₁⟩ := ih (Nat.le_of_succ_le hk) hplain₁
      refine ⟨.next hrebuilds hk ⟨fuel, hlast⟩, ?_⟩
      rw [insertsInside_succ_iff hrebuilds, ← hiff]
      rcases hloop : run _ s (List.range k) with _ | s₁
      · simp
      obtain ⟨rfl, hkeeps⟩ := htracks₁ s₁ hloop
      simp only [Option.bind_some, insertRecord, Option.isSome_some, true_and,
        Option.bind_eq_bind]
      rcases hrecord : (WordCounter.hmIter stray oldMap)[k]? with _ | record
      · have hout := List.getElem?_eq_none_iff.mp hrecord
        simp [Nat.not_lt.mpr hout]
      have hlt := (List.getElem?_eq_some_iff.mp hrecord).1
      have hget : (WordCounter.hmIter stray oldMap).getD k (stray k) = record := by
        rw [List.getD_eq_getElem?_getD, hrecord, Option.getD_some]
      rw [hget] at hlast
      obtain ⟨hsome, hsteps⟩ := hset _ _ _ _ _ hkeeps.owns hlast
      rw [Option.bind_some, hsome, and_iff_right hlt, insertion, hget]
      refine ⟨Iff.rfl, fun s' hs' => ?_⟩
      obtain ⟨hmap, hkeeps'⟩ := hsteps s' hs'
      exact ⟨hmap, hkeeps.trans hkeeps'⟩

theorem hmRebuild_spec {fuel : Nat} (hset : Refines stray fuel) (hown : Owns h m.blocks)
    {grown : HashMap}
    (hplain : WordCounter.hmRebuild (WordCounter.hmSetFuel stray fuel) stray m.map =
      some grown) :
    ((hmRebuild (hmSetFuel stray fuel) stray m h).isSome ↔
      InsertsInside stray m.map (hmLen m.map)) ∧
    ∀ s, hmRebuild (hmSetFuel stray fuel) stray m h = some s →
      s.1 = m ∧ Keeps h m.blocks s.2 m.blocks := by
  obtain ⟨newMap, hinsert, -⟩ := Option.bind_eq_some_iff.mp hplain
  obtain ⟨-, hinit⟩ := tracks_hmInit h
  obtain ⟨result, h₁, hiter, hown₁, hrest₁⟩ := hmIter_spec m hinit.owns
  have hkeeps₁ : Keeps h [] h₁ (hmInit h).1.blocks :=
    hinit.trans ⟨hown₁.forget, hrest₁.superset.trans (rest_cons_subset _ _ _)⟩
  have htracks : Tracks h WordCounter.hmInit ((hmInit h).1, h₁) := ⟨rfl, hkeeps₁⟩
  obtain ⟨-, hiff, htracks'⟩ := insertRecord_spec hset m.map htracks (Nat.le_refl _) hinsert
  have hrebuild : hmRebuild (hmSetFuel stray fuel) stray m h =
      (run (insertRecord (hmSetFuel stray fuel) (WordCounter.hmIter stray m.map))
        ((hmInit h).1, h₁) (List.range (hmLen m.map))).map fun s => (m, s.2) := by
    simp only [hmRebuild, hiter, Option.bind_eq_bind, Option.bind_some, Option.map_eq_bind]
    rfl
  rw [hrebuild, Option.isSome_map]
  refine ⟨hiff, fun s hs => ?_⟩
  obtain ⟨s', hs', rfl⟩ := Option.map_eq_some_iff.mp hs
  exact ⟨rfl, (htracks' s' hs').2.frame hown⟩

/-- By induction on the depth of the recursion. Growing loses at least the copy of the
key that was made before. -/
theorem hmSetFuel_spec (stray : Nat → Item) (fuel : Nat) {m : OwnedMap} {key : CStr}
    {val : Int64} {h : Heap} {map' : HashMap} (hown : Owns h m.blocks)
    (hplain : WordCounter.hmSetFuel stray fuel m.map key val = some map') :
    ((hmSetFuel stray fuel m key val h).isSome ↔
      SetCall.StaysInside stray { map := m.map, key := key, val := val }) ∧
    ∀ s, hmSetFuel stray fuel m key val h = some s →
      s.1.map = map' ∧ Keeps h m.blocks s.2 s.1.blocks ∧
      (s.2.rest s.1.blocks = h.rest m.blocks ↔ m.map.StoresFree key) := by
  induction fuel generalizing m key val h map' with
  | zero => cases hplain
  | succ fuel ih =>
      by_cases hgrows : m.map.Grows key
      · have hset : Refines stray fuel := by
          intro m key val h map' hown hplain
          obtain ⟨hsome, hsteps⟩ := ih hown hplain
          exact ⟨hsome, fun s hs => ⟨(hsteps s hs).1, (hsteps s hs).2.1⟩⟩
        rw [WordCounter.hmSetFuel_of_grows stray hgrows, Option.bind_eq_some_iff] at hplain
        obtain ⟨grown, hrebuild, hagain⟩ := hplain
        obtain rfl := eq_of_hmRebuild hrebuild
        have hcopy := hown.malloc
        obtain ⟨data, h₂, hrealloc, hown₂, hrest₂⟩ := hcopy.forget.realloc
        rw [← blocks_grow] at hown₂ hrest₂
        obtain ⟨hinserts, hsteps⟩ := hmRebuild_spec hset hown₂ hrebuild
        rw [show (m.grow data).map = m.map.grow from rfl] at hinserts
        have hnot : ¬ (m.grow data).map.Grows key := HashMap.not_grows_grow hgrows key
        rw [hmSetFuel_of_grows hgrows, hrealloc, Option.bind_some,
          staysInside_iff_of_grows (c := { map := m.map, key := key, val := val }) hgrows]
        dsimp only
        rw [← hinserts]
        rcases hgrown : hmRebuild (hmSetFuel stray fuel) stray (m.grow data) h₂ with
          _ | ⟨grown, h₃⟩
        · simp
        obtain ⟨rfl, hkeeps₃⟩ := hsteps _ hgrown
        obtain ⟨hsome, hlast⟩ := ih hkeeps₃.owns hagain
        rw [Option.bind_some]
        refine ⟨hsome.trans (iff_of_true (staysInside_of_not_grows hnot) rfl), fun s hs => ?_⟩
        obtain ⟨hmap, hkeeps', -⟩ := hlast s hs
        have hrest : h.malloc.2.rest m.blocks ⊆ s.2.rest s.1.blocks :=
          hrest₂.superset.trans (hkeeps₃.trans hkeeps').rest_subset
        have hlost := hcopy.rest_ssubset
        rw [h.rest_malloc m.blocks] at hlost
        refine ⟨hmap, ⟨hkeeps'.owns, hlost.subset.trans hrest⟩, ?_⟩
        exact iff_of_false (hlost.trans_subset hrest).ne' fun hfree => hfree.1 hgrows
      · rw [WordCounter.hmSetFuel_of_not_grows stray hgrows, Option.some.injEq] at hplain
        obtain ⟨hkeeps, hrest⟩ := keeps_put hown key val
        rw [hmSetFuel_of_not_grows hgrows fuel val h]
        refine ⟨iff_of_true rfl (staysInside_of_not_grows hgrows), ?_⟩
        rintro s ⟨⟩
        exact ⟨by rw [OwnedMap.map_put, hplain], hkeeps,
          by rw [hrest, HashMap.StoresFree, and_iff_right hgrows]⟩

theorem hmSet_spec (stray : Nat → Item) (hown : Owns h m.blocks) (key : CStr) (val : Int64) :
    ((hmSet stray m key val h).isSome ↔
      SetCall.StaysInside stray { map := m.map, key := key, val := val }) ∧
    ∀ s, hmSet stray m key val h = some s →
      s.1.map = WordCounter.hmSet stray m.map key val ∧ Keeps h m.blocks s.2 s.1.blocks ∧
      (s.2.rest s.1.blocks = h.rest m.blocks ↔ m.map.StoresFree key) := by
  obtain ⟨map', hplain, -⟩ := hmSetFuel_eq_some stray (m.map.numOfRecs + 2) m.map key val
    (by omega)
  rw [WordCounter.hmSet, hplain]
  exact hmSetFuel_spec stray _ hown hplain

end Set

section Del

variable {m : OwnedMap} {key : CStr} {h : Heap}

/-- `hm_del` loses the key that was in the cell. -/
theorem hmDel_spec (hown : Owns h m.blocks) {map' : HashMap}
    (hplain : WordCounter.hmDel m.map key = some map') :
    ∃ m', hmDel m key = some m' ∧ m'.map = map' ∧ Owns h m'.blocks ∧
      h.rest m.blocks ⊂ h.rest m'.blocks := by
  obtain ⟨i, item, rfl, hitem, -⟩ := hmDel_cases hplain
  obtain ⟨t, hplain', hdel⟩ : ∃ t : Option Nat,
      WordCounter.hmDel m.map key = t.map m.map.clearItem ∧ hmDel m key = t.map m.clearItem := by
    rw [WordCounter.hmDel, hmDel]
    rcases m.map.cell (m.map.home key) with _ | first
    · exact ⟨none, rfl, rfl⟩
    · dsimp only
      split
      · exact ⟨_, rfl, rfl⟩
      · exact ⟨some (m.map.home key), rfl, rfl⟩
  rw [hplain', Option.map_eq_some_iff] at hplain
  obtain ⟨j, rfl, hclear⟩ := hplain
  obtain rfl : j = i := by
    by_contra hne
    have hcell : (m.map.clearItem j).cell i = (m.map.clearItem i).cell i := by rw [hclear]
    rw [HashMap.cell_clearItem _ (HashMap.lt_size_of_cell hitem), if_pos rfl] at hcell
    have hkept : (m.map.clearItem j).cell i = m.map.cell i := cell_set_of_ne _ _ hne
    rw [hkept, hitem] at hcell
    cases hcell
  obtain ⟨lost, hperm⟩ := blocks_clearItem hitem
  have hown' := hown.perm hperm
  refine ⟨m.clearItem j, hdel, rfl, hown'.forget, ?_⟩
  rw [Heap.rest_perm hperm]
  exact hown'.rest_ssubset

theorem hmClearLoop_eq (cells : List (Option Nat)) (h : Heap) :
    hmClearLoop cells h = h.freeAll (contents cells) := by
  induction cells generalizing h with
  | nil => rfl
  | cons c cells ih =>
      rcases c with _ | key
      · exact ih h
      · show (h.free key).bind _ = (h.free key).bind _
        congr 1
        funext h'
        exact ih h'

/-- `hm_clear` frees every block of the map exactly once. -/
theorem hmClear_spec (hown : Owns h m.blocks) :
    ∃ h', hmClear m h = some h' ∧ h'.live = h.rest m.blocks := by
  have hperm : m.blocks.Perm (contents m.keys ++ [m.data]) :=
    (List.perm_append_singleton m.data (contents m.keys)).symm
  obtain ⟨h', hfree, hlive⟩ := (hown.perm hperm).freeAll
  refine ⟨h', ?_, by rw [hlive, ← Heap.rest_perm hperm]⟩
  rw [hmClear, hmClearLoop_eq]
  simpa only [Heap.freeAll, List.foldlM_append, List.foldlM_cons, List.foldlM_nil,
    bind_pure] using hfree

end Del

/-- The call loses a block: `hm_del` the key of the cell, `hm_set` the copy it made, the
key it overwrites, or all that `hm_rebuild` leaves behind. -/
def Leaks (m : HashMap) : Op → Prop
  | .set key _ => ¬ m.StoresFree key
  | .del _ => True

section Run

variable {stray : Nat → Item}

theorem Tracks.step {h₀ : Heap} {m m' : HashMap} {s : OwnedMap × Heap} {op : Op}
    (htracks : Tracks h₀ m s) (hstep : WordCounter.step stray m op = some m') :
    ((Ownership.step stray s op).isSome ↔ op.StaysInside stray m) ∧
    ∀ s', Ownership.step stray s op = some s' → Tracks h₀ m' s' ∧
      s.2.rest s.1.blocks ⊆ s'.2.rest s'.1.blocks ∧
      (s'.2.rest s'.1.blocks = s.2.rest s.1.blocks ↔ ¬ Leaks m op) := by
  obtain ⟨rfl, hkeeps⟩ := htracks
  rcases op with ⟨key, val⟩ | key
  · obtain ⟨hsome, hset⟩ := hmSet_spec stray hkeeps.owns key val
    obtain rfl : WordCounter.hmSet stray s.1.map key val = m' := by
      simpa [WordCounter.step] using hstep
    refine ⟨hsome, fun s' hs' => ?_⟩
    obtain ⟨hmap, hkeeps', hrest⟩ := hset s' hs'
    refine ⟨⟨hmap, hkeeps.trans hkeeps'⟩, hkeeps'.rest_subset, ?_⟩
    rw [hrest, Leaks, not_not]
  · simp only [WordCounter.step, Option.ite_none_right_eq_some] at hstep
    obtain ⟨hstored, hdel⟩ := hstep
    obtain ⟨owned, hdel', hmap, hown, hlost⟩ := hmDel_spec hkeeps.owns hdel
    have hown' : Ownership.step stray s (.del key) = some (owned, s.2) := by
      rw [Ownership.step, if_pos hstored, hdel']
      rfl
    rw [hown']
    refine ⟨iff_of_true rfl trivial, ?_⟩
    rintro s' ⟨⟩
    exact ⟨⟨hmap, hown, hkeeps.rest_subset.trans hlost.subset⟩, hlost.subset,
      iff_of_false hlost.ne' (not_not.mpr trivial)⟩

/-- A run with the blocks gets to its end exactly if its calls stay inside the arrays. -/
theorem run_isSome_iff {h₀ : Heap} {m m' : HashMap} {s : OwnedMap × Heap} {ops : List Op}
    (htracks : Tracks h₀ m s) (hrun : run (WordCounter.step stray) m ops = some m') :
    ((run (Ownership.step stray) s ops).isSome ↔
      GuardedRun (WordCounter.step stray) (fun m op => op.StaysInside stray m) m ops m') ∧
    ∀ s', run (Ownership.step stray) s ops = some s' → Tracks h₀ m' s' :=
  isSome_run_iff_guardedRun
    (fun _ _ _ _ htracks hstep => ⟨(htracks.step hstep).1, fun s' hs' =>
      ((htracks.step hstep).2 s' hs').1⟩) htracks hrun

/-- What is lost stays lost, so a run loses nothing exactly if none of its calls does. -/
theorem rest_run_eq_iff {h₀ : Heap} {m m' : HashMap} {s s' : OwnedMap × Heap} {ops : List Op}
    (htracks : Tracks h₀ m s) (hrun : run (WordCounter.step stray) m ops = some m')
    (hblocks : run (Ownership.step stray) s ops = some s') :
    s.2.rest s.1.blocks ⊆ s'.2.rest s'.1.blocks ∧
      (s'.2.rest s'.1.blocks = s.2.rest s.1.blocks ↔
        GuardedRun (WordCounter.step stray) (fun m op => ¬ Leaks m op) m ops m') := by
  induction ops using List.reverseRecOn generalizing m' s' with
  | nil =>
      obtain rfl : m = m' := by simpa using hrun
      obtain rfl : s = s' := by simpa using hblocks
      exact ⟨Finset.Subset.refl _, iff_of_true rfl .nil⟩
  | append_singleton ops op ih =>
      obtain ⟨m₁, hrun₁, hstep⟩ := (run_snoc_eq_some_iff _).mp hrun
      obtain ⟨s₁, hblocks₁, hstep₁⟩ := (run_snoc_eq_some_iff _).mp hblocks
      obtain ⟨hsub, hiff⟩ := ih hrun₁ hblocks₁
      have htracks₁ := (run_isSome_iff htracks hrun₁).2 s₁ hblocks₁
      obtain ⟨-, hsub', hiff'⟩ := (htracks₁.step hstep).2 s' hstep₁
      refine ⟨hsub.trans hsub', ?_⟩
      rw [GuardedRun.snoc_iff_of_run hrun₁ hstep]
      constructor
      · intro heq
        have heq₁ : s₁.2.rest s₁.1.blocks = s.2.rest s.1.blocks :=
          (hsub'.trans heq.subset).antisymm hsub
        exact ⟨hiff.mp heq₁, hiff'.mp (heq.trans heq₁.symm)⟩
      · rintro ⟨hguarded, hsafe⟩
        exact (hiff'.mpr hsafe).trans (hiff.mpr hguarded)

theorem storesFree_hmInit (key : CStr) : WordCounter.hmInit.StoresFree key := by
  have hempty : WordCounter.hmInit.cell (WordCounter.hmInit.home key) = none := cell_hmInit _
  refine ⟨?_, HashMap.find_eq_none_iff.mpr (Or.inl hempty), cell_hmInit _⟩
  rintro ⟨-, hmiss⟩
  simp [hempty] at hmiss

/-- Behind the first record there is no empty cell, and the next call loses a block. -/
theorem leaks_hmSet_hmInit (stray : Nat → Item) (key : CStr) (val : Int64) (op : Op) :
    Leaks (WordCounter.hmSet stray WordCounter.hmInit key val) op := by
  rcases op with ⟨key', val'⟩ | key'
  · obtain ⟨hgrows, hfind, -⟩ := storesFree_hmInit key
    have hfirst : WordCounter.hmInit.freeCell key = 0 :=
      Nat.lt_one_iff.mp (HashMap.freeCell_lt key)
    rw [hmSet_of_not_grows stray hgrows]
    rintro ⟨-, -, hempty⟩
    have hnext : (WordCounter.hmInit.put key val).freeCell key' = 0 := by
      have hlt := HashMap.freeCell_lt (m := WordCounter.hmInit.put key val) key'
      rw [HashMap.put_of_find_none hfind] at hlt ⊢
      exact Nat.lt_one_iff.mp hlt
    rw [hnext, HashMap.cell_put_of_find_none hfind, if_pos hfirst] at hempty
    cases hempty
  · trivial

theorem guardedRun_not_leaks_iff {ops : List Op} {m : HashMap}
    (hrun : run (WordCounter.step stray) WordCounter.hmInit ops = some m) :
    GuardedRun (WordCounter.step stray) (fun m op => ¬ Leaks m op) WordCounter.hmInit ops m ↔
      ops.length ≤ 1 := by
  constructor
  · intro hguarded
    have hshape : (ops = [] ∧ m = WordCounter.hmInit) ∨ ops.length = 1 ∧ ∀ op, Leaks m op := by
      clear hrun
      induction hguarded with
      | nil => exact Or.inl ⟨rfl, rfl⟩
      | @snoc ops t t' op _ hsafe hstep ih =>
          rcases ih with ⟨rfl, rfl⟩ | ⟨-, hall⟩
          · refine Or.inr ⟨rfl, ?_⟩
            rcases op with ⟨key, val⟩ | key
            · obtain rfl : WordCounter.hmSet stray WordCounter.hmInit key val = t' := by
                simpa [WordCounter.step] using hstep
              exact leaks_hmSet_hmInit stray key val
            · exact absurd trivial hsafe
          · exact absurd (hall op) hsafe
    rcases hshape with ⟨rfl, -⟩ | ⟨hone, -⟩
    · exact Nat.zero_le 1
    · exact hone.le
  · intro hle
    rcases ops with _ | ⟨op, _ | ⟨op', ops⟩⟩
    · obtain rfl : WordCounter.hmInit = m := by simpa using hrun
      exact .nil
    · have hstep : WordCounter.step stray WordCounter.hmInit op = some m := by
        simpa [run] using hrun
      refine GuardedRun.snoc .nil ?_ hstep
      rcases op with ⟨key, val⟩ | key
      · exact not_not.mpr (storesFree_hmInit key)
      · obtain ⟨i, item, -, hitem, -⟩ := step_del_cases hstep
        rw [cell_hmInit] at hitem
        cases hitem
    · simp at hle

end Run

end Ownership

end CHomework.WordCounter
