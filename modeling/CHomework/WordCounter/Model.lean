import CHomework.Lib.Buffer
import CHomework.Lib.CellArray
import CHomework.Lib.CString

/-!
The open-addressing hash map of `hashmap.c`.
-/

namespace CHomework.WordCounter

open CHomework.Buffer
open CHomework.CellArray
open CHomework.CString

structure Item where
  key : CStr
  value : Int64
  deriving DecidableEq

/-- An item whose key is NULL is an empty cell. -/
structure HashMap where
  data : List (Option Item)
  numOfRecs : Nat
  size : Nat
  data_length : data.length = size
  size_pos : 0 < size
  deriving DecidableEq

def hmInit : HashMap where
  data := [none]
  numOfRecs := 0
  size := 1
  data_length := rfl
  size_pos := Nat.one_pos

def hmLen (m : HashMap) : Nat := m.numOfRecs

/-- One round of the loop of `hash`. The plain `char` is signed, so the byte
is sign-extended before it is added. -/
def hashStep (hash : UInt32) (byte : UInt8) : UInt32 :=
  let hash := hash + byte.toInt8.toInt32.toUInt32
  let hash := hash + (hash <<< 10)
  hash ^^^ (hash >>> 6)

def hash (val : CStr) : UInt32 :=
  let hash := val.bytes.foldl hashStep 0
  let hash := hash + (hash <<< 3)
  let hash := hash ^^^ (hash >>> 11)
  hash + (hash <<< 15)

namespace HashMap

def cell (m : HashMap) (i : Nat) : Option Item := CellArray.cell m.data i

def home (m : HashMap) (key : CStr) : Nat := (hash key).toNat % m.size

/-- `m->data[i] = item` together with the increment of the record counter. -/
def storeItem (m : HashMap) (i : Nat) (item : Item) : HashMap where
  data := m.data.set i (some item)
  numOfRecs := m.numOfRecs + 1
  size := m.size
  data_length := by rw [List.length_set, m.data_length]
  size_pos := m.size_pos

def updateValue (m : HashMap) (i : Nat) (value : Int64) : HashMap where
  data := m.data.modify i (Option.map fun item => { item with value := value })
  numOfRecs := m.numOfRecs
  size := m.size
  data_length := by rw [List.length_modify, m.data_length]
  size_pos := m.size_pos

/-- `m->data[i] = empty_item` together with the decrement of the record
counter. -/
def clearItem (m : HashMap) (i : Nat) : HashMap where
  data := m.data.set i none
  numOfRecs := m.numOfRecs - 1
  size := m.size
  data_length := by rw [List.length_set, m.data_length]
  size_pos := m.size_pos

/-- Double the size. The cells that `realloc` adds are taken as empty. -/
def grow (m : HashMap) : HashMap where
  data := realloc none (m.size * 2) m.data
  numOfRecs := m.numOfRecs
  size := m.size * 2
  data_length := length_realloc _ _ _
  size_pos := Nat.mul_pos m.size_pos Nat.two_pos

end HashMap

/-- The key test of `hm_set` and `hm_get`: `strncmp(stored, key, strlen(key)) == 0`. -/
def hits (key : CStr) (item : Item) : Bool :=
  strncmp item.key key (strlen key) == 0

/-- The loop of `hm_iter`. The array is extended by one cell a record, and the
offset is a 32-bit counter. -/
def hmIterLoop (stray : Nat → Item) :
    List (Option Item) → UInt32 → List Item → List Item
  | [], _, result => result
  | none :: cells, offset, result => hmIterLoop stray cells offset result
  | some item :: cells, offset, result =>
      let result := realloc (stray offset.toNat) (offset + 1).toNat result
      hmIterLoop stray cells (offset + 1) (result.set offset.toNat item)

/-- The array of records. `stray` is what memory holds where the program has
stored no record. -/
def hmIter (stray : Nat → Item) (m : HashMap) : List Item :=
  hmIterLoop stray m.data 0 []

/-- Insert the records of the old map into a fresh one. The assignment of the
new map to the parameter does not reach the caller, so `*old_map` stays what
it was. -/
def hmRebuild (set : HashMap → CStr → Int64 → Option HashMap) (stray : Nat → Item)
    (oldMap : HashMap) : Option HashMap := do
  let records := hmIter stray oldMap
  let _newMap ← (List.range (hmLen oldMap)).foldlM
    (fun newMap i =>
      let record := records.getD i (stray i)
      set newMap record.key record.value)
    hmInit
  return oldMap

/-- How the last loop of `hm_set` ends: at a cell whose key matches, or with
the value of `nearest_empty_cell`. -/
inductive ScanEnd where
  | found (i : Nat)
  | vacant (nearestEmptyCell : Nat)

def setScan (key : CStr) (hashVal : Nat) : List (Option Item) → Nat → Nat → ScanEnd
  | [], _, nearestEmptyCell => .vacant nearestEmptyCell
  | none :: cells, i, nearestEmptyCell =>
      setScan key hashVal cells (i + 1)
        (if nearestEmptyCell = 0 ∧ i > hashVal then i else nearestEmptyCell)
  | some item :: cells, i, nearestEmptyCell =>
      if hits key item then .found i
      else setScan key hashVal cells (i + 1) nearestEmptyCell

/-- `hm_set` with a bound on the depth of the recursion through `hm_rebuild`. -/
def hmSetFuel (stray : Nat → Item) : Nat → HashMap → CStr → Int64 → Option HashMap
  | 0, _, _, _ => none
  | fuel + 1, m, key, val =>
      let item : Item := { key := key, value := val }
      let hashVal := m.home key
      match m.cell hashVal with
      | none => some (m.storeItem hashVal item)
      | some current =>
          if hits key current then some (m.updateValue hashVal val)
          else if m.numOfRecs = m.size then do
            let grown ← hmRebuild (hmSetFuel stray fuel) stray m.grow
            hmSetFuel stray fuel grown key val
          else
            match setScan key hashVal m.data 0 0 with
            | .found i => some (m.updateValue i val)
            | .vacant nearestEmptyCell => some (m.storeItem nearestEmptyCell item)

/-- `hm_set`. The bound on the recursion is never reached. -/
def hmSet (stray : Nat → Item) (m : HashMap) (key : CStr) (val : Int64) : HashMap :=
  (hmSetFuel stray (m.numOfRecs + 2) m key val).getD m

def getScan (key : CStr) : List (Option Item) → Int64
  | [] => 0
  | none :: cells => getScan key cells
  | some item :: cells => if hits key item then item.value else getScan key cells

def hmGet (m : HashMap) (key : CStr) : Int64 :=
  match m.cell (m.home key) with
  | none => 0
  | some item => if hits key item then item.value else getScan key m.data

/-- The upward scan of `hm_del` from index `i`. It has no result when it
leaves the array or compares the NULL key of an empty cell. -/
def delScan (key : CStr) : List (Option Item) → Nat → Option Nat
  | [], _ => none
  | none :: _, _ => none
  | some item :: cells, i =>
      if strcmp item.key key ≠ 0 then delScan key cells (i + 1) else some i

def hmDel (m : HashMap) (key : CStr) : Option HashMap :=
  let hashVal := m.home key
  match m.cell hashVal with
  | none => none
  | some item =>
      if strcmp item.key key ≠ 0 then
        (delScan key (m.data.drop hashVal) hashVal).map m.clearItem
      else some (m.clearItem hashVal)

end CHomework.WordCounter
