import CHomework.WordCounter.Model

/-!
The hash map in memory whose cells may never have been written. `calloc` gives
empty cells and `realloc` adds cells of unknown content, whose use is a fault.
-/

namespace CHomework.WordCounter.Memory

open CHomework.CellArray
open CHomework.CString

inductive Cell where
  | unknown
  | known (content : Option Item)
  deriving DecidableEq

/-- Why a call has no result: it used a cell that was never written, or the bound
on its recursion was reached. -/
inductive Fault where
  | uninitialised
  | recursion
  deriving DecidableEq

def Cell.read : Cell → Except Fault (Option Item)
  | .unknown => .error .uninitialised
  | .known content => .ok content

structure RawMap where
  data : List Cell
  numOfRecs : Nat
  size : Nat
  data_length : data.length = size
  size_pos : 0 < size

def hmInit : RawMap where
  data := [.known none]
  numOfRecs := 0
  size := 1
  data_length := rfl
  size_pos := Nat.one_pos

namespace RawMap

def home (m : RawMap) (key : CStr) : Nat := (hash key).toNat % m.size

/-- `m->data[i]`. Memory behind the array was never written either. -/
def readAt (m : RawMap) (i : Nat) : Except Fault (Option Item) :=
  (m.data.getD i .unknown).read

def storeItem (m : RawMap) (i : Nat) (item : Item) : RawMap where
  data := m.data.set i (.known (some item))
  numOfRecs := m.numOfRecs + 1
  size := m.size
  data_length := by rw [List.length_set, m.data_length]
  size_pos := m.size_pos

/-- `m->data[i].value = value`, where the cell has been read before. -/
def updateValue (m : RawMap) (i : Nat) (value : Int64) : RawMap where
  data := m.data.modify i fun
    | .unknown => .unknown
    | .known content => .known (content.map fun item => { item with value := value })
  numOfRecs := m.numOfRecs
  size := m.size
  data_length := by rw [List.length_modify, m.data_length]
  size_pos := m.size_pos

def grow (m : RawMap) : RawMap where
  data := Buffer.realloc .unknown (m.size * 2) m.data
  numOfRecs := m.numOfRecs
  size := m.size * 2
  data_length := Buffer.length_realloc _ _ _
  size_pos := Nat.mul_pos m.size_pos Nat.two_pos

end RawMap

/-- The loop of `hm_iter`. A record that was never stored is unknown. -/
def hmIterLoop : List Cell → UInt32 → List Cell → Except Fault (List Cell)
  | [], _, result => .ok result
  | cell :: cells, offset, result => do
      match ← cell.read with
      | none => hmIterLoop cells offset result
      | some item =>
          let result := Buffer.realloc .unknown (offset + 1).toNat result
          hmIterLoop cells (offset + 1) (result.set offset.toNat (.known (some item)))

def hmIter (m : RawMap) : Except Fault (List Cell) := hmIterLoop m.data 0 []

/-- A record that holds no key is not passed on. It is as good as unknown. -/
def readRecord (records : List Cell) (i : Nat) : Except Fault Item := do
  match ← (records.getD i .unknown).read with
  | none => .error .uninitialised
  | some item => .ok item

def hmRebuild (set : RawMap → CStr → Int64 → Except Fault RawMap) (oldMap : RawMap) :
    Except Fault RawMap := do
  let records ← hmIter oldMap
  let _newMap ← (List.range oldMap.numOfRecs).foldlM
    (fun newMap i => do
      let record ← readRecord records i
      set newMap record.key record.value)
    hmInit
  return oldMap

def setScan (key : CStr) (hashVal : Nat) : List Cell → Nat → Nat → Except Fault ScanEnd
  | [], _, nearestEmptyCell => .ok (.vacant nearestEmptyCell)
  | cell :: cells, i, nearestEmptyCell => do
      match ← cell.read with
      | none =>
          setScan key hashVal cells (i + 1)
            (if nearestEmptyCell = 0 ∧ i > hashVal then i else nearestEmptyCell)
      | some item =>
          if hits key item then .ok (.found i)
          else setScan key hashVal cells (i + 1) nearestEmptyCell

/-- `hm_set` with a bound on the depth of the recursion through `hm_rebuild`. -/
def hmSetFuel : Nat → RawMap → CStr → Int64 → Except Fault RawMap
  | 0, _, _, _ => .error .recursion
  | fuel + 1, m, key, val => do
      let item : Item := { key := key, value := val }
      let hashVal := m.home key
      match ← m.readAt hashVal with
      | none => .ok (m.storeItem hashVal item)
      | some current =>
          if hits key current then .ok (m.updateValue hashVal val)
          else if m.numOfRecs = m.size then do
            let grown ← hmRebuild (hmSetFuel fuel) m.grow
            hmSetFuel fuel grown key val
          else
            match ← setScan key hashVal m.data 0 0 with
            | .found i => .ok (m.updateValue i val)
            | .vacant nearestEmptyCell => .ok (m.storeItem nearestEmptyCell item)

def hmSet (m : RawMap) (key : CStr) (val : Int64) : Except Fault RawMap :=
  hmSetFuel (m.numOfRecs + 2) m key val

def getScan (key : CStr) : List Cell → Except Fault Int64
  | [] => .ok 0
  | cell :: cells => do
      match ← cell.read with
      | none => getScan key cells
      | some item => if hits key item then .ok item.value else getScan key cells

def hmGet (m : RawMap) (key : CStr) : Except Fault Int64 := do
  match ← m.readAt (m.home key) with
  | none => .ok 0
  | some item => if hits key item then .ok item.value else getScan key m.data

inductive Call where
  | set (key : CStr) (val : Int64)
  | get (key : CStr)
  deriving DecidableEq

def step (m : RawMap) : Call → Except Fault RawMap
  | .set key val => hmSet m key val
  | .get key => do
      let _value ← hmGet m key
      return m

def runCalls (calls : List Call) : Except Fault RawMap := calls.foldlM step hmInit

end CHomework.WordCounter.Memory
