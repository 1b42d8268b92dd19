import CHomework.FileObserver.Model
import CHomework.Lib.LittleEndian

namespace CHomework.FileObserver

open CHomework.Buffer
open CHomework.CString
open CHomework.LittleEndian

/-- `sizeof(struct inotify_event)`. -/
def inotifyEventSize : Nat := 16

def bufLen : Nat := 1024 * (inotifyEventSize + 16)

def field (buf : List UInt8) (i : Nat) : Option UInt32 := do
  let bytes ← loadRange buf i 4
  return UInt32.ofNat (ofBytes bytes)

structure Calls where
  opens : Bool
  size : Option Int64
  sends : Bool

/-- The state of the loop. `time` is the number of events that were visited. -/
structure Watch where
  monitor : Monitor
  msg : List UInt8
  time : Nat

def branch (mask : UInt32) (name : CStr) (calls : Calls) (w : Watch) : Option Watch :=
  if mask &&& inCreate ≠ 0 then do
    let msg ← storeRange w.msg (createdMsg name ++ [0])
    return { w with monitor := w.monitor.fopen calls.opens, msg := msg }
  else if mask &&& inDelete ≠ 0 then do
    let msg ← storeRange w.msg (deletedMsg name ++ [0])
    let monitor ← w.monitor.fclose
    return { w with monitor := monitor, msg := msg }
  else if mask &&& inModify ≠ 0 then do
    let monitor ← w.monitor.fstat calls.size
    let msg ← storeRange w.msg (sizeMsg monitor.fileStatSize ++ [0])
    return { w with monitor := monitor, msg := msg }
  else some w

def visit (path : CStr) (calls : Calls) (buf : List UInt8) (p : Nat) (w : Watch) :
    Option Watch := do
  -- the comparison reads behind the header even if the event has no name
  let compared ← strcmpIn (buf.drop (p + inotifyEventSize)) path.bytes
  if compared = 0 then do
    let mask ← field buf (p + 4)
    let name ← readString (buf.drop (p + inotifyEventSize))
    let w ← branch mask name calls w
    let text ← readString w.msg
    return { w with
      monitor := w.monitor.send text.bytes calls.sends
      msg := List.replicate msgSize 0 }
  else return w

structure Walk where
  visited : List Nat
  stop : Nat
  deriving DecidableEq

def eventLoop (path : CStr) (calls : Nat → Calls) (buf : List UInt8) (numRead p : Nat)
    (w : Watch) : Option (Watch × Walk) :=
  if p < numRead then do
    let w ← visit path (calls w.time) buf p w
    let len ← field buf (p + 12)
    let (w, walk) ← eventLoop path calls buf numRead (p + (inotifyEventSize + len.toNat))
      { w with time := w.time + 1 }
    return (w, { walk with visited := p :: walk.visited })
  else some (w, { visited := [], stop := p })
termination_by numRead - p
decreasing_by
  simp only [inotifyEventSize]
  omega

def readLoop (path : CStr) (calls : Nat → Calls) :
    List (Option (List UInt8)) → List UInt8 → Watch → Option (Monitoring × List Walk)
  | [], _, w => some (.waiting w.monitor, [])
  | none :: _, _, w => some (.failed w.monitor, [])
  | some [] :: _, _, w => w.monitor.fclose.map fun monitor => (.finished monitor, [])
  | some bytes :: reads, buf, w => do
      -- what a shorter read does not overwrite stays in the buffer
      let buf ← storeRange buf bytes
      let (w, walk) ← eventLoop path calls buf bytes.length 0 w
      let (ended, walks) ← readLoop path calls reads buf w
      return (ended, walk :: walks)

/-- `file_monitoring` on the reads, where the first `fopen` succeeds or not. Both
`buf` and `file_stat` hold what their memory held before. -/
def fileMonitoringOn (path : CStr) (fileStatSize : Int64) (opens : Bool) (calls : Nat → Calls)
    (buf : List UInt8) (reads : List (Option (List UInt8))) :
    Option (Monitoring × List Walk) :=
  let m := (monitorStart fileStatSize).fopen opens
  match m.fp with
  | none => some (.failed m, [])
  | some _ => readLoop path calls reads buf
      { monitor := m, msg := List.replicate msgSize 0, time := 0 }

end CHomework.FileObserver
