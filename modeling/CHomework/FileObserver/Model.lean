import CHomework.Lib.Buffer
import CHomework.Lib.CString

/-!
The file observer `main.c`: the handshake on the socket, and the loop over the
events of the monitored directory.
-/

namespace CHomework.FileObserver

open CHomework.Buffer
open CHomework.CString

def socketBuf : Nat := 1024

def subscribeCmd : CStr := ofBuffer [0x53, 0x55, 0x42, 0x53, 0x43, 0x52, 0x49, 0x42, 0x45]

/-- What the system calls of one round return: the received bytes, or nothing
when `recv` fails, and whether the answer can be sent. -/
structure Round where
  received : Option (List UInt8)
  sent : Bool
  deriving DecidableEq

inductive Handshake where
  | subscribed
  | failed
  | waiting
  deriving DecidableEq

/-- The loop of `run_server`. It has no result when a chunk leaves the buffer or
leaves no terminator in it. -/
def handshakeLoop : List Round → List UInt8 → Option Handshake
  | [], _ => some .waiting
  | round :: rounds, buf =>
      match round.received with
      | none => some .failed
      | some bytes => do
          let buf ← storeRange buf bytes
          let command ← readString buf
          if strcmp command subscribeCmd = 0 then return .subscribed
          else if round.sent = false then return .failed
          else handshakeLoop rounds (List.replicate socketBuf 0)

def handshake (rounds : List Round) : Option Handshake :=
  handshakeLoop rounds (List.replicate socketBuf 0)

def msgSize : Nat := 100

def inModify : UInt32 := 0x00000002

def inCreate : UInt32 := 0x00000100

def inDelete : UInt32 := 0x00000200

/-- `snprintf` into a buffer of this size keeps one byte for the terminator. -/
def snprintf (size : Nat) (text : List UInt8) : List UInt8 := text.take (size - 1)

def ascii (text : String) : List UInt8 := text.toUTF8.toList

def createdMsg (name : CStr) : List UInt8 :=
  snprintf msgSize (ascii "The file " ++ name.bytes ++ ascii " was create.\n")

def deletedMsg (name : CStr) : List UInt8 :=
  snprintf msgSize (ascii "The file " ++ name.bytes ++ ascii " was deleted.\n")

def sizeMsg (size : Int64) : List UInt8 :=
  snprintf msgSize (ascii "The actual file size: " ++ ascii (toString size.toInt) ++ ascii "\n")

/-- An event of the watched directory, and what the system calls return while it
is handled: whether `fopen` succeeds, the size that `fstat` finds, and whether
`send` succeeds. -/
structure Event where
  mask : UInt32
  name : CStr
  opens : Bool
  size : Option Int64
  sends : Bool

/-- The `FILE`s are numbered in the order in which they were opened. `fp` is
nothing when it is NULL, and `sent` is what the client was sent. -/
structure Monitor where
  fp : Option Nat
  isOpen : Nat → Bool
  files : Nat
  fileStatSize : Int64
  sent : List UInt8

namespace Monitor

def fopen (m : Monitor) (opens : Bool) : Monitor :=
  if opens then
    { m with fp := some m.files
             isOpen := fun file => if file = m.files then true else m.isOpen file
             files := m.files + 1 }
  else { m with fp := none }

/-- `fclose(fp)`. It has no result on NULL and on a `FILE` that is not open. -/
def fclose (m : Monitor) : Option Monitor := do
  let file ← m.fp
  if m.isOpen file then
    return { m with isOpen := fun other => if other = file then false else m.isOpen other }
  else none

/-- `fstat(fileno(fp), &file_stat)`. A failing `fstat` leaves `file_stat` as it is. -/
def fstat (m : Monitor) (size : Option Int64) : Option Monitor := do
  let file ← m.fp
  if m.isOpen file then return { m with fileStatSize := size.getD m.fileStatSize } else none

def send (m : Monitor) (msg : List UInt8) (sends : Bool) : Monitor :=
  if sends then { m with sent := m.sent ++ msg } else m

end Monitor

def handleEvent (path : CStr) (m : Monitor) (event : Event) : Option Monitor :=
  if strcmp event.name path = 0 then
    if event.mask &&& inCreate ≠ 0 then
      some ((m.fopen event.opens).send (createdMsg event.name) event.sends)
    else if event.mask &&& inDelete ≠ 0 then do
      let m ← m.fclose
      return m.send (deletedMsg event.name) event.sends
    else if event.mask &&& inModify ≠ 0 then do
      let m ← m.fstat event.size
      return m.send (sizeMsg m.fileStatSize) event.sends
    else some (m.send [] event.sends)
  else some m

inductive Monitoring where
  | finished (m : Monitor)
  | failed (m : Monitor)
  | waiting (m : Monitor)

/-- The loop over the reads. Each read returns events, no events at the end of
the file, or nothing when it fails. -/
def monitorLoop (path : CStr) : List (Option (List Event)) → Monitor → Option Monitoring
  | [], m => some (.waiting m)
  | none :: _, m => some (.failed m)
  | some [] :: _, m => m.fclose.map .finished
  | some (event :: events) :: reads, m => do
      let m ← (event :: events).foldlM (handleEvent path) m
      monitorLoop path reads m

/-- Before the first `fopen`. `file_stat` holds what its memory held before. -/
def monitorStart (fileStatSize : Int64) : Monitor where
  fp := none
  isOpen := fun _ => false
  files := 0
  fileStatSize := fileStatSize
  sent := []

/-- `file_monitoring`, where the first `fopen` succeeds or not. -/
def fileMonitoring (path : CStr) (fileStatSize : Int64) (opens : Bool)
    (reads : List (Option (List Event))) : Option Monitoring :=
  let m := (monitorStart fileStatSize).fopen opens
  match m.fp with
  | none => some (.failed m)
  | some _ => monitorLoop path reads m

end CHomework.FileObserver
