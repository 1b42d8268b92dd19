import CHomework.FileObserver.Handle
import CHomework.FileObserver.Reads

namespace CHomework.FileObserver

open CHomework.CString

/-- What a mask says of the file. The first of the branches counts. -/
def kindOf (mask : UInt32) : Option Kind :=
  if mask &&& inCreate ≠ 0 then some .create
  else if mask &&& inDelete ≠ 0 then some .delete
  else if mask &&& inModify ≠ 0 then some .modify
  else none

/-- The change of the monitored file, if the event is one. -/
def Notice.change (n : Notice) (path : CStr) : Option Kind :=
  if n.name = path then kindOf n.mask else none

def changeText (path : CStr) (size : Int64) : Kind → List UInt8
  | .create => ascii "The file " ++ path.bytes ++ ascii " was create.\n"
  | .delete => ascii "The file " ++ path.bytes ++ ascii " was deleted.\n"
  | .modify => ascii "The actual file size: " ++ ascii (toString size.toInt) ++ ascii "\n"

/-- The client is due one message for each change, cut to 99 bytes. `sizes` are
the sizes of the file when the events are handled. -/
def messages (path : CStr) (sizes : Nat → Int64) : Nat → List Notice → List UInt8
  | _, [] => []
  | time, n :: notices =>
      ((n.change path).elim [] fun kind => (changeText path (sizes time) kind).take 99) ++
        messages path sizes (time + 1) notices

def succeeding (sizes : Nat → Int64) (time : Nat) : Calls where
  opens := true
  size := some (sizes time)
  sends := true

/-- What a change does to the handle and to what was sent. -/
def handleKind (path : CStr) (size : Int64) (m : Monitor) : Kind → Option Monitor
  | .create => some ((m.fopen true).send (createdMsg path) true)
  | .delete => m.fclose.map fun m => m.send (deletedMsg path) true
  | .modify => (m.fstat (some size)).map fun m => m.send (sizeMsg m.fileStatSize) true

theorem handleEvent_event (n : Notice) (path : CStr) (sizes : Nat → Int64) (time : Nat)
    (m : Monitor) :
    handleEvent path m (n.event (succeeding sizes time)) =
      (n.change path).elim (some m) (handleKind path (sizes time) m) := by
  rw [Notice.change]
  split
  · rename_i hname
    rw [Notice.event, hname, handleEvent_eventOf, kindOf]
    split
    · rfl
    · split
      · rw [Option.elim_some, handleKind, Option.map_eq_bind]
        rfl
      · split
        · rw [Option.elim_some, handleKind, Option.map_eq_bind]
          rfl
        · rw [Option.elim_none]
          simp [Monitor.send, succeeding]
  · rename_i hname
    exact handleEvent_of_ne m hname

namespace Monitor

variable {m m' : Monitor}

theorem sent_fclose (h : m.fclose = some m') : m'.sent = m.sent := by
  obtain ⟨file, -, hclose⟩ := Option.bind_eq_some_iff.mp h
  split at hclose
  · rw [← Option.some.inj hclose]
  · cases hclose

theorem sent_fstat {size : Option Int64} (h : m.fstat size = some m') :
    m'.sent = m.sent ∧ m'.fileStatSize = size.getD m.fileStatSize := by
  obtain ⟨file, -, hstat⟩ := Option.bind_eq_some_iff.mp h
  split at hstat
  · rw [← Option.some.inj hstat]
    exact ⟨rfl, rfl⟩
  · cases hstat

end Monitor

section HandleKind

variable {path : CStr} {size : Int64} {m m' : Monitor} {kind : Kind}

theorem handleKind_isSome_iff :
    (handleKind path size m kind).isSome ↔ kind = .create ∨ m.Valid := by
  cases kind with
  | create => simp [handleKind]
  | delete => simp [handleKind, m.fclose_isSome_iff]
  | modify => simp [handleKind, m.fstat_isSome_iff]

theorem valid_of_handleKind (h : handleKind path size m kind = some m') :
    m'.Valid ↔ kind ≠ .delete := by
  cases kind with
  | create =>
      obtain rfl := Option.some.inj h
      simp [m.valid_fopen]
  | delete =>
      obtain ⟨n, hn, rfl⟩ := Option.map_eq_some_iff.mp h
      simp [Monitor.not_valid_of_fclose hn]
  | modify =>
      obtain ⟨n, hn, rfl⟩ := Option.map_eq_some_iff.mp h
      simp [Monitor.valid_of_fstat hn]

theorem sent_of_handleKind (h : handleKind path size m kind = some m') :
    m'.sent = m.sent ++ (changeText path size kind).take 99 := by
  cases kind with
  | create =>
      obtain rfl := Option.some.inj h
      rfl
  | delete =>
      obtain ⟨n, hn, rfl⟩ := Option.map_eq_some_iff.mp h
      show n.sent ++ _ = _
      rw [Monitor.sent_fclose hn]
      rfl
  | modify =>
      obtain ⟨n, hn, rfl⟩ := Option.map_eq_some_iff.mp h
      rcases Monitor.sent_fstat hn with ⟨hsent, hsize⟩
      show n.sent ++ sizeMsg n.fileStatSize = _
      rw [hsent, hsize]
      rfl

end HandleKind

def changes (path : CStr) (notices : List Notice) : List Kind :=
  notices.filterMap fun n => n.change path

/-- Behind a deletion only a creation makes the handle usable again. -/
def MayFollow (kind kind' : Kind) : Prop := kind = .delete → kind' = .create

instance : DecidableRel MayFollow := by
  unfold MayFollow
  infer_instance

/-- All events are handled, and the messages that are due are sent. -/
def Sends (path : CStr) (sizes : Nat → Int64) (time : Nat) (m : Monitor)
    (notices : List Notice) : Prop :=
  ∃ m', (eventsFrom (succeeding sizes) time notices).foldlM (handleEvent path) m = some m' ∧
    m'.sent = m.sent ++ messages path sizes time notices

theorem sends_cons_of_none {path : CStr} {sizes : Nat → Int64} {time : Nat} {m : Monitor}
    {n : Notice} {notices : List Notice} (h : n.change path = none) :
    Sends path sizes time m (n :: notices) ↔ Sends path sizes (time + 1) m notices := by
  rw [Sends, Sends, eventsFrom, List.foldlM_cons, handleEvent_event, messages, h]
  rfl

theorem sends_cons_of_some {path : CStr} {sizes : Nat → Int64} {time : Nat} {m m' : Monitor}
    {n : Notice} {notices : List Notice} {kind : Kind} (h : n.change path = some kind)
    (hm' : handleKind path (sizes time) m kind = some m') :
    Sends path sizes time m (n :: notices) ↔ Sends path sizes (time + 1) m' notices := by
  rw [Sends, Sends, eventsFrom, List.foldlM_cons, handleEvent_event, messages, h,
    Option.elim_some, Option.elim_some, hm', sent_of_handleKind hm', List.append_assoc]
  rfl

/-- The induction is on the events. `last` is the last change before them, so the
handle is open unless that was a deletion. -/
theorem sends_iff {path : CStr} {sizes : Nat → Int64} {time : Nat} {m : Monitor} {last : Kind}
    (hvalid : m.Valid ↔ last ≠ .delete) (notices : List Notice) :
    Sends path sizes time m notices ↔ (last :: changes path notices).IsChain MayFollow := by
  induction notices generalizing time m last with
  | nil => simp [Sends, eventsFrom, messages, changes]
  | cons n notices ih =>
      cases hchange : n.change path with
      | none =>
          have hrest : changes path (n :: notices) = changes path notices := by
            simp [changes, hchange]
          rw [sends_cons_of_none hchange, ih hvalid, hrest]
      | some kind =>
          have hrest : changes path (n :: notices) = kind :: changes path notices := by
            simp [changes, hchange]
          rw [hrest, List.isChain_cons_cons]
          have hready : (handleKind path (sizes time) m kind).isSome ↔ MayFollow last kind := by
            rw [handleKind_isSome_iff, hvalid, MayFollow]
            by_cases hlast : last = .delete
            · simp [hlast]
            · simp [hlast]
          rw [← hready]
          cases hm' : handleKind path (sizes time) m kind with
          | none =>
              simp only [Option.isSome_none, Bool.false_eq_true, false_and, iff_false]
              rintro ⟨m'', hrun, -⟩
              rw [eventsFrom, List.foldlM_cons, handleEvent_event, hchange, Option.elim_some,
                hm'] at hrun
              cases hrun
          | some m' =>
              rw [sends_cons_of_some hchange hm', ih (valid_of_handleKind hm')]
              simp

/-- The run over the reads visits each event once and stops behind the last one of
each read, and the client is sent the messages that are due. -/
def ReceivesMessages (path : CStr) (fileStatSize : Int64) (sizes : Nat → Int64)
    (buf : Vector UInt8 bufLen) (reads : List Read) : Prop :=
  ∃ m, fileMonitoringOn path fileStatSize true (succeeding sizes) buf.toList
      (reads.map fun r => some r.bytes) = some (.waiting m, reads.map Read.walk) ∧
    m.sent = messages path sizes 0 (reads.flatMap Read.notices)

section ReceivesMessages

variable {path : CStr} {fileStatSize : Int64} {sizes : Nat → Int64} {buf : Vector UInt8 bufLen}
  {reads : List Read}

theorem staysIn_of_receivesMessages (h : ReceivesMessages path fileStatSize sizes buf reads) :
    StaysIn path buf.toList reads := by
  by_contra hstays
  obtain ⟨m, hrun, -⟩ := h
  have hnone : fileMonitoringOn path fileStatSize true (succeeding sizes) buf.toList
      (reads.map fun r => some r.bytes) = none :=
    readLoop_of_not_staysIn (by simp) rfl hstays
  rw [hnone] at hrun
  cases hrun

theorem receivesMessages_iff_sends (h : StaysIn path buf.toList reads) :
    ReceivesMessages path fileStatSize sizes buf reads ↔
      Sends path sizes 0 ((monitorStart fileStatSize).fopen true)
        (reads.flatMap Read.notices) := by
  have hbuf : buf.toList.length = bufLen := by simp
  have hrun : fileMonitoringOn path fileStatSize true (succeeding sizes) buf.toList
      (reads.map fun r => some r.bytes) =
        ((eventsFrom (succeeding sizes) 0 (reads.flatMap Read.notices)).foldlM
          (handleEvent path) ((monitorStart fileStatSize).fopen true)).map fun m =>
            (.waiting m, reads.map Read.walk) := by
    show readLoop path (succeeding sizes) _ _ _ = _
    rw [readLoop_of_staysIn hbuf rfl h, monitorLoop_eventReads, Option.map_map]
    rfl
  rw [ReceivesMessages, Sends, hrun]
  constructor
  · rintro ⟨m, hm, hsent⟩
    obtain ⟨m', hm', heq⟩ := Option.map_eq_some_iff.mp hm
    obtain rfl : m' = m := by simpa using heq
    exact ⟨m', hm', hsent⟩
  · rintro ⟨m, hm, hsent⟩
    exact ⟨m, by rw [hm, Option.map_some], hsent⟩

/-- The first `fopen` has succeeded, so the handle is open as after a creation. -/
theorem sends_fopen_iff (notices : List Notice) :
    Sends path sizes 0 ((monitorStart fileStatSize).fopen true) notices ↔
      (changes path notices).IsChain MayFollow := by
  have hvalid : ((monitorStart fileStatSize).fopen true).Valid ↔ Kind.create ≠ .delete := by
    simp [Monitor.valid_fopen]
  rw [sends_iff hvalid]
  cases changes path notices with
  | nil => simp
  | cons kind kinds => simp [MayFollow]

end ReceivesMessages

/-- The client receives exactly the messages of the monitored file as long as each
deletion of it is followed by nothing but a creation, and no comparison of a name
that is not there runs out of the buffer. -/
theorem receivesMessages_iff (path : CStr) (fileStatSize : Int64) (sizes : Nat → Int64)
    (buf : Vector UInt8 bufLen) (reads : List Read) :
    ReceivesMessages path fileStatSize sizes buf reads ↔
      (changes path (reads.flatMap Read.notices)).IsChain MayFollow ∧
        StaysIn path buf.toList reads := by
  constructor
  · intro h
    have hstays := staysIn_of_receivesMessages h
    exact ⟨(sends_fopen_iff _).mp ((receivesMessages_iff_sends hstays).mp h), hstays⟩
  · rintro ⟨hchain, hstays⟩
    exact (receivesMessages_iff_sends hstays).mpr ((sends_fopen_iff _).mpr hchain)

def sampleNotice (mask : UInt32) : Notice where
  wd := 1
  mask := mask
  cookie := 0
  name := ofBuffer [0x61]
  pad := 15
  fits := by decide
  padded := fun _ => by decide
  nameless := fun h => absurd h (by decide)

/-- The file is deleted, another one is moved into its place, which is no watched
event, and that one is modified: the handle is closed. -/
theorem not_receivesMessages_of_moved : ¬ ∀ (path : CStr) (fileStatSize : Int64)
    (sizes : Nat → Int64) (buf : Vector UInt8 bufLen) (reads : List Read),
    ReceivesMessages path fileStatSize sizes buf reads := by
  intro h
  have hreceives := h (ofBuffer [0x61]) 0 (fun _ => 0) (Vector.replicate bufLen 0)
    [{ notices := [sampleNotice inDelete, sampleNotice inModify]
       ne_nil := List.cons_ne_nil _ _
       length_le := by decide +kernel }]
  have hstays := staysIn_of_receivesMessages hreceives
  have hchain := (sends_fopen_iff _).mp ((receivesMessages_iff_sends hstays).mp hreceives)
  revert hchain
  decide +kernel

end CHomework.FileObserver
