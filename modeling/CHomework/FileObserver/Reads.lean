import CHomework.FileObserver.Notices

namespace CHomework.FileObserver

open CHomework.Buffer
open CHomework.CString

/-- The events that the loop handles, numbered from `time` on. -/
def eventsFrom (calls : Nat → Calls) : Nat → List Notice → List Event
  | _, [] => []
  | time, n :: notices => n.event (calls time) :: eventsFrom calls (time + 1) notices

theorem eventsFrom_append (calls : Nat → Calls) (time : Nat) (notices notices' : List Notice) :
    eventsFrom calls time (notices ++ notices') =
      eventsFrom calls time notices ++ eventsFrom calls (time + notices.length) notices' := by
  induction notices generalizing time with
  | nil => rfl
  | cons n notices ih =>
      have htime : time + 1 + notices.length = time + (n :: notices).length := by
        rw [List.length_cons]
        omega
      rw [List.cons_append, eventsFrom, eventsFrom, ih, htime, List.cons_append]

/-- Where the events lie that follow each other from an offset on. -/
def offsets : Nat → List Notice → List Nat
  | _, [] => []
  | p, n :: notices => p :: offsets (p + n.encode.length) notices

/-- No comparison runs out of the buffer. -/
def Stays (path : CStr) (buf : List UInt8) : Nat → List Notice → Prop
  | _, [] => True
  | p, n :: notices =>
      ¬ n.Leaves path buf p ∧ Stays path buf (p + n.encode.length) notices

/-- The events that the loop finds between an offset and its end. -/
structure EventsAt (notices : List Notice) (buf : List UInt8) (numRead p : Nat) : Prop where
  bytes : notices.flatMap Notice.encode <+: buf.drop p
  stop : numRead = p + (notices.flatMap Notice.encode).length

section EventLoop

variable {path : CStr} {calls : Nat → Calls} {buf : List UInt8} {n : Notice}
  {notices : List Notice} {numRead p : Nat} {w : Watch}

namespace EventsAt

theorem eq_of_nil (h : EventsAt [] buf numRead p) : numRead = p := h.stop

theorem liesAt (h : EventsAt (n :: notices) buf numRead p) : LiesAt n buf p :=
  liesAt_of_encode ((List.prefix_append _ _).trans (List.flatMap_cons ▸ h.bytes))

theorem rest (h : EventsAt (n :: notices) buf numRead p) :
    EventsAt notices buf numRead (p + n.encode.length) where
  bytes := prefix_drop_add (List.flatMap_cons ▸ h.bytes)
  stop := by rw [h.stop, List.flatMap_cons, List.length_append, Nat.add_assoc]

theorem lt (h : EventsAt (n :: notices) buf numRead p) : p < numRead := by
  have hrest := h.rest.stop
  rw [n.length_encode, inotifyEventSize] at hrest
  omega

end EventsAt

theorem eventLoop_cons (h : EventsAt (n :: notices) buf numRead p) :
    eventLoop path calls buf numRead p w =
      (visit path (calls w.time) buf p w).bind fun w =>
        (eventLoop path calls buf numRead (p + n.encode.length)
          { w with time := w.time + 1 }).map fun result =>
            (result.1, { result.2 with visited := p :: result.2.visited }) := by
  rw [eventLoop, if_pos h.lt, h.liesAt.len, n.length_encode]
  cases visit path (calls w.time) buf p w with
  | none => rfl
  | some w =>
      show (eventLoop path calls buf numRead _ _).bind _ = _
      rw [Option.bind_some, Option.map_eq_bind]
      rfl

theorem eventLoop_of_leaves (h : EventsAt (n :: notices) buf numRead p)
    (hleaves : n.Leaves path buf p) : eventLoop path calls buf numRead p w = none := by
  rw [eventLoop_cons h, visit_of_leaves hleaves.2]
  rfl

theorem eventLoop_of_not_leaves (h : EventsAt (n :: notices) buf numRead p)
    (hmsg : w.msg = List.replicate msgSize 0) (hstays : ¬ n.Leaves path buf p) :
    eventLoop path calls buf numRead p w =
      (handleEvent path w.monitor (n.event (calls w.time))).bind fun m =>
        (eventLoop path calls buf numRead (p + n.encode.length)
          { monitor := m, msg := w.msg, time := w.time + 1 }).map fun result =>
            (result.1, { result.2 with visited := p :: result.2.visited }) := by
  rw [eventLoop_cons h, visit_notice h.liesAt hmsg hstays]
  cases handleEvent path w.monitor (n.event (calls w.time)) with
  | none => rfl
  | some m => rfl

theorem eventLoop_of_stays (h : EventsAt notices buf numRead p)
    (hmsg : w.msg = List.replicate msgSize 0) (hstays : Stays path buf p notices) :
    eventLoop path calls buf numRead p w =
      ((eventsFrom calls w.time notices).foldlM (handleEvent path) w.monitor).map fun m =>
        ({ w with monitor := m, time := w.time + notices.length },
          { visited := offsets p notices, stop := numRead }) := by
  induction notices generalizing p w with
  | nil =>
      obtain rfl := h.eq_of_nil
      rw [eventLoop, if_neg (Nat.lt_irrefl _)]
      rfl
  | cons n notices ih =>
      rcases hstays with ⟨hhere, hrest⟩
      rw [eventLoop_of_not_leaves h hmsg hhere, eventsFrom, List.foldlM_cons]
      cases handleEvent path w.monitor (n.event (calls w.time)) with
      | none => rfl
      | some m =>
          have htime : w.time + 1 + notices.length = w.time + (n :: notices).length := by
            rw [List.length_cons]
            omega
          have hnext := ih (w := { monitor := m, msg := w.msg, time := w.time + 1 })
            h.rest hmsg hrest
          show (eventLoop path calls buf numRead _
            { monitor := m, msg := w.msg, time := w.time + 1 }).map _ =
              Option.map _ (List.foldlM _ m _)
          rw [hnext, Option.map_map, ← htime]
          rfl

theorem eventLoop_of_not_stays (h : EventsAt notices buf numRead p)
    (hmsg : w.msg = List.replicate msgSize 0) (hstays : ¬ Stays path buf p notices) :
    eventLoop path calls buf numRead p w = none := by
  induction notices generalizing p w with
  | nil => exact absurd trivial hstays
  | cons n notices ih =>
      by_cases hleaves : n.Leaves path buf p
      · exact eventLoop_of_leaves h hleaves
      · have hrest : ¬ Stays path buf (p + n.encode.length) notices :=
          fun hrest => hstays ⟨hleaves, hrest⟩
        rw [eventLoop_of_not_leaves h hmsg hleaves]
        cases handleEvent path w.monitor (n.event (calls w.time)) with
        | none => rfl
        | some m =>
            have hnext := ih (w := { monitor := m, msg := w.msg, time := w.time + 1 })
              h.rest hmsg hrest
            rw [Option.bind_some, hnext]
            rfl

end EventLoop

/-- A read of whole events, at least one, that fit into the buffer. -/
structure Read where
  notices : List Notice
  ne_nil : notices ≠ []
  length_le : (notices.flatMap Notice.encode).length ≤ bufLen

namespace Read

variable (r : Read)

def bytes : List UInt8 := r.notices.flatMap Notice.encode

/-- What the loop should do with the read. -/
def walk : Walk where
  visited := offsets 0 r.notices
  stop := r.bytes.length

theorem bytes_ne_nil : r.bytes ≠ [] := by
  intro hnil
  cases hnotices : r.notices with
  | nil => exact r.ne_nil hnotices
  | cons n notices =>
      rw [bytes, hnotices, List.flatMap_cons] at hnil
      have hlen := congrArg List.length (List.append_eq_nil_iff.mp hnil).1
      rw [n.length_encode, inotifyEventSize, List.length_nil] at hlen
      omega

end Read

/-- No comparison runs out of the buffer in any read. The buffer keeps what a
shorter read does not overwrite. -/
def StaysIn (path : CStr) : List UInt8 → List Read → Prop
  | _, [] => True
  | buf, r :: reads =>
      Stays path (overwrite buf 0 r.bytes) 0 r.notices ∧
        StaysIn path (overwrite buf 0 r.bytes) reads

def eventReads (calls : Nat → Calls) : Nat → List Read → List (Option (List Event))
  | _, [] => []
  | time, r :: reads =>
      some (eventsFrom calls time r.notices) ::
        eventReads calls (time + r.notices.length) reads

section ReadLoop

variable {path : CStr} {calls : Nat → Calls} {buf : List UInt8} {reads : List Read} {w : Watch}

theorem readLoop_cons (hbuf : buf.length = bufLen) (r : Read) :
    readLoop path calls ((r :: reads).map fun r => some r.bytes) buf w =
      (eventLoop path calls (overwrite buf 0 r.bytes) r.bytes.length 0 w).bind fun result =>
        (readLoop path calls (reads.map fun r => some r.bytes) (overwrite buf 0 r.bytes)
          result.1).map fun rest => (rest.1, result.2 :: rest.2) := by
  have hroom : r.bytes.length ≤ buf.length := by
    rw [hbuf]
    exact r.length_le
  rw [List.map_cons, readLoop.eq_4 _ _ _ _ _ _ r.bytes_ne_nil, storeRange, if_pos hroom]
  show (eventLoop path calls (overwrite buf 0 r.bytes) r.bytes.length 0 w).bind _ = _
  congr 1
  funext result
  rw [Option.map_eq_bind]
  rfl

theorem eventsAt_overwrite (buf : List UInt8) (r : Read) :
    EventsAt r.notices (overwrite buf 0 r.bytes) r.bytes.length 0 where
  bytes := by
    rw [List.drop_zero, overwrite, List.take_zero, List.nil_append]
    exact List.prefix_append _ _
  stop := (Nat.zero_add _).symm

theorem length_overwrite_bytes (hbuf : buf.length = bufLen) (r : Read) :
    (overwrite buf 0 r.bytes).length = bufLen := by
  rw [length_overwrite, hbuf]
  rw [Nat.zero_add, hbuf]
  exact r.length_le

theorem monitorLoop_cons (r : Read) (time : Nat) (m : Monitor)
    (reads : List (Option (List Event))) :
    monitorLoop path (some (eventsFrom calls time r.notices) :: reads) m =
      ((eventsFrom calls time r.notices).foldlM (handleEvent path) m).bind
        (monitorLoop path reads) := by
  cases hnotices : r.notices with
  | nil => exact absurd hnotices r.ne_nil
  | cons n notices => rfl

/-- As long as no comparison runs out of the buffer, the loop over the bytes does
what the loop over the events does, and walks over each read from event to event. -/
theorem readLoop_of_staysIn (hbuf : buf.length = bufLen)
    (hmsg : w.msg = List.replicate msgSize 0) (hstays : StaysIn path buf reads) :
    readLoop path calls (reads.map fun r => some r.bytes) buf w =
      (monitorLoop path (eventReads calls w.time reads) w.monitor).map fun ended =>
        (ended, reads.map Read.walk) := by
  induction reads generalizing buf w with
  | nil => rfl
  | cons r reads ih =>
      rcases hstays with ⟨hhere, hrest⟩
      rw [readLoop_cons hbuf, eventLoop_of_stays (eventsAt_overwrite buf r) hmsg hhere,
        eventReads, monitorLoop_cons]
      cases (eventsFrom calls w.time r.notices).foldlM (handleEvent path) w.monitor with
      | none => rfl
      | some m =>
          have hnext := ih
            (w := { monitor := m, msg := w.msg, time := w.time + r.notices.length })
            (length_overwrite_bytes hbuf r) hmsg hrest
          show (readLoop path calls _ _
            { monitor := m, msg := w.msg, time := w.time + r.notices.length }).map _ =
              (monitorLoop path _ m).map _
          rw [hnext, Option.map_map]
          rfl

theorem readLoop_of_not_staysIn (hbuf : buf.length = bufLen)
    (hmsg : w.msg = List.replicate msgSize 0) (hstays : ¬ StaysIn path buf reads) :
    readLoop path calls (reads.map fun r => some r.bytes) buf w = none := by
  induction reads generalizing buf w with
  | nil => exact absurd trivial hstays
  | cons r reads ih =>
      have hevents := eventsAt_overwrite buf r
      rw [readLoop_cons hbuf]
      by_cases hhere : Stays path (overwrite buf 0 r.bytes) 0 r.notices
      · rw [eventLoop_of_stays hevents hmsg hhere]
        cases (eventsFrom calls w.time r.notices).foldlM (handleEvent path) w.monitor with
        | none => rfl
        | some m =>
            have hnext := ih
              (w := { monitor := m, msg := w.msg, time := w.time + r.notices.length })
              (length_overwrite_bytes hbuf r) hmsg fun h => hstays ⟨hhere, h⟩
            show (readLoop path calls _ _
              { monitor := m, msg := w.msg, time := w.time + r.notices.length }).map _ = none
            rw [hnext]
            rfl
      · rw [eventLoop_of_not_stays hevents hmsg hhere]
        rfl

/-- The reads follow each other without an end of the loop between them. -/
theorem monitorLoop_eventReads (path : CStr) (calls : Nat → Calls) (time : Nat)
    (reads : List Read) (m : Monitor) :
    monitorLoop path (eventReads calls time reads) m =
      ((eventsFrom calls time (reads.flatMap Read.notices)).foldlM (handleEvent path) m).map
        .waiting := by
  induction reads generalizing time m with
  | nil => rfl
  | cons r reads ih =>
      rw [eventReads, monitorLoop_cons, List.flatMap_cons, eventsFrom_append, List.foldlM_append]
      cases (eventsFrom calls time r.notices).foldlM (handleEvent path) m with
      | none => rfl
      | some m => exact ih _ m

end ReadLoop

end CHomework.FileObserver
