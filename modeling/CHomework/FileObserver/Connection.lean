import CHomework.FileObserver.Handshake
import CHomework.FileObserver.Messages
import CHomework.Lib.Runs

/-!
The server and its client `test_client.c` at the two ends of a stream socket. Each of them
takes its steps whenever it can, and a receive call takes any number of the bytes that are
on their way.
-/

namespace CHomework.FileObserver

open CHomework.Buffer
open CHomework.CString
open CHomework.Runs

def sRecvLen : Nat := 200

def testCmd : CStr := ofBuffer [0x54, 0x45, 0x53, 0x54, 0x45]

def unknownCmd : List UInt8 := ascii "unknown command"

inductive Place where
  | sendTest
  | recvAnswer
  | sendSubscribe
  | recvLoop
  deriving DecidableEq

/-- `printed` are the strings behind `Data received:`. The client has overread when one of
them has no end in `recv_msg`. -/
structure Client where
  place : Place
  printed : List CStr
  overread : Bool

def Place.received : Place → Option Place
  | .recvAnswer => some .sendSubscribe
  | .recvLoop => some .recvLoop
  | _ => none

/-- The command that is sent, and the call behind it. -/
def Place.sending : Place → Option (CStr × Place)
  | .sendTest => some (testCmd, .recvAnswer)
  | .sendSubscribe => some (subscribeCmd, .recvLoop)
  | _ => none

inductive Phase where
  | handshake
  | subscribed
  | monitoring
  | exited
  | fault
  deriving DecidableEq

/-- `received` are the strings behind `DATA RECEIVED =`. -/
structure Server where
  phase : Phase
  received : List CStr
  monitor : Monitor

structure Connection where
  server : Server
  client : Client
  toServer : List UInt8
  toClient : List UInt8

inductive Action where
  | clientSend (sent : Bool)
  | clientRecv (n : Nat)
  | clientFail
  | serverRecv (n : Nat) (sent : Bool)
  | serverOpen (opens : Bool)
  | serverEvent (event : Event)
  | serverEnd
  | serverFail

/-- A `send` that fails is only reported. -/
def clientSend (c : Connection) (sent : Bool) : Option Connection := do
  let (sendMsg, place) ← c.client.place.sending
  return { c with
    client := { c.client with place }
    toServer := c.toServer ++ if sent then sendMsg.bytes else [] }

/-- `recv` of `n` bytes into the zeros of `recv_msg`, and `printf`. It returns 0 when the
server has ended. -/
def clientRecv (c : Connection) (n : Nat) : Option Connection := do
  let place ← c.client.place.received
  if c.client.overread = true then none
  else if n = 0 then
    if c.toClient = [] ∧ c.server.phase = .exited then
      return { c with client := { c.client with place } }
    else none
  else if n ≤ sRecvLen ∧ n ≤ c.toClient.length then
    match (storeRange (List.replicate sRecvLen 0) (c.toClient.take n)).bind readString with
    | none => return { c with client := { c.client with overread := true } }
    | some recvMsg =>
        return { c with
          client := { c.client with place, printed := c.client.printed ++ [recvMsg] }
          toClient := c.toClient.drop n }
  else none

/-- A `recv` of the client fails, and it goes on without a word. -/
def clientFail (c : Connection) : Option Connection := do
  let place ← c.client.place.received
  if c.client.overread = true then none
  else return { c with client := { c.client with place } }

/-- What the server answers in a round of the handshake. -/
def Next.answer : Next → List UInt8
  | .goesOn _ => unknownCmd
  | .ends _ => []

def Next.phase : Next → Phase
  | .goesOn _ => .handshake
  | .ends .subscribed => .subscribed
  | .ends _ => .exited

/-- A round of the handshake with `n` bytes. The client does not close its side. -/
def serverRecv (c : Connection) (n : Nat) (sent : Bool) : Option Connection :=
  if h : n ≤ socketBuf ∧ 0 < n ∧ n ≤ c.toServer.length ∧ c.server.phase = .handshake then
    let chunk : Chunks.Chunk UInt8 socketBuf :=
      { bytes := c.toServer.take n
        length_le := (List.length_take_le _ _).trans h.1 }
    match exchangeRound { chunk, sent } (List.replicate socketBuf 0) with
    | none => some { c with server := { c.server with phase := .fault } }
    | some (buf, next) =>
        some { c with
          server := { c.server with phase := next.phase, received := c.server.received ++ [buf] }
          toServer := c.toServer.drop n
          toClient := c.toClient ++ next.answer }
  else none

def serverOpen (c : Connection) (opens : Bool) : Option Connection :=
  if c.server.phase = .subscribed then
    some { c with server := { c.server with
      phase := if opens then .monitoring else .exited
      monitor := c.server.monitor.fopen opens } }
  else none

/-- What `handleEvent` sends is on its way to the client. -/
def serverEvent (path : CStr) (c : Connection) (event : Event) : Option Connection :=
  if c.server.phase = .monitoring then
    match handleEvent path c.server.monitor event with
    | none => some { c with server := { c.server with phase := .fault } }
    | some monitor =>
        some { c with
          server := { c.server with monitor }
          toClient := c.toClient ++ monitor.sent.drop c.server.monitor.sent.length }
  else none

def serverEnd (c : Connection) : Option Connection :=
  if c.server.phase = .monitoring then
    match c.server.monitor.fclose with
    | none => some { c with server := { c.server with phase := .fault } }
    | some monitor => some { c with server := { c.server with phase := .exited, monitor } }
  else none

/-- A call fails, and the server ends with `err_exit`. -/
def serverFail (c : Connection) : Option Connection :=
  if c.server.phase = .exited ∨ c.server.phase = .fault then none
  else some { c with server := { c.server with phase := .exited } }

def step (path : CStr) (c : Connection) : Action → Option Connection
  | .clientSend sent => clientSend c sent
  | .clientRecv n => clientRecv c n
  | .clientFail => clientFail c
  | .serverRecv n sent => serverRecv c n sent
  | .serverOpen opens => serverOpen c opens
  | .serverEvent event => serverEvent path c event
  | .serverEnd => serverEnd c
  | .serverFail => serverFail c

def connected (fileStatSize : Int64) : Connection where
  server := { phase := .handshake, received := [], monitor := monitorStart fileStatSize }
  client := { place := .sendTest, printed := [], overread := false }
  toServer := []
  toClient := []

section Steps

variable {c c' : Connection} {n : Nat} {sent : Bool}

theorem clientSend_cases (h : clientSend c sent = some c') :
    ∃ sendMsg place, c.client.place.sending = some (sendMsg, place) ∧
      c' = { c with
        client := { c.client with place }
        toServer := c.toServer ++ if sent then sendMsg.bytes else [] } := by
  obtain ⟨⟨sendMsg, place⟩, hsending, hc'⟩ := Option.bind_eq_some_iff.mp h
  exact ⟨sendMsg, place, hsending, (Option.some.inj hc').symm⟩

/-- The client receives nothing, too much, or a string. -/
theorem clientRecv_cases (hnul : (0 : UInt8) ∉ c.toClient) (h : clientRecv c n = some c') :
    c.client.overread = false ∧ ∃ place, c.client.place.received = some place ∧
      (n = 0 ∧ c.server.phase = .exited ∧ c' = { c with client := { c.client with place } } ∨
        n = sRecvLen ∧ n ≤ c.toClient.length ∧
          c' = { c with client := { c.client with overread := true } } ∨
        0 < n ∧ n < sRecvLen ∧ n ≤ c.toClient.length ∧
          ∃ recvMsg : CStr, recvMsg.bytes = c.toClient.take n ∧
            c' = { c with
              client := { c.client with place, printed := c.client.printed ++ [recvMsg] }
              toClient := c.toClient.drop n }) := by
  obtain ⟨place, hplace, hc'⟩ := Option.bind_eq_some_iff.mp h
  rw [Option.ite_none_left_eq_some] at hc'
  obtain ⟨hoverread, hc'⟩ := hc'
  refine ⟨by simpa using hoverread, place, hplace, ?_⟩
  split at hc'
  · rename_i hzero
    split at hc'
    · rename_i hclosed
      exact Or.inl ⟨hzero, hclosed.2, (Option.some.inj hc').symm⟩
    · cases hc'
  rename_i hzero
  rw [Option.ite_none_right_eq_some] at hc'
  obtain ⟨⟨hbuf, hlength⟩, hc'⟩ := hc'
  have htake : (c.toClient.take n).length = n := List.length_take_of_le hlength
  have hnulTake : (0 : UInt8) ∉ c.toClient.take n := fun hmem => hnul (List.mem_of_mem_take hmem)
  have hread : (storeRange (List.replicate sRecvLen 0) (c.toClient.take n)).bind readString =
      if n = sRecvLen then none else some { bytes := c.toClient.take n, noNul := hnulTake } := by
    have hself := ofBuffer_bytes { bytes := c.toClient.take n, noNul := hnulTake }
    have hle : (c.toClient.take n).length ≤ sRecvLen := htake.le.trans hbuf
    rw [storeRange_replicate 0 hle, Option.bind_some, readString_zeroed_eq hle, htake]
    simp only [hnulTake, not_false_eq_true, and_true]
    rw [← hself]
  rw [hread] at hc'
  rcases eq_or_ne n sRecvLen with hfull | hfull
  · rw [if_pos hfull] at hc'
    exact Or.inr (Or.inl ⟨hfull, hlength, (Option.some.inj hc').symm⟩)
  · rw [if_neg hfull] at hc'
    exact Or.inr (Or.inr ⟨Nat.pos_of_ne_zero hzero, Nat.lt_of_le_of_ne hbuf hfull, hlength, _, rfl,
      (Option.some.inj hc').symm⟩)

theorem clientFail_cases (h : clientFail c = some c') :
    c.client.overread = false ∧ ∃ place, c.client.place.received = some place ∧
      c' = { c with client := { c.client with place } } := by
  obtain ⟨place, hplace, hc'⟩ := Option.bind_eq_some_iff.mp h
  rw [Option.ite_none_left_eq_some] at hc'
  exact ⟨by simpa using hc'.1, place, hplace, (Option.some.inj hc'.2).symm⟩

def nextOf (buf : CStr) (sent : Bool) : Next :=
  if buf = subscribeCmd then .ends .subscribed
  else if sent = false then .ends .failed
  else .goesOn (List.replicate socketBuf 0)

theorem serverRecv_eq (sent : Bool) (hnul : (0 : UInt8) ∉ c.toServer)
    (hshort : c.toServer.length < socketBuf) (hphase : c.server.phase = .handshake) (hpos : 0 < n)
    (hle : n ≤ c.toServer.length) :
    ∃ buf : CStr, buf.bytes = c.toServer.take n ∧
      serverRecv c n sent = some { c with
        server := { c.server with
          phase := (nextOf buf sent).phase, received := c.server.received ++ [buf] }
        toServer := c.toServer.drop n
        toClient := c.toClient ++ (nextOf buf sent).answer } := by
  have hnulTake : (0 : UInt8) ∉ c.toServer.take n := fun hmem => hnul (List.mem_of_mem_take hmem)
  have hbuf : n ≤ socketBuf := hle.trans hshort.le
  have hself := ofBuffer_bytes { bytes := c.toServer.take n, noNul := hnulTake }
  refine ⟨ofBuffer (c.toServer.take n), congrArg CStr.bytes hself, ?_⟩
  let exchange : Exchange :=
    { chunk := { bytes := c.toServer.take n, length_le := (List.length_take_le _ _).trans hbuf }
      sent := sent }
  have hfills : ¬ FillsBuffer exchange := by
    rintro ⟨hfull, -⟩
    have hlen : (c.toServer.take n).length ≤ c.toServer.length := List.length_take_le' _ _
    have hfull' : (c.toServer.take n).length = socketBuf := hfull
    omega
  have hround : exchangeRound exchange (List.replicate socketBuf 0) =
      some (ofBuffer (c.toServer.take n), nextOf (ofBuffer (c.toServer.take n)) sent) := by
    rw [exchangeRound_eq hfills, nextOf]
    exact congrArg (fun next => some (_, next)) (if_congr Iff.rfl rfl rfl)
  rw [serverRecv, dif_pos ⟨hbuf, hpos, hle, hphase⟩]
  dsimp only
  rw [hround]

theorem serverRecv_cases (hnul : (0 : UInt8) ∉ c.toServer)
    (hshort : c.toServer.length < socketBuf) (h : serverRecv c n sent = some c') :
    c.server.phase = .handshake ∧ 0 < n ∧ n ≤ c.toServer.length ∧
      ∃ buf : CStr, buf.bytes = c.toServer.take n ∧ c' = { c with
        server := { c.server with
          phase := (nextOf buf sent).phase, received := c.server.received ++ [buf] }
        toServer := c.toServer.drop n
        toClient := c.toClient ++ (nextOf buf sent).answer } := by
  have hguard : n ≤ socketBuf ∧ 0 < n ∧ n ≤ c.toServer.length ∧ c.server.phase = .handshake := by
    by_contra hguard
    rw [serverRecv, dif_neg hguard] at h
    cases h
  obtain ⟨-, hpos, hle, hphase⟩ := hguard
  obtain ⟨buf, hbytes, heq⟩ := serverRecv_eq sent hnul hshort hphase hpos hle
  rw [heq] at h
  exact ⟨hphase, hpos, hle, buf, hbytes, (Option.some.inj h).symm⟩

/-- An event adds a message without a NUL to what was sent, or nothing. -/
theorem sent_of_handleEvent {path : CStr} {m m' : Monitor} {event : Event}
    (h : handleEvent path m event = some m') :
    ∃ msg, (0 : UInt8) ∉ msg ∧ m'.sent = m.sent ++ msg := by
  have hsend : ∀ (m : Monitor) (msg : List UInt8) (sends : Bool), (0 : UInt8) ∉ msg →
      ∃ added, (0 : UInt8) ∉ added ∧ (m.send msg sends).sent = m.sent ++ added := by
    intro m msg sends hmsg
    cases sends with
    | false => exact ⟨[], List.not_mem_nil, (List.append_nil _).symm⟩
    | true => exact ⟨msg, hmsg, rfl⟩
  rw [handleEvent] at h
  split at h
  · split at h
    · obtain rfl := Option.some.inj h
      have hopened : (m.fopen event.opens).sent = m.sent := by
        cases event.opens <;> rfl
      rw [← hopened]
      exact hsend (m.fopen event.opens) _ event.sends (zero_notMem_createdMsg event.name)
    · split at h
      · obtain ⟨closed, hclosed, hm'⟩ := Option.bind_eq_some_iff.mp h
        obtain rfl := Option.some.inj hm'
        rw [← Monitor.sent_fclose hclosed]
        exact hsend closed _ event.sends (zero_notMem_deletedMsg event.name)
      · split at h
        · obtain ⟨stated, hstated, hm'⟩ := Option.bind_eq_some_iff.mp h
          obtain rfl := Option.some.inj hm'
          rw [← (Monitor.sent_fstat hstated).1]
          exact hsend stated _ event.sends (zero_notMem_sizeMsg _)
        · obtain rfl := Option.some.inj h
          exact hsend m [] event.sends List.not_mem_nil
  · obtain rfl := Option.some.inj h
    exact ⟨[], List.not_mem_nil, (List.append_nil _).symm⟩

theorem serverEvent_cases {path : CStr} {event : Event} (h : serverEvent path c event = some c') :
    c.server.phase = .monitoring ∧
      (c' = { c with server := { c.server with phase := .fault } } ∨
        ∃ (monitor : Monitor) (msg : List UInt8), (0 : UInt8) ∉ msg ∧
          monitor.sent = c.server.monitor.sent ++ msg ∧
          c' = { c with
            server := { c.server with monitor }
            toClient := c.toClient ++ msg }) := by
  rw [serverEvent, Option.ite_none_right_eq_some] at h
  refine ⟨h.1, ?_⟩
  cases hevent : handleEvent path c.server.monitor event with
  | none =>
      rw [hevent] at h
      exact Or.inl (Option.some.inj h.2).symm
  | some monitor =>
      rw [hevent] at h
      obtain ⟨msg, hnul, hsent⟩ := sent_of_handleEvent hevent
      refine Or.inr ⟨monitor, msg, hnul, hsent, ?_⟩
      rw [← Option.some.inj h.2, hsent, List.drop_left]

theorem serverEnd_cases (h : serverEnd c = some c') :
    c.server.phase = .monitoring ∧
      (c' = { c with server := { c.server with phase := .fault } } ∨
        ∃ monitor : Monitor, monitor.sent = c.server.monitor.sent ∧
          c' = { c with server := { c.server with phase := .exited, monitor } }) := by
  rw [serverEnd, Option.ite_none_right_eq_some] at h
  refine ⟨h.1, ?_⟩
  cases hclose : c.server.monitor.fclose with
  | none =>
      rw [hclose] at h
      exact Or.inl (Option.some.inj h.2).symm
  | some monitor =>
      rw [hclose] at h
      exact Or.inr ⟨monitor, Monitor.sent_fclose hclose, (Option.some.inj h.2).symm⟩

theorem serverOpen_cases {opens : Bool} (h : serverOpen c opens = some c') :
    c.server.phase = .subscribed ∧ ∃ monitor : Monitor,
      monitor.sent = c.server.monitor.sent ∧
      c' = { c with server := { c.server with
        phase := if opens then .monitoring else .exited, monitor } } := by
  rw [serverOpen, Option.ite_none_right_eq_some] at h
  refine ⟨h.1, c.server.monitor.fopen opens, ?_, (Option.some.inj h.2).symm⟩
  cases opens <;> rfl

theorem serverFail_cases (h : serverFail c = some c') :
    c' = { c with server := { c.server with phase := .exited } } := by
  rw [serverFail, Option.ite_none_left_eq_some] at h
  exact (Option.some.inj h.2).symm

end Steps

end CHomework.FileObserver
