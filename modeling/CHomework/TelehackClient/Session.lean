import CHomework.TelehackClient.Command
import CHomework.TelehackClient.Reply

namespace CHomework.TelehackClient

open CHomework.Buffer
open CHomework.Chunks
open CHomework.CString

/-- One result of `recv`: a chunk that fits in the buffer, or nothing when it fails. -/
abbrev Recv := Option (Chunk UInt8 netBuffSize)

/-- What the calls of the program return. The address is as `inet_ntoa` writes it, and
the buffer holds what its memory held before. -/
structure Calls where
  gethostbyname : Option (List UInt8)
  socket : Bool
  connect : Bool
  buf : Vector UInt8 netBuffSize
  recvs : List Recv
  send : Bool

/-- What a run has done when it ends, or when it waits in `recv`. The complaint is the
text that `fprintf` or `perror` gets. -/
structure Session where
  printed : List UInt8
  complaint : Option String
  sent : Option (List UInt8)
  unread : List Recv
  status : Option Nat

def ascii (text : String) : List UInt8 := text.toUTF8.toList

/-- What is printed before the first `recv`. -/
def greeting (font msg : CStr) (address : List UInt8) : List UInt8 :=
  ascii "Font: " ++ font.bytes ++ ascii "\n" ++ ascii "Message: " ++ msg.bytes ++ ascii "\n" ++
    ascii "Connecting to server " ++ address ++ ascii "...\n"

def exitFailure (printed : List UInt8) (complaint : String) (sent : Option (List UInt8))
    (unread : List Recv) : Session where
  printed := printed
  complaint := some complaint
  sent := sent
  unread := unread
  status := some 1

def blocked (printed : List UInt8) (sent : Option (List UInt8)) (unread : List Recv) :
    Session where
  printed := printed
  complaint := none
  sent := sent
  unread := unread
  status := none

def converse (calls : Calls) (font msg : CStr) (printed : List UInt8) : Option Session := do
  let (ended, recvs) ← helloLoop Chunk.bytes calls.recvs calls.buf.toList
  match ended with
  | .waiting => return blocked printed none recvs
  | .failed => return exitFailure printed "received data error" none recvs
  | .block =>
      let command ← sendCommand font msg
      if calls.send = false then
        return exitFailure printed "send command error" (some command) recvs
      else
        let (reply, recvs) ← receiveLoop Chunk.bytes recvs (List.replicate netBuffSize 0)
        let printed := printed ++ reply.printed
        match reply.ended with
        | .waiting => return blocked printed (some command) recvs
        | .failed => return exitFailure printed "received data error" (some command) recvs
        | .block =>
            return {
              printed := printed ++ ascii "\nConnecting was closed\n"
              complaint := none
              sent := some command
              unread := recvs
              status := some 0 }

def main (calls : Calls) (argv : List CStr) : Option Session :=
  match argv with
  | _ :: font :: argv =>
      let printed := ascii "Font: " ++ font.bytes ++ ascii "\n"
      match argv with
      | msg :: _ =>
          let printed := printed ++ ascii "Message: " ++ msg.bytes ++ ascii "\n"
          match calls.gethostbyname with
          | none => some (exitFailure printed "Gethostbyname failed\n" none calls.recvs)
          | some address =>
              if calls.socket = false then
                some (exitFailure printed "int socket error" none calls.recvs)
              else if calls.connect = false then
                some (exitFailure printed "connect error" none calls.recvs)
              else
                converse calls font msg
                  (printed ++ ascii "Connecting to server " ++ address ++ ascii "...\n")
      | [] => some (exitFailure printed "Message is require!" none calls.recvs)
  | _ => some (exitFailure [] "Telehack font is require!" none calls.recvs)

/-- The results of `recv` up to the first chunk that ends in a dot, and what is behind
it. Before it there is no failure and no empty chunk. -/
inductive Block : List Recv → List (Chunk UInt8 netBuffSize) → List Recv → Prop
  | last {chunk : Chunk UInt8 netBuffSize} {recvs : List Recv} :
      EndsBlock chunk → Block (some chunk :: recvs) [chunk] recvs
  | more {chunk : Chunk UInt8 netBuffSize} {recvs rest : List Recv}
      {chunks : List (Chunk UInt8 netBuffSize)} :
      chunk.bytes ≠ [] → ¬ EndsBlock chunk → Block recvs chunks rest →
        Block (some chunk :: recvs) (chunk :: chunks) rest

theorem not_block_nil {chunks : List (Chunk UInt8 netBuffSize)} {rest : List Recv} :
    ¬ Block [] chunks rest := by
  intro h
  cases h

theorem not_block_failed {chunks : List (Chunk UInt8 netBuffSize)} {recvs rest : List Recv} :
    ¬ Block (none :: recvs) chunks rest := by
  intro h
  cases h

theorem block_cons_of_endsBlock {chunk : Chunk UInt8 netBuffSize} (hends : EndsBlock chunk)
    {chunks : List (Chunk UInt8 netBuffSize)} {recvs rest : List Recv} :
    Block (some chunk :: recvs) chunks rest ↔ chunks = [chunk] ∧ rest = recvs := by
  constructor
  · intro h
    cases h with
    | last => exact ⟨rfl, rfl⟩
    | more _ hinner => exact absurd hends hinner
  · rintro ⟨rfl, rfl⟩
    exact .last hends

theorem block_cons_of_not_endsBlock {chunk : Chunk UInt8 netBuffSize}
    (hinner : ¬ EndsBlock chunk) {chunks : List (Chunk UInt8 netBuffSize)}
    {recvs rest : List Recv} :
    Block (some chunk :: recvs) chunks rest ↔
      chunk.bytes ≠ [] ∧ ∃ chunks', chunks = chunk :: chunks' ∧ Block recvs chunks' rest := by
  constructor
  · intro h
    cases h with
    | last hends => exact absurd hends hinner
    | more hne _ hblock => exact ⟨hne, _, rfl, hblock⟩
  · rintro ⟨hne, chunks', rfl, hblock⟩
    exact .more hne hinner hblock

theorem Block.recvs_eq {recvs rest : List Recv} {chunks : List (Chunk UInt8 netBuffSize)}
    (h : Block recvs chunks rest) : recvs = chunks.map some ++ rest := by
  induction h with
  | last => rfl
  | more _ _ _ ih => rw [ih, List.map_cons, List.cons_append]

theorem Block.countP_eq {recvs rest : List Recv} {chunks : List (Chunk UInt8 netBuffSize)}
    (h : Block recvs chunks rest) : chunks.countP EndsBlock = 1 := by
  induction h with
  | last hends => simp [hends]
  | more _ hinner _ ih => simpa [hinner] using ih

/-- Chunks of which only the last one ends in a dot are one block, with anything behind
them. -/
theorem block_of_countP {chunks : List (Chunk UInt8 netBuffSize)}
    (hne : ∀ chunk ∈ chunks, chunk.bytes ≠ []) (hone : chunks.countP EndsBlock = 1)
    (hlast : ∀ chunk, chunks.getLast? = some chunk → EndsBlock chunk) (rest : List Recv) :
    Block (chunks.map some ++ rest) chunks rest := by
  induction chunks with
  | nil => simp at hone
  | cons chunk chunks ih =>
      by_cases hends : EndsBlock chunk
      · have hzero : chunks.countP EndsBlock = 0 := by
          simpa [hends] using hone
        cases chunks with
        | nil => exact .last hends
        | cons next chunks =>
            obtain ⟨last, hmem⟩ : ∃ last, (next :: chunks).getLast? = some last :=
              ⟨_, List.getLast?_eq_some_getLast (List.cons_ne_nil _ _)⟩
            have hnone := List.countP_eq_zero.mp hzero last (List.mem_of_getLast? hmem)
            refine absurd (hlast last ?_) (by simpa using hnone)
            rw [List.getLast?_cons_cons, hmem]
      · have hrest : chunks.countP EndsBlock = 1 := by
          simpa [hends] using hone
        refine .more (hne chunk List.mem_cons_self) hends
          (ih (fun c hc => hne c (List.mem_cons_of_mem _ hc)) hrest fun last hmem => hlast last ?_)
        cases chunks with
        | nil => simp at hmem
        | cons next chunks => rw [List.getLast?_cons_cons, hmem]

theorem helloLoop_eq_block_iff {buf : List UInt8} (hbuf : buf.length = netBuffSize)
    (recvs rest : List Recv) :
    helloLoop Chunk.bytes recvs buf = some (.block, rest) ↔ ∃ chunks, Block recvs chunks rest := by
  induction recvs generalizing buf with
  | nil => simp [helloLoop, not_block_nil]
  | cons recv recvs ih =>
      cases recv with
      | none => simp [helloLoop, not_block_failed]
      | some chunk =>
          have hroom : chunk.bytes.length ≤ buf.length := by
            rw [hbuf]
            exact chunk.length_le
          rw [helloLoop_cons hroom]
          by_cases hends : EndsBlock chunk
          · rw [hends, Option.bind_some, if_pos rfl]
            simp only [block_cons_of_endsBlock hends]
            simp [eq_comm]
          · have hnext : (overwrite buf 0 chunk.bytes).length = netBuffSize := by
              rw [length_overwrite (by rwa [Nat.zero_add]), hbuf]
            simp only [block_cons_of_not_endsBlock hends]
            rcases hlast : chunk.bytes.getLast? with _ | last
            · have hempty := List.getLast?_eq_none_iff.mp hlast
              simp [hempty]
            · have hne := List.ne_nil_of_mem (List.mem_of_getLast? hlast)
              have hdot : ¬ last = endTelehackBlock := by
                rintro rfl
                exact hends hlast
              rw [Option.bind_some, if_neg hdot, ih hnext]
              constructor
              · rintro ⟨chunks, hblock⟩
                exact ⟨_, hne, chunks, rfl, hblock⟩
              · rintro ⟨_, _, chunks, _, hblock⟩
                exact ⟨chunks, hblock⟩

instance : DecidablePred Overruns := by
  unfold Overruns
  infer_instance

def shown (chunks : List (Chunk UInt8 netBuffSize)) : List UInt8 :=
  chunks.flatMap fun chunk => (ofBuffer chunk.bytes).bytes

/-- The receive loop ends behind the next block, and prints it chunk by chunk. -/
theorem receiveLoop_eq_block_iff (recvs rest : List Recv) (printed : List UInt8) :
    receiveLoop Chunk.bytes recvs (List.replicate netBuffSize 0) =
        some ({ printed := printed, ended := .block }, rest) ↔
      ∃ chunks, Block recvs chunks rest ∧ (∀ chunk ∈ chunks, ¬ Overruns chunk) ∧
        printed = shown chunks := by
  induction recvs generalizing printed with
  | nil => simp [receiveLoop, not_block_nil]
  | cons recv recvs ih =>
      cases recv with
      | none => simp [receiveLoop, not_block_failed]
      | some chunk =>
          rw [receiveLoop_cons chunk.length_le]
          by_cases hover : Overruns chunk
          · rw [if_pos (show _ ∧ _ from hover)]
            refine iff_of_false (by simp) ?_
            rintro ⟨chunks, hblock, hfits, -⟩
            cases hblock with
            | last => exact hfits chunk List.mem_cons_self hover
            | more => exact hfits chunk List.mem_cons_self hover
          rw [if_neg (show ¬ (_ ∧ _) from hover)]
          by_cases hends : EndsBlock chunk
          · rw [hends, Option.bind_some, if_pos rfl]
            simp only [block_cons_of_endsBlock hends]
            simp [shown, hover, eq_comm, and_comm]
          · simp only [block_cons_of_not_endsBlock hends]
            rcases hlast : chunk.bytes.getLast? with _ | last
            · have hempty := List.getLast?_eq_none_iff.mp hlast
              simp [hempty]
            · have hne := List.ne_nil_of_mem (List.mem_of_getLast? hlast)
              have hdot : ¬ last = endTelehackBlock := by
                rintro rfl
                exact hends hlast
              rw [Option.bind_some, if_neg hdot, Option.map_eq_some_iff]
              constructor
              · rintro ⟨⟨⟨printed', ended⟩, rest'⟩, hloop, heq⟩
                simp only [Prod.mk.injEq, Reply.mk.injEq] at heq
                obtain ⟨⟨rfl, rfl⟩, rfl⟩ := heq
                obtain ⟨chunks, hblock, hfits, rfl⟩ := (ih printed').mp hloop
                exact ⟨chunk :: chunks, ⟨hne, chunks, rfl, hblock⟩,
                  List.forall_mem_cons.mpr ⟨hover, hfits⟩, rfl⟩
              · rintro ⟨_, ⟨-, chunks, rfl, hblock⟩, hfits, rfl⟩
                exact ⟨_, (ih _).mpr ⟨chunks, hblock, (List.forall_mem_cons.mp hfits).2, rfl⟩,
                  rfl⟩

def closed (printed shown command : List UInt8) (rest : List Recv) : Session where
  printed := printed ++ shown ++ ascii "\nConnecting was closed\n"
  complaint := none
  sent := some command
  unread := rest
  status := some 0

theorem main_eq_converse {calls : Calls} {address : List UInt8}
    (haddress : calls.gethostbyname = some address) (hsocket : calls.socket = true)
    (hconnect : calls.connect = true) (program font msg : CStr) (more : List CStr) :
    main calls (program :: font :: msg :: more) =
      converse calls font msg (greeting font msg address) := by
  simp only [main, haddress, hsocket, hconnect, greeting]
  simp

/-- The arguments and the answers of the system under which the client gets to talk to
the server. -/
structure Connects (calls : Calls) (argv : List CStr) (font msg : CStr)
    (address : List UInt8) : Prop where
  argv : ∃ program more, argv = program :: font :: msg :: more
  address : calls.gethostbyname = some address
  socket : calls.socket = true
  connect : calls.connect = true

/-- A program that ends well has read two blocks, and has sent the command between
them. -/
theorem converse_closes_iff (calls : Calls) (font msg : CStr) (printed : List UInt8)
    (session : Session) :
    converse calls font msg printed = some session ∧ session.status = some 0 ↔
      calls.send = true ∧ ∃ hello answer recvs rest,
        Block calls.recvs hello recvs ∧ Block recvs answer rest ∧
          (∀ chunk ∈ answer, ¬ Overruns chunk) ∧
          session = closed printed (shown answer) (commandBody font msg ++ [0x0d, 0]) rest := by
  have hbuf : calls.buf.toList.length = netBuffSize := by simp
  constructor
  · rintro ⟨hrun, hstatus⟩
    rw [converse] at hrun
    obtain ⟨⟨ended, recvs⟩, hhello, hrun⟩ := Option.bind_eq_some_iff.mp hrun
    cases ended with
    | waiting => exact absurd hstatus (by simp [← Option.some.inj hrun, blocked])
    | failed => exact absurd hstatus (by simp [← Option.some.inj hrun, exitFailure])
    | block =>
        obtain ⟨hello, hhello⟩ := (helloLoop_eq_block_iff hbuf _ _).mp hhello
        simp only [sendCommand_eq, Option.bind_eq_bind, Option.bind_some] at hrun
        split at hrun
        · exact absurd hstatus (by simp [← Option.some.inj hrun, exitFailure])
        rename_i hsend
        obtain ⟨⟨⟨text, ended⟩, rest⟩, hloop, hrun⟩ := Option.bind_eq_some_iff.mp hrun
        cases ended with
        | waiting => exact absurd hstatus (by simp [← Option.some.inj hrun, blocked])
        | failed => exact absurd hstatus (by simp [← Option.some.inj hrun, exitFailure])
        | block =>
            obtain ⟨answer, hanswer, hfits, rfl⟩ := (receiveLoop_eq_block_iff _ _ _).mp hloop
            exact ⟨by simpa using hsend, hello, answer, recvs, rest, hhello, hanswer, hfits,
              (Option.some.inj hrun).symm⟩
  · rintro ⟨hsend, hello, answer, recvs, rest, hhello, hanswer, hfits, rfl⟩
    have hfirst := (helloLoop_eq_block_iff hbuf _ _).mpr ⟨hello, hhello⟩
    have hsecond := (receiveLoop_eq_block_iff recvs rest _).mpr ⟨answer, hanswer, hfits, rfl⟩
    refine ⟨?_, rfl⟩
    rw [converse, hfirst]
    simp only [Option.bind_eq_bind, Option.bind_some, sendCommand_eq, hsend, hsecond]
    rfl

/-- The program ends well exactly when it is given a font and a message, reaches the
server, and the server sends two blocks that can be printed. -/
theorem main_closes_iff (calls : Calls) (argv : List CStr) (session : Session) :
    main calls argv = some session ∧ session.status = some 0 ↔
      ∃ font msg address, Connects calls argv font msg address ∧ calls.send = true ∧
        ∃ hello answer recvs rest,
          Block calls.recvs hello recvs ∧ Block recvs answer rest ∧
            (∀ chunk ∈ answer, ¬ Overruns chunk) ∧
            session = closed (greeting font msg address) (shown answer)
              (commandBody font msg ++ [0x0d, 0]) rest := by
  constructor
  · rintro ⟨hrun, hstatus⟩
    have hexits : ∀ {printed complaint sent unread},
        ¬ some (exitFailure printed complaint sent unread) = some session := by
      intro printed complaint sent unread h
      simp [← Option.some.inj h, exitFailure] at hstatus
    match argv with
    | [] => exact absurd hrun hexits
    | [_] => exact absurd hrun hexits
    | [_, _] => exact absurd hrun hexits
    | program :: font :: msg :: more =>
        cases haddress : calls.gethostbyname with
        | none =>
            simp only [main, haddress] at hrun
            exact absurd hrun hexits
        | some address =>
            cases hsocket : calls.socket with
            | false =>
                simp only [main, haddress, hsocket, if_pos] at hrun
                exact absurd hrun hexits
            | true =>
                cases hconnect : calls.connect with
                | false =>
                    simp only [main, haddress, hsocket, hconnect, Bool.true_eq_false, if_false,
                      if_pos] at hrun
                    exact absurd hrun hexits
                | true =>
                    rw [main_eq_converse haddress hsocket hconnect] at hrun
                    exact ⟨font, msg, address, ⟨⟨program, more, rfl⟩, haddress, hsocket, hconnect⟩,
                      (converse_closes_iff _ _ _ _ _).mp ⟨hrun, hstatus⟩⟩
  · rintro ⟨font, msg, address, ⟨⟨program, more, rfl⟩, haddress, hsocket, hconnect⟩, hconverse⟩
    rw [main_eq_converse haddress hsocket hconnect]
    exact (converse_closes_iff _ _ _ _ _).mpr hconverse

section Cuts

variable {limit : Nat} {stream : List UInt8} {chunks : List (Chunk UInt8 netBuffSize)}

theorem ne_nil_of_cut (h : Cut limit stream (chunks.map Chunk.bytes)) :
    ∀ chunk ∈ chunks, chunk.bytes ≠ [] :=
  fun _ hchunk => h.ne_nil _ (List.mem_map_of_mem hchunk)

/-- The last chunk of a message that ends in a dot ends in it. -/
theorem endsBlock_getLast_of_cut
    (h : Cut limit (stream ++ [endTelehackBlock]) (chunks.map Chunk.bytes)) :
    ∀ chunk, chunks.getLast? = some chunk → EndsBlock chunk := by
  intro chunk hlast
  obtain ⟨before, rfl⟩ := List.getLast?_eq_some_iff.mp hlast
  have hne := ne_nil_of_cut h chunk (by simp)
  have hflatten := congrArg List.getLast? h.flatten_eq
  rw [List.map_append, List.flatten_append, List.getLast?_concat] at hflatten
  rw [EndsBlock, ← hflatten]
  simp [List.getLast?_append_of_ne_nil _ hne]

theorem countP_pos_of_cut
    (h : Cut limit (stream ++ [endTelehackBlock]) (chunks.map Chunk.bytes)) :
    0 < chunks.countP EndsBlock := by
  have hne : chunks ≠ [] := by
    rintro rfl
    have := h.flatten_eq
    simp at this
  have hlast := List.getLast?_eq_some_getLast hne
  rw [List.countP_pos_iff]
  exact ⟨_, List.mem_of_getLast? hlast, decide_eq_true (endsBlock_getLast_of_cut h _ hlast)⟩

theorem shown_eq_of_cut (h : Cut limit stream (chunks.map Chunk.bytes))
    (hnul : (0 : UInt8) ∉ stream) : shown chunks = stream := by
  rw [shown, List.flatMap_def, ← h.flatten_eq]
  congr 1
  apply List.map_congr_left
  intro chunk hchunk
  have hchunk' := List.mem_map_of_mem (f := Chunk.bytes) hchunk
  have hnone : (0 : UInt8) ∉ chunk.bytes := by
    intro hmem
    apply hnul
    rw [← h.flatten_eq]
    exact List.mem_flatten_of_mem hchunk' hmem
  exact congrArg CStr.bytes (ofBuffer_bytes ⟨chunk.bytes, hnone⟩)

end Cuts

/-- The client prints the whole answer, and nothing else of what the server sends,
exactly when the network cuts neither the greeting of the server nor its answer right
behind an inner dot. -/
theorem main_eq_closed_iff {calls : Calls} {argv : List CStr} {font msg : CStr}
    {address : List UInt8} (hconnects : Connects calls argv font msg address)
    (hsend : calls.send = true) {hello : List UInt8} {text : CStr}
    {hellos answers : List (Chunk UInt8 netBuffSize)} {rest : List Recv}
    (hhello : Cut netBuffSize (hello ++ [endTelehackBlock]) (hellos.map Chunk.bytes))
    (hanswer : Cut (netBuffSize - 1) (answer text) (answers.map Chunk.bytes))
    (hrecvs : calls.recvs = (hellos ++ answers).map some ++ rest) :
    main calls argv = some (closed (greeting font msg address) (answer text)
        (commandBody font msg ++ [0x0d, 0]) rest) ↔
      hellos.countP EndsBlock = 1 ∧ answers.countP EndsBlock = 1 := by
  have hpos := countP_pos_of_cut hhello
  have hpos' : 0 < answers.countP EndsBlock := countP_pos_of_cut hanswer
  have hnul : (0 : UInt8) ∉ answer text := by
    simp [answer, endTelehackBlock, text.noNul]
  constructor
  · intro hrun
    obtain ⟨_, _, _, _, _, hello', answer', recvs, rest', hblock, hblock', -, hclosed⟩ :=
      (main_closes_iff _ _ _).mp ⟨hrun, rfl⟩
    obtain rfl : rest = rest' := congrArg Session.unread hclosed
    have hsame : (hellos ++ answers).map some = (hello' ++ answer').map some := by
      have heq := hblock.recvs_eq
      rw [hrecvs, hblock'.recvs_eq, ← List.append_assoc, ← List.map_append] at heq
      exact List.append_cancel_right heq
    have hcount := congrArg (List.countP EndsBlock)
      (List.map_injective_iff.mpr (fun _ _ => Option.some.inj) hsame)
    rw [List.countP_append, List.countP_append, hblock.countP_eq, hblock'.countP_eq] at hcount
    omega
  · rintro ⟨hone, hone'⟩
    have hblock := block_of_countP (ne_nil_of_cut hhello) hone (endsBlock_getLast_of_cut hhello)
      (answers.map some ++ rest)
    have hblock' := block_of_countP (ne_nil_of_cut hanswer) hone'
      (endsBlock_getLast_of_cut hanswer) rest
    have hfits : ∀ chunk ∈ answers, ¬ Overruns chunk := by
      intro chunk hchunk hover
      have hle := hanswer.length_le _ (List.mem_map_of_mem hchunk)
      rw [hover.1] at hle
      exact absurd hle (by decide)
    rw [← List.append_assoc, ← List.map_append, ← hrecvs] at hblock
    have hrun := (main_closes_iff calls argv _).mpr
      ⟨font, msg, address, hconnects, hsend, hellos, answers, _, rest, hblock, hblock', hfits, rfl⟩
    rw [shown_eq_of_cut hanswer hnul] at hrun
    exact hrun.1

def sampleHello : List (Chunk UInt8 netBuffSize) :=
  [⟨[0x68, 0x69], by decide⟩, ⟨[0x2e], by decide⟩]

def sampleAnswer : List (Chunk UInt8 netBuffSize) :=
  [⟨[0x61], by decide⟩, ⟨[0x2e], by decide⟩]

def sampleCalls : Calls where
  gethostbyname := some [0x31]
  socket := true
  connect := true
  buf := Vector.replicate netBuffSize 0
  recvs := (sampleHello ++ sampleAnswer).map some ++ []
  send := true

theorem main_eq_closed_sample :
    main sampleCalls [ofBuffer [0x74], ofBuffer [0x66], ofBuffer [0x6d]] =
      some (closed (greeting (ofBuffer [0x66]) (ofBuffer [0x6d]) [0x31]) [0x61, 0x2e]
        [0x66, 0x69, 0x67, 0x6c, 0x65, 0x74, 0x20, 0x2f, 0x66, 0x20, 0x6d, 0x0d, 0] []) := by
  have hhello : Cut netBuffSize ([0x68, 0x69] ++ [endTelehackBlock])
      (sampleHello.map Chunk.bytes) := ⟨by decide, by decide, by decide⟩
  have hanswer : Cut (netBuffSize - 1) (answer (ofBuffer [0x61]))
      (sampleAnswer.map Chunk.bytes) := ⟨by decide, by decide, by decide⟩
  exact (main_eq_closed_iff ⟨⟨_, [], rfl⟩, rfl, rfl, rfl⟩ rfl hhello hanswer rfl).mpr
    ⟨by decide, by decide⟩

end CHomework.TelehackClient
