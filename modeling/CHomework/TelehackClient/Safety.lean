import CHomework.Lib.Chunks
import CHomework.TelehackClient.Model

namespace CHomework.TelehackClient

open CHomework.Buffer
open CHomework.Chunks
open CHomework.CString

/-- The results of `recv`, none of which fails. -/
def received (chunks : List (Chunk UInt8 netBuffSize)) : List (Option (List UInt8)) :=
  chunks.map fun chunk => some chunk.bytes

def EndsBlock (chunk : Chunk UInt8 netBuffSize) : Prop :=
  chunk.bytes.getLast? = some endTelehackBlock

instance : DecidablePred EndsBlock := by
  unfold EndsBlock
  infer_instance

/-- A loop makes no access outside its buffer, and when the connection was closed
it does not wait for more. -/
structure ClosesSafely (chunks : List (Chunk UInt8 netBuffSize)) (ended : Option End) :
    Prop where
  inside : ended.isSome
  closes : (∃ chunk ∈ chunks, chunk.bytes = []) → ended ≠ some .waiting

theorem closesSafely_nil : ClosesSafely [] (some .waiting) where
  inside := rfl
  closes := by simp

theorem not_closesSafely_none (chunks : List (Chunk UInt8 netBuffSize)) :
    ¬ ClosesSafely chunks none := by
  intro h
  cases h.inside

theorem closesSafely_block (chunks : List (Chunk UInt8 netBuffSize)) :
    ClosesSafely chunks (some .block) where
  inside := rfl
  closes := fun _ => by simp

theorem closesSafely_cons_iff {chunk : Chunk UInt8 netBuffSize}
    {chunks : List (Chunk UInt8 netBuffSize)} {ended : Option End} (hne : chunk.bytes ≠ []) :
    ClosesSafely (chunk :: chunks) ended ↔ ClosesSafely chunks ended := by
  have hclosed : (∃ c ∈ chunk :: chunks, c.bytes = []) ↔ ∃ c ∈ chunks, c.bytes = [] := by
    simp [hne]
  constructor
  · intro h
    exact ⟨h.inside, fun hc => h.closes (hclosed.mpr hc)⟩
  · intro h
    exact ⟨h.inside, fun hc => h.closes (hclosed.mp hc)⟩

theorem lastReceived_overwrite (buf bytes : List UInt8) :
    lastReceived (overwrite buf 0 bytes) bytes.length = bytes.getLast? := by
  rw [lastReceived, List.getLast?_eq_getElem?]
  split
  · rename_i hzero
    rw [List.length_eq_zero_iff.mp hzero]
    rfl
  · rename_i hne
    rw [load, overwrite, List.take_zero, List.nil_append,
      List.getElem?_append_left (by omega)]

theorem helloLoop_cons {ρ : Type} {bytesOf : ρ → List UInt8} {packet : ρ} {buf : List UInt8}
    (hroom : (bytesOf packet).length ≤ buf.length) (recvs : List (Option ρ)) :
    helloLoop bytesOf (some packet :: recvs) buf = (bytesOf packet).getLast?.bind fun last =>
      if last = endTelehackBlock then some (.block, recvs)
      else helloLoop bytesOf recvs (overwrite buf 0 (bytesOf packet)) := by
  rw [helloLoop, storeRange, if_pos hroom]
  show (lastReceived _ _).bind _ = _
  rw [lastReceived_overwrite]
  rfl

/-- Only an empty chunk takes the hello loop out of its buffer. The induction is
on the chunks, for any content of the buffer. -/
theorem helloLoop_closesSafely_iff {buf : List UInt8} (hbuf : buf.length = netBuffSize)
    (chunks : List (Chunk UInt8 netBuffSize)) :
    ClosesSafely chunks ((helloLoop id (received chunks) buf).map Prod.fst) ↔
      ∀ chunk ∈ upTo EndsBlock chunks, chunk.bytes ≠ [] := by
  induction chunks generalizing buf with
  | nil => simp [received, helloLoop, upTo, closesSafely_nil]
  | cons chunk chunks ih =>
      have hroom : chunk.bytes.length ≤ buf.length := by
        rw [hbuf]
        exact chunk.length_le
      rw [forall_mem_upTo_cons, received, List.map_cons, @helloLoop_cons _ id _ _ hroom, EndsBlock,
        id_eq]
      rcases hlast : chunk.bytes.getLast? with _ | last
      · have hempty := List.getLast?_eq_none_iff.mp hlast
        simp [hempty, not_closesSafely_none]
      · have hne := List.ne_nil_of_mem (List.mem_of_getLast? hlast)
        rw [Option.bind_some]
        split
        · rename_i hdot
          simp [hdot, hne, closesSafely_block]
        · rename_i hdot
          have hnext : (overwrite buf 0 chunk.bytes).length = netBuffSize := by
            rw [length_overwrite (by rwa [Nat.zero_add]), hbuf]
          rw [closesSafely_cons_iff hne, ← received, ih hnext]
          simp [hne, hdot]

/-- A chunk that fills the buffer and has no NUL leaves no end to the string that
is printed. -/
def Overruns (chunk : Chunk UInt8 netBuffSize) : Prop :=
  chunk.bytes.length = netBuffSize ∧ 0 ∉ chunk.bytes

theorem receiveLoop_cons {ρ : Type} {bytesOf : ρ → List UInt8} {packet : ρ}
    (hle : (bytesOf packet).length ≤ netBuffSize) (recvs : List (Option ρ)) :
    receiveLoop bytesOf (some packet :: recvs) (List.replicate netBuffSize 0) =
      if (bytesOf packet).length = netBuffSize ∧ 0 ∉ bytesOf packet then none
      else (bytesOf packet).getLast?.bind fun last =>
        if last = endTelehackBlock then
          some ({ printed := (ofBuffer (bytesOf packet)).bytes, ended := .block }, recvs)
        else (receiveLoop bytesOf recvs (List.replicate netBuffSize 0)).map fun result =>
          ({ result.1 with printed := (ofBuffer (bytesOf packet)).bytes ++ result.1.printed },
            result.2) := by
  have hlast := lastReceived_overwrite (List.replicate netBuffSize 0) (bytesOf packet)
  rw [overwrite, List.take_zero, List.nil_append, Nat.zero_add, List.drop_replicate] at hlast
  rw [receiveLoop, storeRange_replicate 0 hle]
  show (readString _).bind _ = _
  rw [readString_zeroed_eq hle]
  split
  · rfl
  show (lastReceived _ _).bind _ = _
  rw [hlast]
  congr 1
  funext last
  split
  · rfl
  · rw [Option.map_eq_bind]
    rfl

theorem receive_cons_eq {bytes : List UInt8} (hle : bytes.length ≤ netBuffSize)
    (recvs : List (Option (List UInt8))) :
    receive (some bytes :: recvs) =
      if bytes.length = netBuffSize ∧ 0 ∉ bytes then none
      else bytes.getLast?.bind fun last =>
        if last = endTelehackBlock then
          some { printed := (ofBuffer bytes).bytes, ended := .block }
        else (receive recvs).map fun reply =>
          { reply with printed := (ofBuffer bytes).bytes ++ reply.printed } := by
  have hloop : receiveLoop id (some bytes :: recvs) (List.replicate netBuffSize 0) = _ :=
    receiveLoop_cons hle recvs
  rw [receive, hloop, id_eq]
  split
  · rfl
  cases bytes.getLast? with
  | none => rfl
  | some last =>
      rw [Option.bind_some, Option.bind_some]
      split
      · rfl
      · rw [receive, Option.map_map, Option.map_map]
        rfl

theorem receive_cons_of_overruns {chunk : Chunk UInt8 netBuffSize} (h : Overruns chunk)
    (recvs : List (Option (List UInt8))) : receive (some chunk.bytes :: recvs) = none := by
  rw [Overruns] at h
  rw [receive_cons_eq chunk.length_le, if_pos h]

theorem ended_receive_cons {chunk : Chunk UInt8 netBuffSize} (h : ¬ Overruns chunk)
    (recvs : List (Option (List UInt8))) :
    (receive (some chunk.bytes :: recvs)).map Reply.ended = chunk.bytes.getLast?.bind fun last =>
      if last = endTelehackBlock then some .block else (receive recvs).map Reply.ended := by
  rw [Overruns] at h
  rw [receive_cons_eq chunk.length_le, if_neg h]
  cases chunk.bytes.getLast? with
  | none => rfl
  | some last =>
      rw [Option.bind_some, Option.bind_some]
      split
      · rfl
      · rw [Option.map_map]
        rfl

theorem receive_closesSafely_iff (chunks : List (Chunk UInt8 netBuffSize)) :
    ClosesSafely chunks ((receive (received chunks)).map Reply.ended) ↔
      ∀ chunk ∈ upTo EndsBlock chunks, chunk.bytes ≠ [] ∧ ¬ Overruns chunk := by
  induction chunks with
  | nil => simp [received, receive, receiveLoop, upTo, closesSafely_nil]
  | cons chunk chunks ih =>
      rw [forall_mem_upTo_cons, received, List.map_cons]
      by_cases hover : Overruns chunk
      · simp [receive_cons_of_overruns hover, hover, not_closesSafely_none]
      · rw [ended_receive_cons hover, EndsBlock]
        rcases hlast : chunk.bytes.getLast? with _ | last
        · have hempty := List.getLast?_eq_none_iff.mp hlast
          simp [hempty, not_closesSafely_none]
        · have hne := List.ne_nil_of_mem (List.mem_of_getLast? hlast)
          rw [Option.bind_some]
          split
          · rename_i hdot
            simp [hdot, hne, hover, closesSafely_block]
          · rename_i hdot
            rw [closesSafely_cons_iff hne, ← received, ih]
            simp [hne, hover, hdot]

/-- Both loops, each on its own results. The buffer of the first one holds what
its memory held before. -/
structure LoopsSafe (buf : Vector UInt8 netBuffSize)
    (hellos answers : List (Chunk UInt8 netBuffSize)) : Prop where
  hello : ClosesSafely hellos ((helloLoop id (received hellos) buf.toList).map Prod.fst)
  answer : ClosesSafely answers ((receive (received answers)).map Reply.ended)

/-- The loops are safe as long as no chunk that they get to is empty, and none
that is printed fills the buffer without a NUL. -/
theorem loopsSafe_iff (buf : Vector UInt8 netBuffSize)
    (hellos answers : List (Chunk UInt8 netBuffSize)) :
    LoopsSafe buf hellos answers ↔
      (∀ chunk ∈ upTo EndsBlock hellos, chunk.bytes ≠ []) ∧
        ∀ chunk ∈ upTo EndsBlock answers, chunk.bytes ≠ [] ∧ ¬ Overruns chunk := by
  have hbuf : buf.toList.length = netBuffSize := by simp
  rw [← helloLoop_closesSafely_iff hbuf, ← receive_closesSafely_iff]
  constructor
  · intro h
    exact ⟨h.hello, h.answer⟩
  · rintro ⟨hhello, hanswer⟩
    exact ⟨hhello, hanswer⟩

/-- The server closes the connection without a word. -/
theorem not_loopsSafe_of_closed : ¬ ∀ buf hellos answers, LoopsSafe buf hellos answers := by
  intro h
  have hinside := (h (Vector.replicate netBuffSize 0) [] [⟨[], Nat.zero_le _⟩]).answer.inside
  rw [received, List.map_singleton, ended_receive_cons (by simp [Overruns, netBuffSize])] at hinside
  cases hinside

end CHomework.TelehackClient
