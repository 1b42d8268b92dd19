import CHomework.FileObserver.Model
import CHomework.Lib.Chunks

namespace CHomework.FileObserver

open CHomework.Buffer
open CHomework.Chunks
open CHomework.CString

/-- A round in which `recv` does not fail. -/
structure Exchange where
  chunk : Chunk UInt8 socketBuf
  sent : Bool

def Exchange.round (exchange : Exchange) : Round where
  received := some exchange.chunk.bytes
  sent := exchange.sent

/-- What comes after a round: the loop ends, or it goes on with this buffer. -/
inductive Next where
  | ends (how : Handshake)
  | goesOn (buf : List UInt8)

/-- One round of the loop: the string that it prints and compares, and what comes
after it. -/
def exchangeRound (exchange : Exchange) (buf : List UInt8) : Option (CStr × Next) := do
  let buf ← storeRange buf exchange.chunk.bytes
  let command ← readString buf
  if strcmp command subscribeCmd = 0 then return (command, .ends .subscribed)
  else if exchange.sent = false then return (command, .ends .failed)
  else return (command, .goesOn (List.replicate socketBuf 0))

theorem handshakeLoop_cons (exchange : Exchange) (rounds : List Round) (buf : List UInt8) :
    handshakeLoop (exchange.round :: rounds) buf =
      (exchangeRound exchange buf).bind fun result =>
        match result.2 with
        | .ends how => some how
        | .goesOn buf => handshakeLoop rounds buf := by
  rcases exchange with ⟨chunk, sent⟩
  rw [handshakeLoop, exchangeRound]
  dsimp only [Exchange.round]
  cases storeRange buf chunk.bytes with
  | none => rfl
  | some buf =>
      show (readString buf).bind _ = ((readString buf).bind _).bind _
      cases readString buf with
      | none => rfl
      | some command =>
          show (if _ then _ else _) = Option.bind (if _ then _ else _) _
          split
          · rfl
          · cases sent with
            | false => rfl
            | true => rfl

/-- In every round the string ends inside the buffer and is part of what was
received in that round, and the loop does not go on when nothing was. -/
def Robust : List Exchange → List UInt8 → Prop
  | [], _ => True
  | exchange :: exchanges, buf =>
      ∃ command next, exchangeRound exchange buf = some (command, next) ∧
        command.bytes <+: exchange.chunk.bytes ∧
          ∀ buf, next = .goesOn buf → exchange.chunk.bytes ≠ [] ∧ Robust exchanges buf

/-- The command is there, up to the end of the chunk or to its first NUL. -/
def Subscribes (exchange : Exchange) : Prop := ofBuffer exchange.chunk.bytes = subscribeCmd

def EndsLoop (exchange : Exchange) : Prop := Subscribes exchange ∨ exchange.sent = false

instance : DecidablePred Subscribes := by
  unfold Subscribes
  infer_instance

instance : DecidablePred EndsLoop := by
  unfold EndsLoop
  infer_instance

/-- A chunk that fills the buffer and has no NUL leaves no end to the string. -/
def FillsBuffer (exchange : Exchange) : Prop :=
  exchange.chunk.bytes.length = socketBuf ∧ 0 ∉ exchange.chunk.bytes

instance : DecidablePred FillsBuffer := by
  unfold FillsBuffer
  infer_instance

/-- The client has closed its side, and the answer can still be sent. -/
def AnsweredClosed (exchange : Exchange) : Prop :=
  exchange.chunk.bytes = [] ∧ exchange.sent = true

theorem exchangeRound_of_fillsBuffer {exchange : Exchange} (h : FillsBuffer exchange) :
    exchangeRound exchange (List.replicate socketBuf 0) = none := by
  rw [FillsBuffer] at h
  rw [exchangeRound, storeRange_replicate 0 exchange.chunk.length_le]
  show (readString _).bind _ = _
  rw [readString_zeroed_eq exchange.chunk.length_le, if_pos h]
  rfl

theorem exchangeRound_eq {exchange : Exchange} (h : ¬ FillsBuffer exchange) :
    exchangeRound exchange (List.replicate socketBuf 0) =
      some (ofBuffer exchange.chunk.bytes,
        if Subscribes exchange then .ends .subscribed
        else if exchange.sent = false then .ends .failed
        else .goesOn (List.replicate socketBuf 0)) := by
  have hcmp : strcmp (ofBuffer exchange.chunk.bytes) subscribeCmd = 0 ↔ Subscribes exchange :=
    strcmp_eq_zero_iff _ _
  rw [FillsBuffer] at h
  rw [exchangeRound, storeRange_replicate 0 exchange.chunk.length_le]
  show (readString _).bind _ = _
  rw [readString_zeroed_eq exchange.chunk.length_le, if_neg h]
  show (if strcmp _ _ = 0 then _ else _) = _
  simp only [hcmp]
  split
  · rfl
  · split
    · rfl
    · rfl

theorem goesOn_iff {exchange : Exchange} {buf zeros : List UInt8} :
    (if Subscribes exchange then Next.ends .subscribed
      else if exchange.sent = false then .ends .failed else .goesOn zeros) = .goesOn buf ↔
      ¬ EndsLoop exchange ∧ zeros = buf := by
  rw [EndsLoop]
  by_cases hsubscribes : Subscribes exchange
  · simp [hsubscribes]
  · by_cases hsent : exchange.sent = false
    · simp [hsubscribes, hsent]
    · simp [hsubscribes, hsent]

/-- An empty chunk is not the command, so only a failing answer ends the loop. -/
theorem answeredClosed_iff {exchange : Exchange} :
    AnsweredClosed exchange ↔ exchange.chunk.bytes = [] ∧ ¬ EndsLoop exchange := by
  have hempty : exchange.chunk.bytes = [] → ¬ Subscribes exchange := by
    intro hnil
    rw [Subscribes, hnil]
    decide
  rw [AnsweredClosed, EndsLoop]
  constructor
  · rintro ⟨hnil, hsent⟩
    exact ⟨hnil, by simp [hempty hnil, hsent]⟩
  · rintro ⟨hnil, hgoes⟩
    rw [not_or] at hgoes
    exact ⟨hnil, by simpa using hgoes.2⟩

/-- The loop is robust as long as it gets to no chunk that fills the buffer
without a NUL, and does not answer a closed connection. -/
theorem robust_iff (exchanges : List Exchange) :
    Robust exchanges (List.replicate socketBuf 0) ↔
      ∀ exchange ∈ upTo EndsLoop exchanges,
        ¬ FillsBuffer exchange ∧ ¬ AnsweredClosed exchange := by
  induction exchanges with
  | nil => simp [Robust, upTo]
  | cons exchange exchanges ih =>
      rw [forall_mem_upTo_cons, Robust]
      by_cases hfills : FillsBuffer exchange
      · simp [exchangeRound_of_fillsBuffer hfills, hfills]
      · have hseen : (ofBuffer exchange.chunk.bytes).bytes <+: exchange.chunk.bytes :=
          List.takeWhile_prefix _
        rw [exchangeRound_eq hfills, ← ih, answeredClosed_iff]
        constructor
        · rintro ⟨command, next, hround, -, hnext⟩
          rw [Option.some.injEq, Prod.mk.injEq] at hround
          rcases hround with ⟨-, rfl⟩
          have hgoes := fun hends => hnext _ (goesOn_iff.mpr ⟨hends, rfl⟩)
          exact ⟨⟨hfills, fun hclosed => (hgoes hclosed.2).1 hclosed.1⟩,
            fun hends => (hgoes hends).2⟩
        · rintro ⟨⟨-, hclosed⟩, hrest⟩
          refine ⟨_, _, rfl, hseen, ?_⟩
          intro buf hgoes
          rcases goesOn_iff.mp hgoes with ⟨hends, rfl⟩
          exact ⟨fun hnil => hclosed ⟨hnil, hends⟩, hrest hends⟩

/-- The loop leaves its buffer exactly at a chunk that fills it without a NUL. -/
theorem handshakeLoop_isSome_iff (exchanges : List Exchange) :
    (handshakeLoop (exchanges.map Exchange.round) (List.replicate socketBuf 0)).isSome ↔
      ∀ exchange ∈ upTo EndsLoop exchanges, ¬ FillsBuffer exchange := by
  induction exchanges with
  | nil => simp [handshakeLoop, upTo]
  | cons exchange exchanges ih =>
      rw [forall_mem_upTo_cons, List.map_cons, handshakeLoop_cons]
      by_cases hfills : FillsBuffer exchange
      · simp [exchangeRound_of_fillsBuffer hfills, hfills]
      rw [exchangeRound_eq hfills, Option.bind_some, ← ih, EndsLoop]
      by_cases hsubscribes : Subscribes exchange
      · simp [hsubscribes, hfills]
      · by_cases hsent : exchange.sent = false
        · simp [hsubscribes, hsent, hfills]
        · simp [hsubscribes, hsent, hfills]

/-- The client closes its side, and the server answers it. -/
theorem not_robust_of_closed :
    ¬ ∀ exchanges : List Exchange, Robust exchanges (List.replicate socketBuf 0) := by
  intro h
  obtain ⟨command, next, hround, -, hnext⟩ :=
    h [{ chunk := { bytes := [], length_le := Nat.zero_le _ }, sent := true }]
  rw [exchangeRound_eq (by decide), Option.some.injEq, Prod.mk.injEq] at hround
  have hgoes : next = .goesOn (List.replicate socketBuf 0) := by
    rw [← hround.2]
    rfl
  exact (hnext _ hgoes).1 rfl

end CHomework.FileObserver
