import CHomework.CJson.Complete
import CHomework.WeatherApi.Model

namespace CHomework.WeatherApi

open CHomework.Buffer CHomework.CString CHomework.CJson

/-- The response that has received these bytes, in a callback at least. -/
def received (bytes : List UInt8) : Response where
  body := some (bytes ++ [0])
  size := bytes.length

/-- The bytes that the callbacks have received so far. -/
def Received (bytes : List UInt8) (response : Response) : Prop :=
  response.size = bytes.length ∧ bytes <+: response.body.getD []

theorem received_received (bytes : List UInt8) : Received bytes (received bytes) :=
  ⟨rfl, List.prefix_append _ _⟩

/-- Data behind the first bytes of a block that leaves one cell. -/
theorem exists_overwrite_eq {bytes block : List UInt8} (data : List UInt8) (h : bytes <+: block)
    (hlength : block.length = bytes.length + data.length + 1) :
    ∃ stray, overwrite block bytes.length data = (bytes ++ data) ++ [stray] := by
  obtain ⟨stray, hstray⟩ := List.length_eq_one_iff.mp
    (show (block.drop (bytes.length + data.length)).length = 1 by
      rw [List.length_drop]
      omega)
  refine ⟨stray, ?_⟩
  rw [overwrite, hstray, ← List.prefix_iff_eq_take.mp h]

theorem responseHandler_eq (stray : Nat → UInt8) {bytes : List UInt8} {response : Response}
    (h : Received bytes response) (data : List UInt8) :
    responseHandler stray data response = some (data.length, received (bytes ++ data)) := by
  obtain ⟨hsize, hprefix⟩ := h
  have hblock : bytes <+: reallocStray stray (bytes.length + data.length + 1) _ :=
    prefix_reallocStray stray hprefix (by omega)
  obtain ⟨last, hlast⟩ := exists_overwrite_eq data hblock (length_reallocStray ..)
  -- the cell behind the data holds what `realloc` has left there, so the NUL is stored
  have hstore := store_length (bytes ++ data) last 0
  rw [List.length_append] at hstore
  rw [responseHandler, hsize]
  simp only [memcpy, length_reallocStray, Option.bind_eq_bind]
  rw [if_pos (Nat.le_succ _), Option.bind_some, hlast, hstore, Option.bind_some, received,
    List.length_append]
  rfl

theorem transfer_of_received (stray : Nat → UInt8) {bytes : List UInt8}
    (chunks : List (List UInt8)) :
    transfer stray chunks (received bytes) = some (received (bytes ++ chunks.flatten)) := by
  induction chunks generalizing bytes with
  | nil => simp [transfer]
  | cons data chunks ih =>
      rw [transfer, responseHandler_eq stray (received_received bytes)]
      simp only [Option.bind_eq_bind, Option.bind_some, if_true]
      rw [ih, List.flatten_cons, List.append_assoc]

/-- The response of a transfer: `NULL` without a callback, else all the data and a NUL. -/
def collected (chunks : List (List UInt8)) : Response :=
  if chunks = [] then { body := none, size := 0 } else received chunks.flatten

/-- What `response_handler` has put together when a transfer is over, whatever its memory
held before. The allocations succeed. -/
theorem transfer_eq (stray : Nat → UInt8) (chunks : List (List UInt8)) :
    transfer stray chunks { body := none, size := 0 } = some (collected chunks) := by
  cases chunks with
  | nil => rfl
  | cons data chunks =>
      rw [transfer, responseHandler_eq stray (show Received [] _ from ⟨rfl, List.nil_prefix⟩)]
      simp only [Option.bind_eq_bind, Option.bind_some, if_true]
      rw [transfer_of_received, collected, if_neg (List.cons_ne_nil _ _), List.flatten_cons,
        List.nil_append]

/-- A request ends the program when it fails, whatever it has received. -/
theorem request_eq (exchange : Exchange) :
    request exchange =
      match exchange.error with
      | some text => some (.error (ascii "request failed: " ++ text ++ ascii "\n"))
      | none => some (.ok (collected exchange.chunks)) := by
  rw [request, transfer_eq, Option.bind_eq_bind, Option.bind_some]
  cases exchange.error <;> rfl

end CHomework.WeatherApi
