import CHomework.TelehackClient.Model

namespace CHomework.TelehackClient

open CHomework.Buffer
open CHomework.CString

/-- What a command says: the font up to the first blank, and the message up to
the end of the line. -/
def parseCommand (line : List UInt8) : Option (List UInt8 × List UInt8) :=
  if [0x66, 0x69, 0x67, 0x6c, 0x65, 0x74, 0x20, 0x2f] <+: line ∧ [0x0d, 0x0a] <:+ line then
    let arguments := (line.drop 8).take (line.length - 10)
    some (arguments.takeWhile (· != 0x20), (arguments.dropWhile (· != 0x20)).drop 1)
  else none

/-- The client sends the whole line and nothing else, and the line says what it
was made of. -/
structure SendsCommand (font msg : CStr) : Prop where
  exact : sendCommand font msg = some (commandText font msg)
  parses : (0x20 : UInt8) ∉ font.bytes → ∀ sent, sendCommand font msg = some sent →
    parseCommand sent = some (font.bytes, msg.bytes)

/-- The line without its end. -/
def commandBody (font msg : CStr) : List UInt8 :=
  [0x66, 0x69, 0x67, 0x6c, 0x65, 0x74, 0x20, 0x2f] ++ font.bytes ++ [0x20] ++ msg.bytes

theorem commandText_eq (font msg : CStr) :
    commandText font msg = commandBody font msg ++ [0x0d, 0x0a] := rfl

theorem length_commandText (font msg : CStr) :
    (commandText font msg).length = strlen font + strlen msg + 11 := by
  simp only [commandText, List.length_append, List.length_cons, List.length_nil, strlen]
  omega

theorem parseCommand_commandText {font : CStr} (hfont : (0x20 : UInt8) ∉ font.bytes)
    (msg : CStr) : parseCommand (commandText font msg) = some (font.bytes, msg.bytes) := by
  have hne : ∀ byte ∈ font.bytes, (byte != 0x20) = true := by
    intro byte hbyte
    rw [bne_iff_ne]
    rintro rfl
    exact hfont hbyte
  have harguments : ((commandText font msg).drop 8).take ((commandText font msg).length - 10) =
      font.bytes ++ (0x20 :: msg.bytes) := by
    have hdrop : (commandText font msg).drop 8 =
        (font.bytes ++ (0x20 :: msg.bytes)) ++ [0x0d, 0x0a] := by
      simp [commandText]
    rw [hdrop, length_commandText]
    apply List.take_left'
    simp only [List.length_append, List.length_cons, strlen]
    omega
  have hfits : [0x66, 0x69, 0x67, 0x6c, 0x65, 0x74, 0x20, 0x2f] <+: commandText font msg ∧
      [0x0d, 0x0a] <:+ commandText font msg := by
    refine ⟨?_, List.suffix_append _ _⟩
    simp only [commandText, List.append_assoc]
    exact List.prefix_append _ _
  rw [parseCommand, if_pos hfits, harguments]
  dsimp only
  rw [List.takeWhile_append_of_pos hne, List.dropWhile_append_of_pos hne]
  simp

/-- The buffer is as long as the line, so the terminator takes the place of the
line feed. -/
theorem sendCommand_eq (font msg : CStr) :
    sendCommand font msg = some (commandBody font msg ++ [0x0d, 0]) := by
  have hlen := length_commandText font msg
  have hkept : (commandText font msg).take (strlen font + strlen msg + 11 - 1) ++ [0] =
      commandBody font msg ++ [0x0d, 0] := by
    rw [← hlen, ← List.dropLast_eq_take, commandText_eq, List.dropLast_append_of_ne_nil (by simp),
      List.append_assoc]
    rfl
  have hstored : (commandBody font msg ++ [0x0d, 0]).length = strlen font + strlen msg + 11 := by
    rw [← hlen, commandText_eq, List.length_append, List.length_append]
    rfl
  simp only [sendCommand, snprintf]
  rw [if_neg (by omega), hkept, storeRange_replicate 0 (by rw [hstored]), hstored, Nat.sub_self]
  show loadRange ((commandBody font msg ++ [0x0d, 0]) ++ []) 0 _ = _
  rw [List.append_nil, loadRange_eq (by rw [hstored, Nat.zero_add]), List.drop_zero, ← hstored,
    List.take_length]

theorem not_sendsCommand (font msg : CStr) : ¬ SendsCommand font msg := by
  intro h
  have hexact := h.exact
  rw [sendCommand_eq, Option.some.injEq, commandText_eq] at hexact
  have hend : ([0x0d, 0] : List UInt8) = [0x0d, 0x0a] := List.append_cancel_left hexact
  revert hend
  decide

/-- The command for the message `b` in the font `a`. -/
theorem not_sendsCommand_letters : ¬ ∀ font msg : CStr, SendsCommand font msg := by
  intro h
  have hexact := (h (ofBuffer [0x61]) (ofBuffer [0x62])).exact
  revert hexact
  decide

end CHomework.TelehackClient
