import CHomework.Lib.Buffer
import CHomework.Lib.CString

/-!
The telehack client `main.c`: its two receive loops, and the command that it
sends between them.
-/

namespace CHomework.TelehackClient

open CHomework.Buffer
open CHomework.CString

def endTelehackBlock : UInt8 := 0x2e

def netBuffSize : Nat := 2048

inductive End where
  | block
  | failed
  | waiting
  deriving DecidableEq

/-- `buf[recv_bytes - 1]`. The index is -1 when nothing was received. -/
def lastReceived (buf : List UInt8) (recvBytes : Nat) : Option UInt8 :=
  if recvBytes = 0 then none else load buf (recvBytes - 1)

structure Reply where
  printed : List UInt8
  ended : End
  deriving DecidableEq

section Loops

variable {ρ : Type} (bytesOf : ρ → List UInt8)

/-- The loop over the hello packets, with the results of `recv` that it leaves. A `recv` that
fails gives nothing, and an access outside the buffer has no result. -/
def helloLoop : List (Option ρ) → List UInt8 → Option (End × List (Option ρ))
  | [], _ => some (.waiting, [])
  | none :: recvs, _ => some (.failed, recvs)
  | some packet :: recvs, buf => do
      let buf ← storeRange buf (bytesOf packet)
      let last ← lastReceived buf (bytesOf packet).length
      if last = endTelehackBlock then return (.block, recvs) else helloLoop recvs buf

def receiveLoop : List (Option ρ) → List UInt8 → Option (Reply × List (Option ρ))
  | [], _ => some ({ printed := [], ended := .waiting }, [])
  | none :: recvs, _ => some ({ printed := [], ended := .failed }, recvs)
  | some packet :: recvs, buf => do
      let buf ← storeRange buf (bytesOf packet)
      let text ← readString buf
      let last ← lastReceived buf (bytesOf packet).length
      if last = endTelehackBlock then
        return ({ printed := text.bytes, ended := .block }, recvs)
      else do
        let (reply, recvs) ← receiveLoop recvs (List.replicate netBuffSize 0)
        return ({ reply with printed := text.bytes ++ reply.printed }, recvs)

end Loops

def receive (recvs : List (Option (List UInt8))) : Option Reply :=
  (receiveLoop id recvs (List.replicate netBuffSize 0)).map Prod.fst

def commandText (font msg : CStr) : List UInt8 :=
  [0x66, 0x69, 0x67, 0x6c, 0x65, 0x74, 0x20, 0x2f] ++ font.bytes ++ [0x20] ++ msg.bytes ++
    [0x0d, 0x0a]

/-- `snprintf` of this text into a buffer of which it may use `n` bytes, one of
them for the terminator. -/
def snprintf (buffer : List UInt8) (n : Nat) (text : List UInt8) : Option (List UInt8) :=
  if n = 0 then some buffer else storeRange buffer (text.take (n - 1) ++ [0])

def sendCommand (font msg : CStr) : Option (List UInt8) := do
  let commandLen := strlen font + strlen msg + 11
  let command := List.replicate commandLen 0
  let command ← snprintf command commandLen (commandText font msg)
  loadRange command 0 commandLen

end CHomework.TelehackClient
