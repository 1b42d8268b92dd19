import CHomework.TelehackClient.Safety

namespace CHomework.TelehackClient

open CHomework.Buffer
open CHomework.Chunks
open CHomework.CString

def answer (text : CStr) : List UInt8 := text.bytes ++ [endTelehackBlock]

/-- One round of the loop: the chunk is printed, and a dot at its end closes the
connection. -/
theorem receive_cons {chunk : List UInt8} (recvs : List (Option (List UInt8)))
    (hne : chunk ≠ []) (hnul : (0 : UInt8) ∉ chunk) (hle : chunk.length < netBuffSize) :
    receive (some chunk :: recvs) =
      if chunk.getLast hne = endTelehackBlock then
        some { printed := chunk, ended := .block }
      else (receive recvs).map fun reply => { reply with printed := chunk ++ reply.printed } := by
  have hfull : ¬ (chunk.length = netBuffSize ∧ 0 ∉ chunk) := fun h => hle.ne h.1
  have hself : (ofBuffer chunk).bytes = chunk :=
    congrArg CStr.bytes (ofBuffer_bytes { bytes := chunk, noNul := hnul })
  rw [receive_cons_eq hle.le, if_neg hfull, hself, List.getLast?_eq_some_getLast hne,
    Option.bind_some]

/-- A block without an inner dot is printed whole however it is cut, and nothing
behind it is. The induction is on the chunks that are left. -/
theorem receive_block {bytes : List UInt8} {chunks : List (List UInt8)}
    (hcut : Cut (netBuffSize - 1) (bytes ++ [endTelehackBlock]) chunks)
    (hnul : (0 : UInt8) ∉ bytes) (hdot : endTelehackBlock ∉ bytes)
    (recvs : List (Option (List UInt8))) :
    receive (chunks.map some ++ recvs) =
      some { printed := bytes ++ [endTelehackBlock], ended := .block } := by
  induction chunks generalizing bytes with
  | nil =>
      have := hcut.flatten_eq
      simp at this
  | cons chunk chunks ih =>
      have hflatten : chunk ++ chunks.flatten = bytes ++ [endTelehackBlock] := hcut.flatten_eq
      have hne := hcut.ne_nil chunk (by simp)
      have hlt : chunk.length < netBuffSize := by
        have := hcut.length_le chunk (by simp)
        rw [netBuffSize] at this ⊢
        omega
      rw [List.map_cons, List.cons_append]
      rcases List.eq_nil_or_concat chunks.flatten with hnil | ⟨behind, last, hbehind⟩
      · rw [hnil, List.append_nil] at hflatten
        subst hflatten
        rw [receive_cons _ hne (by simp [hnul, endTelehackBlock]) hlt,
          if_pos (List.getLast_concat)]
      · rw [List.concat_eq_append] at hbehind
        rw [hbehind, ← List.append_assoc] at hflatten
        obtain ⟨rfl, hlast⟩ := List.append_inj' hflatten rfl
        have hinner : chunk.getLast hne ≠ endTelehackBlock := by
          intro heq
          exact hdot (List.mem_append_left _ (heq ▸ List.getLast_mem hne))
        have hrest : Cut (netBuffSize - 1) (behind ++ [endTelehackBlock]) chunks :=
          ⟨by rw [hbehind, hlast], fun c hc => hcut.ne_nil c (List.mem_cons_of_mem _ hc),
            fun c hc => hcut.length_le c (List.mem_cons_of_mem _ hc)⟩
        rw [receive_cons _ hne (fun h => hnul (List.mem_append_left _ h)) hlt, if_neg hinner,
          ih hrest (fun h => hnul (List.mem_append_right _ h))
            (fun h => hdot (List.mem_append_right _ h))]
        simp

/-- All cuts of an answer that ends in a dot are printed whole, and so alike,
exactly when the answer has no other dot. -/
theorem prints_answer_iff (text : CStr) :
    (∀ chunks, Cut (netBuffSize - 1) (answer text) chunks →
      receive (chunks.map some) = some { printed := answer text, ended := .block }) ↔
      endTelehackBlock ∉ text.bytes := by
  constructor
  · intro hall hdot
    obtain ⟨before, behind, hsplit, hfirst⟩ := List.eq_append_cons_of_mem hdot
    have hanswer : answer text =
        (before ++ [endTelehackBlock]) ++ (behind ++ [endTelehackBlock]) := by
      rw [answer, hsplit]
      simp
    have hcut : Cut (netBuffSize - 1) (before ++ [endTelehackBlock]) _ :=
      cut_singletons (by decide) _
    have hnul : (0 : UInt8) ∉ before := by
      intro hmem
      apply text.noNul
      rw [hsplit]
      exact List.mem_append_left _ hmem
    have hcut' := hcut.append (cut_singletons (by decide) (behind ++ [endTelehackBlock]))
    rw [← hanswer] at hcut'
    have hwhole := hall _ hcut'
    rw [List.map_append, receive_block hcut hnul hfirst, hanswer] at hwhole
    simp at hwhole
  · intro hdot chunks hcut
    have hblock := receive_block hcut text.noNul hdot []
    rwa [List.append_nil] at hblock

/-- `"a.b."` cut behind its first dot is printed up to there only. -/
theorem not_prints_answer_of_inner_dot :
    ∃ (text : CStr) (chunks : List (List UInt8)), Cut (netBuffSize - 1) (answer text) chunks ∧
      receive (chunks.map some) ≠ some { printed := answer text, ended := .block } := by
  have hcut : Cut (netBuffSize - 1) (answer (ofBuffer [0x61, 0x2e, 0x62]))
      [[0x61, 0x2e], [0x62, 0x2e]] := ⟨by decide, by decide, by decide⟩
  have hfirst : Cut (netBuffSize - 1) ([0x61] ++ [endTelehackBlock]) [[0x61, 0x2e]] :=
    ⟨by decide, by decide, by decide⟩
  have hprinted : receive ([[0x61, 0x2e]].map some ++ [some [0x62, 0x2e]]) =
      some { printed := [0x61] ++ [endTelehackBlock], ended := .block } :=
    receive_block hfirst (by decide) (by decide) _
  refine ⟨_, _, hcut, fun hwhole => ?_⟩
  exact absurd (hprinted.symm.trans hwhole) (by decide)

end CHomework.TelehackClient
