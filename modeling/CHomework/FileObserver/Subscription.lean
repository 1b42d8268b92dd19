import CHomework.FileObserver.Model
import CHomework.Lib.Chunks

namespace CHomework.FileObserver

open CHomework.Buffer
open CHomework.Chunks
open CHomework.CString

/-- The server receives these chunks, and all its answers are sent. -/
def answered (chunks : List (List UInt8)) : List Round :=
  chunks.map fun chunk => { received := some chunk, sent := true }

/-- `run_server` goes on to `file_monitoring`. -/
def EntersMonitoring (chunks : List (List UInt8)) : Prop :=
  handshake (answered chunks) = some .subscribed

instance (chunks : List (List UInt8)) : Decidable (EntersMonitoring chunks) := by
  unfold EntersMonitoring
  infer_instance

theorem handshake_cons {chunk : List UInt8} (chunks : List (List UInt8))
    (hnul : (0 : UInt8) ∉ chunk) (hle : chunk.length < socketBuf) :
    handshake (answered (chunk :: chunks)) =
      if chunk = subscribeCmd.bytes then some .subscribed else handshake (answered chunks) := by
  have hread : readString (chunk ++ List.replicate (socketBuf - chunk.length) 0) =
      some { bytes := chunk, noNul := hnul } :=
    readString_append_replicate { bytes := chunk, noNul := hnul } (by omega)
  have hcmp : strcmp { bytes := chunk, noNul := hnul } subscribeCmd = 0 ↔
      chunk = subscribeCmd.bytes := by
    rw [strcmp_eq_zero_iff]
    exact ⟨congrArg CStr.bytes, fun hbytes => CStr.ext_bytes hbytes⟩
  rw [handshake, answered, List.map_cons, handshakeLoop]
  dsimp only
  rw [storeRange_replicate 0 (Nat.le_of_lt hle)]
  show (readString _).bind _ = _
  rw [hread]
  show (if strcmp _ subscribeCmd = 0 then _ else _) = _
  simp only [hcmp]
  rfl

theorem entersMonitoring_iff {chunks : List (List UInt8)}
    (hnul : ∀ chunk ∈ chunks, (0 : UInt8) ∉ chunk)
    (hle : ∀ chunk ∈ chunks, chunk.length < socketBuf) :
    EntersMonitoring chunks ↔ subscribeCmd.bytes ∈ chunks := by
  induction chunks with
  | nil => simp [EntersMonitoring, handshake, answered, handshakeLoop]
  | cons chunk chunks ih =>
      have hrest := ih (fun c hc => hnul c (List.mem_cons_of_mem _ hc))
        (fun c hc => hle c (List.mem_cons_of_mem _ hc))
      rw [EntersMonitoring, handshake_cons chunks (hnul chunk (by simp)) (hle chunk (by simp)),
        List.mem_cons]
      split
      · rename_i hmatch
        simp [hmatch]
      · rename_i hmatch
        rw [← EntersMonitoring, hrest]
        simp [Ne.symm hmatch]

theorem entersMonitoring_iff_of_cut {stream : CStr} {chunks : List (List UInt8)}
    (hcut : Cut (socketBuf - 1) stream.bytes chunks) :
    EntersMonitoring chunks ↔ subscribeCmd.bytes ∈ chunks := by
  apply entersMonitoring_iff
  · intro chunk hchunk hnul
    exact stream.noNul ((hcut.infix_of_mem hchunk).subset hnul)
  · intro chunk hchunk
    have := hcut.length_le chunk hchunk
    rw [socketBuf] at this ⊢
    omega

/-- The decision is the same for all cuts of a stream exactly when the stream
does not contain the command. -/
theorem subscription_independent_iff (stream : CStr) :
    (∀ chunks chunks', Cut (socketBuf - 1) stream.bytes chunks →
        Cut (socketBuf - 1) stream.bytes chunks' →
        (EntersMonitoring chunks ↔ EntersMonitoring chunks')) ↔
      ¬ subscribeCmd.bytes <:+: stream.bytes := by
  have hexists : (∃ chunks, Cut (socketBuf - 1) stream.bytes chunks ∧
      subscribeCmd.bytes ∈ chunks) ↔ subscribeCmd.bytes <:+: stream.bytes :=
    exists_cut_mem_iff (by decide) (by decide) (by decide)
  constructor
  · intro hsame hinfix
    obtain ⟨chunks, hcut, hmem⟩ := hexists.mpr hinfix
    have hsingle : Cut (socketBuf - 1) stream.bytes (stream.bytes.map fun byte => [byte]) :=
      cut_singletons (by decide) stream.bytes
    have henters := (entersMonitoring_iff_of_cut hcut).mpr hmem
    rw [hsame _ _ hcut hsingle, entersMonitoring_iff_of_cut hsingle, List.mem_map] at henters
    obtain ⟨byte, -, hbyte⟩ := henters
    have hlength : 1 = subscribeCmd.bytes.length := congrArg List.length hbyte
    exact absurd hlength (by decide)
  · intro hinfix chunks chunks' hcut hcut'
    have hnever : ∀ chunks, Cut (socketBuf - 1) stream.bytes chunks →
        ¬ EntersMonitoring chunks := by
      intro chunks hcut henters
      exact hinfix (hexists.mp ⟨chunks, hcut, (entersMonitoring_iff_of_cut hcut).mp henters⟩)
    exact iff_of_false (hnever chunks hcut) (hnever chunks' hcut')

/-- `"SUBSCRIBE"` in one chunk subscribes, and cut behind its third byte it
does not. -/
theorem not_subscription_independent_of_split :
    ∃ (stream : CStr) (chunks chunks' : List (List UInt8)),
      Cut (socketBuf - 1) stream.bytes chunks ∧ Cut (socketBuf - 1) stream.bytes chunks' ∧
        EntersMonitoring chunks ∧ ¬ EntersMonitoring chunks' := by
  have hwhole : Cut (socketBuf - 1) subscribeCmd.bytes [subscribeCmd.bytes] :=
    Cut.whole (by decide) (by decide)
  have hsplit : Cut (socketBuf - 1) subscribeCmd.bytes
      [[0x53, 0x55, 0x42], [0x53, 0x43, 0x52, 0x49, 0x42, 0x45]] :=
    ⟨by decide, by decide, by decide⟩
  refine ⟨subscribeCmd, _, _, hwhole, hsplit, ?_, ?_⟩
  · rw [entersMonitoring_iff_of_cut hwhole]
    decide
  · rw [entersMonitoring_iff_of_cut hsplit]
    decide

end CHomework.FileObserver
