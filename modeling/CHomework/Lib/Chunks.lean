import Mathlib.Data.List.Infix

/-!
Ways of cutting a stream into chunks of bounded length, as a stream socket does.
-/

namespace CHomework.Chunks

variable {α : Type*}

/-- What one receive call returns, into a buffer of `limit` cells. -/
structure Chunk (α : Type*) (limit : Nat) where
  bytes : List α
  length_le : bytes.length ≤ limit

/-- The inputs that a loop gets to: those up to the first that ends it. -/
def upTo (ends : α → Prop) [DecidablePred ends] : List α → List α
  | [] => []
  | a :: inputs => a :: if ends a then [] else upTo ends inputs

theorem forall_mem_upTo_cons {ends : α → Prop} [DecidablePred ends] {p : α → Prop} {a : α}
    {inputs : List α} :
    (∀ b ∈ upTo ends (a :: inputs), p b) ↔
      p a ∧ (¬ ends a → ∀ b ∈ upTo ends inputs, p b) := by
  rw [upTo, List.forall_mem_cons]
  by_cases hends : ends a
  · simp [hends]
  · simp [hends]

/-- The chunks are not empty, not longer than `limit`, and make up the stream. -/
structure Cut (limit : Nat) (stream : List α) (chunks : List (List α)) : Prop where
  flatten_eq : chunks.flatten = stream
  ne_nil : ∀ chunk ∈ chunks, chunk ≠ []
  length_le : ∀ chunk ∈ chunks, chunk.length ≤ limit

variable {limit : Nat} {stream stream' : List α} {chunks chunks' : List (List α)}

theorem Cut.append (h : Cut limit stream chunks) (h' : Cut limit stream' chunks') :
    Cut limit (stream ++ stream') (chunks ++ chunks') where
  flatten_eq := by rw [List.flatten_append, h.flatten_eq, h'.flatten_eq]
  ne_nil := by
    intro chunk hchunk
    rcases List.mem_append.mp hchunk with hmem | hmem
    · exact h.ne_nil chunk hmem
    · exact h'.ne_nil chunk hmem
  length_le := by
    intro chunk hchunk
    rcases List.mem_append.mp hchunk with hmem | hmem
    · exact h.length_le chunk hmem
    · exact h'.length_le chunk hmem

theorem Cut.whole (hne : stream ≠ []) (hle : stream.length ≤ limit) :
    Cut limit stream [stream] where
  flatten_eq := by simp
  ne_nil := by simpa using hne
  length_le := by simpa using hle

theorem cut_singletons (hlimit : 0 < limit) (stream : List α) :
    Cut limit stream (stream.map fun a => [a]) where
  flatten_eq := by
    rw [← List.flatMap_def]
    exact List.flatMap_singleton' stream
  ne_nil := by
    intro chunk hchunk
    obtain ⟨a, -, rfl⟩ := List.mem_map.mp hchunk
    exact List.cons_ne_nil a []
  length_le := by
    intro chunk hchunk
    obtain ⟨a, -, rfl⟩ := List.mem_map.mp hchunk
    exact hlimit

theorem Cut.infix_of_mem (h : Cut limit stream chunks) {chunk : List α}
    (hchunk : chunk ∈ chunks) : chunk <:+: stream := by
  obtain ⟨before, after, rfl⟩ := List.append_of_mem hchunk
  refine ⟨before.flatten, after.flatten, ?_⟩
  rw [← h.flatten_eq]
  simp

/-- A word is a chunk of some cut exactly when it occurs in the stream. -/
theorem exists_cut_mem_iff (hlimit : 0 < limit) {word : List α} (hne : word ≠ [])
    (hle : word.length ≤ limit) :
    (∃ chunks, Cut limit stream chunks ∧ word ∈ chunks) ↔ word <:+: stream := by
  constructor
  · rintro ⟨chunks, hcut, hword⟩
    exact hcut.infix_of_mem hword
  · rintro ⟨before, after, rfl⟩
    refine ⟨_, ((cut_singletons hlimit before).append (Cut.whole hne hle)).append
      (cut_singletons hlimit after), ?_⟩
    simp

end CHomework.Chunks
