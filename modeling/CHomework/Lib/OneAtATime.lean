import Mathlib.Data.BitVec
import Mathlib.Logic.Function.Basic

/-!
The one-at-a-time hash over words of any width. Every one of its steps is a
permutation of the register, and of the word that is taken in.
-/

namespace CHomework.OneAtATime

variable {w : Nat}

def addShifted (k : Nat) (h : BitVec w) : BitVec w := h + (h <<< k)

def xorShifted (k : Nat) (h : BitVec w) : BitVec w := h ^^^ (h >>> k)

def mix (h : BitVec w) : BitVec w := xorShifted 6 (addShifted 10 h)

def step (h word : BitVec w) : BitVec w := mix (h + word)

def finish (h : BitVec w) : BitVec w := addShifted 15 (xorShifted 11 (addShifted 3 h))

def hash (words : List (BitVec w)) : BitVec w := finish (words.foldl step 0#w)

/-- What equals its own shift, up to the sign, has been shifted out. -/
theorem eq_zero_of_addShifted {d : BitVec w} {k : Nat} (hk : 0 < k)
    (h : addShifted k d = 0#w) : d = 0#w := by
  have hneg : d = -(d <<< k) := eq_neg_of_add_eq_zero_left h
  have hshift : ∀ n, ∃ e : BitVec w, d = e <<< (k * n) := by
    intro n
    induction n with
    | zero => exact ⟨d, by simp⟩
    | succ n ih =>
        obtain ⟨e, he⟩ := ih
        refine ⟨-e, ?_⟩
        calc
          d = -((e <<< (k * n)) <<< k) := by rw [← he, ← hneg]
          _ = (-e) <<< (k * (n + 1)) := by
            rw [← BitVec.shiftLeft_add, BitVec.shiftLeft_neg, Nat.mul_succ]
  obtain ⟨e, he⟩ := hshift w
  rw [he, BitVec.shiftLeft_eq_zero (Nat.le_mul_of_pos_left w hk)]

theorem eq_zero_of_xorShifted {d : BitVec w} {k : Nat} (hk : 0 < k)
    (h : xorShifted k d = 0#w) : d = 0#w := by
  have hself : d = d >>> k := BitVec.xor_eq_zero_iff.mp h
  have hshift : ∀ n, d = d >>> (k * n) := by
    intro n
    induction n with
    | zero => simp
    | succ n ih =>
        calc
          d = (d >>> (k * n)) >>> k := by rw [← ih, ← hself]
          _ = d >>> (k * (n + 1)) := by rw [← BitVec.shiftRight_add, Nat.mul_succ]
  rw [hshift w, BitVec.ushiftRight_eq_zero (Nat.le_mul_of_pos_left w hk)]

theorem addShifted_sub (k : Nat) (g h : BitVec w) :
    addShifted k (g - h) = addShifted k g - addShifted k h := by
  have hshift : (g - h) <<< k = (g <<< k) - (h <<< k) := by
    rw [BitVec.sub_eq_add_neg, BitVec.shiftLeft_add_distrib, BitVec.shiftLeft_neg,
      ← BitVec.sub_eq_add_neg]
  rw [addShifted, addShifted, addShifted, hshift, add_sub_add_comm]

theorem xorShifted_xor (k : Nat) (g h : BitVec w) :
    xorShifted k (g ^^^ h) = xorShifted k g ^^^ xorShifted k h := by
  rw [xorShifted, xorShifted, xorShifted, BitVec.ushiftRight_xor_distrib]
  ac_rfl

theorem addShifted_injective {k : Nat} (hk : 0 < k) :
    Function.Injective (addShifted k : BitVec w → BitVec w) := by
  intro g h heq
  apply sub_eq_zero.mp
  apply eq_zero_of_addShifted hk
  calc
    addShifted k (g - h) = addShifted k g - addShifted k h := addShifted_sub k g h
    _ = 0 := by rw [heq, sub_self]

theorem xorShifted_injective {k : Nat} (hk : 0 < k) :
    Function.Injective (xorShifted k : BitVec w → BitVec w) := by
  intro g h heq
  apply BitVec.xor_eq_zero_iff.mp
  apply eq_zero_of_xorShifted hk
  calc
    xorShifted k (g ^^^ h) = xorShifted k g ^^^ xorShifted k h := xorShifted_xor k g h
    _ = 0#w := by rw [heq, BitVec.xor_self]

theorem mix_injective : Function.Injective (mix : BitVec w → BitVec w) :=
  (xorShifted_injective (by decide)).comp (addShifted_injective (by decide))

theorem finish_injective : Function.Injective (finish : BitVec w → BitVec w) :=
  (addShifted_injective (by decide)).comp
    ((xorShifted_injective (by decide)).comp (addShifted_injective (by decide)))

theorem step_left_injective (word : BitVec w) : Function.Injective fun h => step h word :=
  fun _ _ h => (BitVec.add_left_inj word).mp (mix_injective h)

theorem step_right_injective (h : BitVec w) : Function.Injective (step h) :=
  fun _ _ heq => (BitVec.add_right_inj h).mp (mix_injective heq)

theorem foldl_step_injective (words : List (BitVec w)) :
    Function.Injective fun h => words.foldl step h := by
  induction words with
  | nil => exact Function.injective_id
  | cons word words ih => exact ih.comp (step_left_injective word)

theorem hash_inj {words words' : List (BitVec w)} :
    hash words = hash words' ↔ words.foldl step 0#w = words'.foldl step 0#w :=
  finish_injective.eq_iff

/-- A difference in one word is carried through whatever follows it. -/
theorem hash_ne_of_word_ne {a b : BitVec w} (hab : a ≠ b) (before after : List (BitVec w)) :
    hash (before ++ a :: after) ≠ hash (before ++ b :: after) := by
  rw [Ne, hash_inj, List.foldl_append, List.foldl_append, List.foldl_cons, List.foldl_cons]
  intro h
  exact hab (step_right_injective _ (foldl_step_injective after h))

end CHomework.OneAtATime
