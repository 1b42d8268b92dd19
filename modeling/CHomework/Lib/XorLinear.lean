import Mathlib.Dynamics.PeriodicPts.Defs
import Mathlib.Data.Nat.Prime.Basic

/-!
Maps of words that respect the exclusive or. Such a map is given by its values at the
single bits, its columns, and the columns of its iterates are found by squaring.
-/

namespace CHomework.XorLinear

variable {w : Nat}

structure Linear (f : BitVec w → BitVec w) : Prop where
  xor : ∀ r s, f (r ^^^ s) = f r ^^^ f s

/-- The exclusive or of the columns at the bits of a word, from bit `i` on. -/
def combine (r : BitVec w) : Nat → List (BitVec w) → BitVec w
  | _, [] => 0#w
  | i, column :: columns =>
      (if r.getLsbD i then column else 0#w) ^^^ combine r (i + 1) columns

def bits (w i n : Nat) : List (BitVec w) := (List.range' i n).map (BitVec.twoPow w)

def columns (f : BitVec w → BitVec w) : List (BitVec w) := (bits w 0 w).map f

/-- The columns of the map twice. -/
def twice (columns : List (BitVec w)) : List (BitVec w) :=
  columns.map fun column => combine column 0 columns

/-- The `n`-th iterate from the columns, for a number `n` of at most `k` binary digits. -/
def jump : Nat → Nat → List (BitVec w) → BitVec w → BitVec w
  | 0, _, _, r => r
  | k + 1, n, columns, r =>
      jump k (n / 2) (twice columns) (if n % 2 = 1 then combine r 0 columns else r)

theorem Linear.zero {f : BitVec w → BitVec w} (h : Linear f) : f 0#w = 0#w := by
  have hzero := h.xor 0#w 0#w
  rwa [BitVec.xor_self, BitVec.xor_self] at hzero

theorem Linear.comp {f g : BitVec w → BitVec w} (hf : Linear f) (hg : Linear g) :
    Linear (f ∘ g) where
  xor r s := by rw [Function.comp_apply, hg.xor, hf.xor]; rfl

theorem combine_map {f : BitVec w → BitVec w} (h : Linear f) (r : BitVec w) (i : Nat)
    (columns : List (BitVec w)) : combine r i (columns.map f) = f (combine r i columns) := by
  induction columns generalizing i with
  | nil => exact h.zero.symm
  | cons column columns ih =>
      rw [List.map_cons, combine, combine, h.xor, ih]
      split
      · rfl
      · rw [h.zero]

theorem getLsbD_combine_bits (r : BitVec w) (i n j : Nat) :
    (combine r i (bits w i n)).getLsbD j =
      (decide (i ≤ j ∧ j < i + n) && decide (j < w) && r.getLsbD j) := by
  induction n generalizing i with
  | zero => simp [bits, combine]
  | succ n ih =>
      have hbits : bits w i (n + 1) = BitVec.twoPow w i :: bits w (i + 1) n := rfl
      rw [hbits, combine, BitVec.getLsbD_xor, ih]
      rcases eq_or_ne i j with rfl | hne
      · rw [decide_eq_false (show ¬ (i + 1 ≤ i ∧ i < i + 1 + n) by omega),
          decide_eq_true (show i ≤ i ∧ i < i + (n + 1) by omega)]
        cases hbit : r.getLsbD i <;> simp [BitVec.getLsbD_twoPow]
      · have hrange : (i + 1 ≤ j ∧ j < i + 1 + n) ↔ (i ≤ j ∧ j < i + (n + 1)) := by omega
        have hbit : (if r.getLsbD i = true then BitVec.twoPow w i else 0#w).getLsbD j = false := by
          split <;> simp [BitVec.getLsbD_twoPow, hne]
        rw [hbit, Bool.false_xor, decide_eq_decide.mpr hrange]

theorem combine_bits (r : BitVec w) : combine r 0 (bits w 0 w) = r := by
  apply BitVec.eq_of_getLsbD_eq
  intro j hj
  rw [getLsbD_combine_bits]
  simp [hj]

theorem combine_columns {f : BitVec w → BitVec w} (h : Linear f) (r : BitVec w) :
    combine r 0 (columns f) = f r := by
  rw [columns, combine_map h, combine_bits]

theorem twice_columns {f : BitVec w → BitVec w} (h : Linear f) :
    twice (columns f) = columns (f ∘ f) := by
  rw [twice]
  simp only [combine_columns h]
  rw [columns, List.map_map, columns]

theorem jump_columns {f : BitVec w → BitVec w} (h : Linear f) {k n : Nat} (hn : n < 2 ^ k)
    (r : BitVec w) : jump k n (columns f) r = f^[n] r := by
  induction k generalizing f n r with
  | zero =>
      have hzero : n = 0 := by simpa using hn
      rw [hzero]
      rfl
  | succ k ih =>
      have hhalf : n / 2 < 2 ^ k := by
        rw [Nat.pow_succ] at hn
        omega
      rw [jump, twice_columns h, ih (h.comp h) hhalf, combine_columns h]
      have hsquare : (f ∘ f)^[n / 2] = f^[2 * (n / 2)] := by
        rw [Function.iterate_mul]
        rfl
      have hsplit := Nat.div_add_mod n 2
      rw [hsquare]
      rcases Nat.mod_two_eq_zero_or_one n with hmod | hmod
      · rw [if_neg (by omega)]
        conv_rhs => rw [← hsplit, hmod, Nat.add_zero]
      · rw [if_pos hmod]
        conv_rhs => rw [← hsplit, hmod, Function.iterate_succ_apply]

/-- A period is the least one when no quotient by a prime is a period. -/
theorem minimalPeriod_eq_of_primes {α : Type*} {f : α → α} {x : α} {n : Nat}
    (hperiod : f^[n] x = x) (hprimes : ∀ p, p.Prime → p ∣ n → f^[n / p] x ≠ x) :
    Function.minimalPeriod f x = n := by
  obtain ⟨q, hq⟩ := Function.IsPeriodicPt.minimalPeriod_dvd (f := f) (x := x) (n := n) hperiod
  by_contra hne
  have hq1 : q ≠ 1 := by
    rintro rfl
    rw [Nat.mul_one] at hq
    exact hne hq.symm
  obtain ⟨p, hp, m, rfl⟩ := Nat.exists_prime_and_dvd hq1
  apply hprimes p hp ⟨Function.minimalPeriod f x * m, hq.trans (Nat.mul_left_comm ..)⟩
  have hdiv : n / p = Function.minimalPeriod f x * m := by
    rw [hq, Nat.mul_left_comm, Nat.mul_div_cancel_left _ hp.pos]
  rw [hdiv]
  exact (Function.isPeriodicPt_minimalPeriod f x).mul_const m

end CHomework.XorLinear
