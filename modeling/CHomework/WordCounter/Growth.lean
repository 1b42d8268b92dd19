import Mathlib.Logic.Relation
import CHomework.WordCounter.Calls

namespace CHomework.WordCounter

open CHomework.CString
open Relation (TransGen)

/-- A call of `hm_set`. -/
structure SetCall where
  map : HashMap
  key : CStr
  val : Int64

namespace SetCall

variable (stray : Nat → Item) (c : SetCall)

/-- The call gets to the growth branch. -/
def Grows : Prop := c.map.Grows c.key

/-- The call returns, with so many calls inside each other at most. -/
def ReturnsWithin (fuel : Nat) (m' : HashMap) : Prop :=
  hmSetFuel stray fuel c.map c.key c.val = some m'

def Returns (m' : HashMap) : Prop := ∃ fuel, c.ReturnsWithin stray fuel m'

/-- The repeated call at the end of the growth branch. -/
def again : SetCall := { c with map := c.map.grow }

end SetCall

section Growth

variable (stray : Nat → Item)

/-- The call in one round of the loop of `hm_rebuild`. -/
def insertion (oldMap newMap : HashMap) (i : Nat) : SetCall where
  map := newMap
  key := ((hmIter stray oldMap).getD i (stray i)).key
  val := ((hmIter stray oldMap).getD i (stray i)).value

/-- The fresh map of `hm_rebuild` after some rounds of its loop. -/
inductive Rebuilds (oldMap : HashMap) : Nat → HashMap → Prop
  | init : Rebuilds oldMap 0 hmInit
  | next {i : Nat} {newMap newMap' : HashMap} : Rebuilds oldMap i newMap → i < hmLen oldMap →
      (insertion stray oldMap newMap i).Returns stray newMap' → Rebuilds oldMap (i + 1) newMap'

/-- The calls that a call makes. -/
inductive Makes (c : SetCall) : SetCall → Prop
  | insertion {i : Nat} {newMap : HashMap} : c.Grows → Rebuilds stray c.map.grow i newMap →
      i < hmLen c.map.grow → Makes c (insertion stray c.map.grow newMap i)
  | again : c.Grows → Makes c c.again

variable {stray} {c c' : SetCall}

theorem eq_of_hmRebuild {set : HashMap → CStr → Int64 → Option HashMap}
    {oldMap m' : HashMap} (h : hmRebuild set stray oldMap = some m') : m' = oldMap := by
  obtain ⟨newMap, -, hsame⟩ := Option.bind_eq_some_iff.mp h
  exact (Option.some.inj hsame).symm

/-- What a call does to the map does not depend on the depth it is given. -/
theorem eq_put_of_returns {m' : HashMap} (h : c.Returns stray m') :
    m' = (c.map.settled c.key).put c.key c.val := by
  obtain ⟨fuel, h⟩ := h
  rw [SetCall.ReturnsWithin] at h
  cases fuel with
  | zero => cases h
  | succ fuel =>
      rw [HashMap.settled]
      by_cases hgrows : c.map.Grows c.key
      · rw [hmSetFuel_of_grows stray hgrows] at h
        obtain ⟨grown, hgrown, h⟩ := Option.bind_eq_some_iff.mp h
        obtain rfl := eq_of_hmRebuild hgrown
        cases fuel with
        | zero => cases h
        | succ fuel =>
            rw [hmSetFuel_of_not_grows stray (HashMap.not_grows_grow hgrows c.key)] at h
            rw [if_pos hgrows, ← Option.some.inj h]
      · rw [hmSetFuel_of_not_grows stray hgrows] at h
        rw [if_neg hgrows, ← Option.some.inj h]

theorem numOfRecs_le_of_returns {m' : HashMap} (h : c.Returns stray m') :
    m'.numOfRecs ≤ c.map.numOfRecs + 1 := by
  have hle := HashMap.numOfRecs_put_le (m := c.map.settled c.key) c.key c.val
  rwa [HashMap.numOfRecs_settled, ← eq_put_of_returns h] at hle

theorem numOfRecs_le_of_rebuilds {oldMap newMap : HashMap} {i : Nat}
    (h : Rebuilds stray oldMap i newMap) : newMap.numOfRecs ≤ i := by
  induction h with
  | init => exact Nat.le_refl 0
  | next _ _ hreturns ih =>
      have hle := numOfRecs_le_of_returns hreturns
      exact Nat.le_trans hle (Nat.succ_le_succ ih)

theorem Makes.grows (h : Makes stray c c') : c.Grows := by
  cases h with
  | insertion hgrows _ _ => exact hgrows
  | again hgrows => exact hgrows

theorem not_grows_again (h : c.Grows) : ¬ c.again.Grows :=
  HashMap.not_grows_grow h c.key

/-- A call that grows inside another one inserts into the fresh map of its rebuild. -/
theorem Makes.rebuilds (h : Makes stray c c') (hgrows : c'.Grows) :
    ∃ i < c.map.numOfRecs, Rebuilds stray c.map.grow i c'.map := by
  cases h with
  | insertion _ hrebuilds hi => exact ⟨_, hi, hrebuilds⟩
  | again h => exact absurd hgrows (not_grows_again h)

theorem Makes.numOfRecs_lt (h : Makes stray c c') (hgrows : c'.Grows) :
    c'.map.numOfRecs < c.map.numOfRecs := by
  obtain ⟨i, hi, hrebuilds⟩ := h.rebuilds hgrows
  exact Nat.lt_of_le_of_lt (numOfRecs_le_of_rebuilds hrebuilds) hi

theorem numOfRecs_lt_of_transGen (h : TransGen (Makes stray) c c') (hgrows : c'.Grows) :
    c'.map.numOfRecs < c.map.numOfRecs := by
  induction h with
  | single hmakes => exact hmakes.numOfRecs_lt hgrows
  | tail _ hmakes ih => exact Nat.lt_trans (hmakes.numOfRecs_lt hgrows) (ih hmakes.grows)

theorem rebuilds_of_transGen (h : TransGen (Makes stray) c c') (hgrows : c'.Grows) :
    ∃ oldMap i, Rebuilds stray oldMap i c'.map := by
  obtain ⟨c₁, -, hmakes⟩ := TransGen.tail'_iff.mp h
  obtain ⟨i, -, hrebuilds⟩ := hmakes.rebuilds hgrows
  exact ⟨_, i, hrebuilds⟩

/-- No call makes calls without end: one that does not grow makes none. -/
theorem acc_makes (c : SetCall) : Acc (fun c' c => Makes stray c c') c := by
  induction hrecs : c.map.numOfRecs using Nat.strong_induction_on generalizing c with
  | h n ih =>
      refine Acc.intro c ?_
      intro c' hmakes
      by_cases hgrows : c'.Grows
      · exact ih _ (hrecs ▸ hmakes.numOfRecs_lt hgrows) c' rfl
      · exact Acc.intro c' fun c'' hmakes' => absurd hmakes'.grows hgrows

/-- The calls are all that the code makes: when they return within some depth, the
call itself returns one deeper. -/
theorem returnsWithin_succ {fuel : Nat}
    (h : ∀ c', Makes stray c c' → ∃ m', c'.ReturnsWithin stray fuel m') :
    ∃ m', c.ReturnsWithin stray (fuel + 1) m' := by
  by_cases hgrows : c.map.Grows c.key
  · have hrounds : ∀ k ≤ hmLen c.map.grow, ∃ newMap, (List.range k).foldlM
        (fun newMap i => hmSetFuel stray fuel newMap
          ((hmIter stray c.map.grow).getD i (stray i)).key
          ((hmIter stray c.map.grow).getD i (stray i)).value) hmInit = some newMap ∧
        Rebuilds stray c.map.grow k newMap := by
      intro k
      induction k with
      | zero =>
          intro _
          exact ⟨hmInit, rfl, .init⟩
      | succ k ih =>
          intro hk
          obtain ⟨newMap, hfold, hrebuilds⟩ := ih (by omega)
          obtain ⟨newMap', hreturns⟩ := h _ (.insertion hgrows hrebuilds (by omega))
          refine ⟨newMap', ?_, .next hrebuilds (by omega) ⟨fuel, hreturns⟩⟩
          rw [List.range_succ, List.foldlM_append, hfold]
          rw [SetCall.ReturnsWithin, insertion] at hreturns
          simpa using hreturns
    obtain ⟨newMap, hfold, -⟩ := hrounds _ (Nat.le_refl _)
    have hrebuild : hmRebuild (hmSetFuel stray fuel) stray c.map.grow = some c.map.grow := by
      simp only [hmRebuild, hfold]
      rfl
    obtain ⟨m', hagain⟩ := h _ (.again hgrows)
    refine ⟨m', ?_⟩
    rw [SetCall.ReturnsWithin, hmSetFuel_of_grows stray hgrows, hrebuild, Option.bind_some]
    exact hagain
  · exact ⟨_, hmSetFuel_of_not_grows stray hgrows fuel c.val⟩

/-- The recursion that starts with a call comes to an end: the call returns, no chain
of calls inside it is endless, every growth inside it is that of a fresh map with fewer
records, and the repeated call does not grow. -/
structure GrowthEnds (stray : Nat → Item) (c : SetCall) : Prop where
  returns : ∃ m', c.Returns stray m'
  acc : Acc (fun c' c => Makes stray c c') c
  fewer : ∀ c', TransGen (Makes stray) c c' → c'.Grows →
    (∃ oldMap i, Rebuilds stray oldMap i c'.map) ∧ c'.map.numOfRecs < c.map.numOfRecs
  again : c.Grows → ¬ c.again.Grows

theorem growth_ends (stray : Nat → Item) (m : HashMap) (key : CStr) (val : Int64) :
    GrowthEnds stray { map := m, key := key, val := val } where
  returns := by
    obtain ⟨m', hm', -⟩ :=
      hmSetFuel_eq_some stray (m.numOfRecs + 1) m key val (Nat.lt_succ_self _)
    exact ⟨m', m.numOfRecs + 1, hm'⟩
  acc := acc_makes _
  fewer := fun _ h hgrows => ⟨rebuilds_of_transGen h hgrows, numOfRecs_lt_of_transGen h hgrows⟩
  again := not_grows_again

end Growth

end CHomework.WordCounter
