import CHomework.WordCounter.Growth

/-!
Where `hm_rebuild` reads its records. The counter of a map that has lost a record is
behind the end of the array of `hm_iter`.
-/

namespace CHomework.WordCounter

open CHomework.CString
open Relation (ReflTransGen)

namespace SetCall

variable (stray : Nat → Item) (c : SetCall)

/-- When the call grows the map, `hm_rebuild` reads no record behind the array. -/
def ReadsInside : Prop :=
  c.Grows → hmLen c.map.grow ≤ (hmIter stray c.map.grow).length

/-- No call in the recursion that starts with this one reads behind an array. -/
def StaysInside : Prop := ∀ c', ReflTransGen (Makes stray) c c' → c'.ReadsInside stray

end SetCall

def Op.StaysInside (stray : Nat → Item) (m : HashMap) : Op → Prop
  | .set key val => SetCall.StaysInside stray { map := m, key := key, val := val }
  | .del _ => True

section

variable {stray : Nat → Item} {c : SetCall}

theorem staysInside_iff :
    c.StaysInside stray ↔
      c.ReadsInside stray ∧ ∀ c', Makes stray c c' → c'.StaysInside stray := by
  constructor
  · intro h
    exact ⟨h c .refl, fun c' hmakes c'' hlater => h c'' (.head hmakes hlater)⟩
  · rintro ⟨hhere, hmade⟩ c' hreach
    rcases hreach.cases_head with rfl | ⟨c₁, hmakes, hlater⟩
    · exact hhere
    · exact hmade c₁ hmakes c' hlater

theorem staysInside_of_not_grows (h : ¬ c.Grows) : c.StaysInside stray :=
  staysInside_iff.mpr ⟨fun hgrows => absurd hgrows h, fun _ hmakes => absurd hmakes.grows h⟩

/-- The insertions into the fresh map stay inside, as far as the loop of `hm_rebuild` gets. -/
def InsertsInside (stray : Nat → Item) (oldMap : HashMap) (n : Nat) : Prop :=
  n ≤ (hmIter stray oldMap).length ∧ ∀ i newMap, Rebuilds stray oldMap i newMap → i < n →
    (insertion stray oldMap newMap i).StaysInside stray

theorem staysInside_iff_of_grows (h : c.Grows) :
    c.StaysInside stray ↔ InsertsInside stray c.map.grow (hmLen c.map.grow) := by
  rw [staysInside_iff]
  constructor
  · rintro ⟨hreads, hmade⟩
    exact ⟨hreads h, fun i newMap hrebuilds hi => hmade _ (.insertion h hrebuilds hi)⟩
  · rintro ⟨hreads, hinserts⟩
    refine ⟨fun _ => hreads, fun c' hmakes => ?_⟩
    cases hmakes with
    | insertion _ hrebuilds hi => exact hinserts _ _ hrebuilds hi
    | again => exact staysInside_of_not_grows (not_grows_again h)

theorem rebuilds_unique {oldMap m₁ m₂ : HashMap} {i : Nat} (h₁ : Rebuilds stray oldMap i m₁)
    (h₂ : Rebuilds stray oldMap i m₂) : m₁ = m₂ := by
  induction h₁ generalizing m₂ with
  | init =>
      cases h₂
      rfl
  | next _ _ hreturns ih =>
      cases h₂ with
      | next hrebuilds' _ hreturns' =>
          obtain rfl := ih hrebuilds'
          rw [eq_put_of_returns hreturns, eq_put_of_returns hreturns']

/-- One more round of the loop. -/
theorem insertsInside_succ_iff {oldMap newMap : HashMap} {n : Nat}
    (hrebuilds : Rebuilds stray oldMap n newMap) :
    InsertsInside stray oldMap (n + 1) ↔
      InsertsInside stray oldMap n ∧ n < (hmIter stray oldMap).length ∧
        (insertion stray oldMap newMap n).StaysInside stray := by
  constructor
  · rintro ⟨hle, hinserts⟩
    exact ⟨⟨Nat.le_of_succ_le hle, fun i m h hi => hinserts i m h (Nat.lt_succ_of_lt hi)⟩, hle,
      hinserts n newMap hrebuilds (Nat.lt_succ_self n)⟩
  · rintro ⟨⟨-, hinserts⟩, hlt, hlast⟩
    refine ⟨hlt, fun i m h hi => ?_⟩
    rcases Nat.lt_succ_iff_lt_or_eq.mp hi with hi | rfl
    · exact hinserts i m h hi
    · exact rebuilds_unique hrebuilds h ▸ hlast

end

end CHomework.WordCounter
