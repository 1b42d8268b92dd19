import CHomework.WordCounter.Calls

namespace CHomework.WordCounter

open CHomework.CellArray
open CHomework.CString
open CHomework.Runs

def HashMap.UniqueKeys (m : HashMap) : Prop :=
  ∀ i j item item', m.cell i = some item → m.cell j = some item' →
    item.key = item'.key → i = j

/-- Every stored key has an occupied home cell in the map in which a call of
`hm_set` with that key would insert or update. -/
def HashMap.HomesTaken (m : HashMap) : Prop :=
  ∀ key, m.Stored key → (m.settled key).cell ((m.settled key).home key) ≠ none

theorem uniqueKeys_hmInit : hmInit.UniqueKeys := by
  intro i j item item' hi
  simp [cell_hmInit] at hi

theorem uniqueKeys_put {m : HashMap} {key : CStr} (val : Int64) (hunique : m.UniqueKeys)
    (hfresh : m.find key = none → ¬ m.Stored key) : (m.put key val).UniqueKeys := by
  intro i j item item' hi hj hkey
  rcases hfind : m.find key with _ | t
  · have hnew := hfresh hfind
    rw [HashMap.cell_put_of_find_none hfind] at hi hj
    split at hi
    · rename_i hti
      split at hj
      · rename_i htj
        rw [← hti, htj]
      · obtain rfl : { key := key, value := val } = item := by simpa using hi
        exact absurd (HashMap.stored_iff.mpr ⟨j, item', hj, hkey.symm⟩) hnew
    · split at hj
      · obtain rfl : { key := key, value := val } = item' := by simpa using hj
        exact absurd (HashMap.stored_iff.mpr ⟨i, item, hi, hkey⟩) hnew
      · exact hunique i j item item' hi hj hkey
  · have hkeys : ∀ k it, (m.put key val).cell k = some it →
        ∃ old, m.cell k = some old ∧ old.key = it.key := by
      intro k it hk
      have hsame := HashMap.keyAt_put_of_find hfind val k
      rw [hk] at hsame
      obtain ⟨old, hold, holdKey⟩ := Option.map_eq_some_iff.mp hsame.symm
      exact ⟨old, hold, holdKey⟩
    obtain ⟨old, hold, holdKey⟩ := hkeys i item hi
    obtain ⟨old', hold', holdKey'⟩ := hkeys j item' hj
    exact hunique i j old old' hold hold' (by rw [holdKey, holdKey', hkey])

theorem uniqueKeys_clearItem {m : HashMap} {i : Nat} {item : Item}
    (hunique : m.UniqueKeys) (hitem : m.cell i = some item) :
    (m.clearItem i).UniqueKeys := by
  have hi := HashMap.lt_size_of_cell hitem
  have hcells : ∀ k it, (m.clearItem i).cell k = some it → m.cell k = some it := by
    intro k it hk
    rw [HashMap.cell_clearItem m hi] at hk
    split at hk
    · cases hk
    · exact hk
  intro j k it it' hj hk hkey
  exact hunique j k it it' (hcells j it hj) (hcells k it' hk) hkey

theorem uniqueKeys_settled {m : HashMap} (key : CStr) :
    (m.settled key).UniqueKeys ↔ m.UniqueKeys := by
  simp only [HashMap.UniqueKeys, HashMap.cell_settled]

theorem find_settled_ne_none {m : HashMap} (hhomes : m.HomesTaken) {key : CStr}
    (hstored : m.Stored key) : (m.settled key).find key ≠ none := by
  intro hnone
  apply hhomes key hstored
  exact HashMap.home_eq_none_of_find_none ((HashMap.stored_settled key key).mpr hstored) hnone

theorem uniqueKeys_step {stray : Nat → Item} {m m' : HashMap} {op : Op}
    (hunique : m.UniqueKeys) (hhomes : m.HomesTaken)
    (hstep : step stray m op = some m') : m'.UniqueKeys := by
  rcases op with ⟨key, val⟩ | key
  · obtain rfl : hmSet stray m key val = m' := by simpa [step] using hstep
    rw [hmSet_eq]
    apply uniqueKeys_put val ((uniqueKeys_settled key).mpr hunique)
    intro hnone hstored
    exact find_settled_ne_none hhomes ((HashMap.stored_settled key key).mp hstored) hnone
  · obtain ⟨i, item, rfl, hitem, -⟩ := step_del_cases hstep
    exact uniqueKeys_clearItem hunique hitem

theorem hmLen_hmSet_eq_iff (stray : Nat → Item) {m : HashMap} {key : CStr}
    (hstored : m.Stored key) (val : Int64) :
    hmLen (hmSet stray m key val) = hmLen m ↔
      (m.settled key).cell ((m.settled key).home key) ≠ none := by
  rw [hmSet_eq, hmLen, hmLen, ← HashMap.numOfRecs_settled (m := m) key]
  have hstored' := (HashMap.stored_settled key key).mpr hstored
  generalize m.settled key = g at hstored' ⊢
  rcases hfind : g.find key with _ | i
  · rw [HashMap.put_of_find_none hfind, HashMap.numOfRecs_storeItem]
    have hhome := HashMap.home_eq_none_of_find_none hstored' hfind
    simp [hhome]
  · rw [HashMap.put_of_find hfind, HashMap.numOfRecs_updateValue]
    simpa using HashMap.home_ne_none_of_find hfind

/-- In every state of a run the keys are unique and setting a stored key keeps
the counter, exactly when in every state of the run each stored key has an
occupied home cell. -/
theorem uniqueKeys_iff_homesTaken (stray : Nat → Item) (ops : List Op) :
    (∀ m, Visits (step stray) hmInit ops m →
      m.UniqueKeys ∧ ∀ key val, m.Stored key → hmLen (hmSet stray m key val) = hmLen m) ↔
      ∀ m, Visits (step stray) hmInit ops m → m.HomesTaken := by
  constructor
  · intro hall m hvisit key hstored
    have hlen := (hall m hvisit).2 key 0 hstored
    exact (hmLen_hmSet_eq_iff stray hstored 0).mp hlen
  · intro hall m hvisit
    refine ⟨?_, fun key val hstored =>
      (hmLen_hmSet_eq_iff stray hstored val).mpr (hall m hvisit key hstored)⟩
    obtain ⟨before, hbefore, hrun⟩ := hvisit
    induction before using List.reverseRecOn generalizing m with
    | nil =>
        obtain rfl : hmInit = m := by simpa using hrun
        exact uniqueKeys_hmInit
    | append_singleton before op ih =>
        obtain ⟨t, ht, hto⟩ := (run_snoc_eq_some_iff _).mp hrun
        have hpre : before <+: ops := (List.prefix_append before [op]).trans hbefore
        exact uniqueKeys_step (ih t hpre ht) (hall t ⟨before, hpre, ht⟩) hto

/-- Setting `"a"`, `"f"` and `"f"` again stores `"f"` twice: the third call
doubles the full table, and the new home cell of `"f"` is empty. -/
theorem not_uniqueKeys_of_growth :
    ∃ m, run (step blankStray) hmInit
        [.set (ofBuffer [97]) 1, .set (ofBuffer [102]) 2, .set (ofBuffer [102]) 9] = some m ∧
      ¬ m.UniqueKeys := by
  have hrun : (run (step blankStray) hmInit
      [.set (ofBuffer [97]) 1, .set (ofBuffer [102]) 2, .set (ofBuffer [102]) 9]).map
        (fun m => (m.cell 1, m.cell 2)) =
      some (some { key := ofBuffer [102], value := 2 },
        some { key := ofBuffer [102], value := 9 }) := by decide
  obtain ⟨m, hm, hcells⟩ := Option.map_eq_some_iff.mp hrun
  rw [Prod.mk.injEq] at hcells
  refine ⟨m, hm, fun hunique => ?_⟩
  have heq := hunique 1 2 _ _ hcells.1 hcells.2 rfl
  omega

end CHomework.WordCounter
