import Mathlib.Data.List.Basic

/-!
Arrays of optional cells, as an open-addressing table keeps its records:
reading and writing one cell, the number of occupied cells, and the search
that looks at a home cell first and then scans the array from its start.
-/

namespace CHomework.CellArray

variable {α : Type*}

/-- The content of a cell. A position outside the array reads as empty. -/
def cell (cells : List (Option α)) (i : Nat) : Option α := cells[i]?.join

theorem cell_eq_some_iff {cells : List (Option α)} {i : Nat} {a : α} :
    cell cells i = some a ↔ cells[i]? = some (some a) := by
  simp [cell, Option.join_eq_some_iff]

theorem lt_length_of_cell {cells : List (Option α)} {i : Nat} {a : α}
    (h : cell cells i = some a) : i < cells.length := by
  obtain ⟨hi, -⟩ := List.getElem?_eq_some_iff.mp (cell_eq_some_iff.mp h)
  exact hi

@[simp] theorem cell_nil (i : Nat) : cell ([] : List (Option α)) i = none := rfl

@[simp] theorem cell_cons_zero (c : Option α) (cells : List (Option α)) :
    cell (c :: cells) 0 = c := by
  simp [cell]

@[simp] theorem cell_cons_succ (c : Option α) (cells : List (Option α)) (i : Nat) :
    cell (c :: cells) (i + 1) = cell cells i := by
  simp [cell]

theorem cell_set (cells : List (Option α)) (c : Option α) {i : Nat}
    (hi : i < cells.length) (j : Nat) :
    cell (cells.set i c) j = if i = j then c else cell cells j := by
  by_cases hij : i = j
  · subst hij
    simp [cell, hi]
  · simp [cell, hij]

theorem cell_set_self (cells : List (Option α)) (c : Option α) {i : Nat}
    (hi : i < cells.length) : cell (cells.set i c) i = c := by
  simp [cell_set cells c hi]

theorem cell_set_of_ne (cells : List (Option α)) (c : Option α) {i j : Nat}
    (hij : i ≠ j) : cell (cells.set i c) j = cell cells j := by
  simp [cell, hij]

theorem cell_modify (cells : List (Option α)) (f : α → α) (i j : Nat) :
    cell (cells.modify i (Option.map f)) j =
      if i = j then (cell cells j).map f else cell cells j := by
  simp only [cell, List.getElem?_modify]
  cases cells[j]? with
  | none => simp
  | some c =>
      split
      · simp
      · simp

theorem cell_append_replicate_none (cells : List (Option α)) (n i : Nat) :
    cell (cells ++ List.replicate n none) i = cell cells i := by
  simp only [cell, List.getElem?_append]
  split
  · rfl
  · rename_i hi
    rw [List.getElem?_eq_none (by omega : cells.length ≤ i)]
    simp only [List.getElem?_replicate]
    split
    · rfl
    · rfl

def occupied (cells : List (Option α)) : Nat := cells.countP Option.isSome

theorem occupied_le_length (cells : List (Option α)) :
    occupied cells ≤ cells.length :=
  List.countP_le_length

@[simp] theorem occupied_append_replicate_none (cells : List (Option α)) (n : Nat) :
    occupied (cells ++ List.replicate n none) = occupied cells := by
  simp [occupied, List.countP_replicate]

theorem occupied_set (cells : List (Option α)) (c : Option α) {i : Nat}
    (hi : i < cells.length) :
    occupied (cells.set i c) + (cell cells i).toList.length =
      occupied cells + c.toList.length := by
  induction cells generalizing i with
  | nil => simp at hi
  | cons d cells ih =>
      cases i with
      | zero =>
          simp only [List.set_cons_zero, occupied, List.countP_cons, cell_cons_zero]
          cases c <;> cases d <;> simp
      | succ i =>
          have hcells := ih (i := i) (by simpa using hi)
          simp only [occupied] at hcells
          simp only [List.set_cons_succ, occupied, List.countP_cons, cell_cons_succ]
          omega

theorem occupied_set_some_of_empty {cells : List (Option α)} {i : Nat} (a : α)
    (hi : i < cells.length) (h : cell cells i = none) :
    occupied (cells.set i (some a)) = occupied cells + 1 := by
  simpa [h] using occupied_set cells (some a) hi

theorem occupied_set_some_of_full {cells : List (Option α)} {i : Nat} {b : α} (a : α)
    (h : cell cells i = some b) :
    occupied (cells.set i (some a)) = occupied cells := by
  simpa [h] using occupied_set cells (some a) (lt_length_of_cell h)

theorem occupied_set_none {cells : List (Option α)} {i : Nat} {b : α}
    (h : cell cells i = some b) :
    occupied (cells.set i none) + 1 = occupied cells := by
  simpa [h] using occupied_set cells none (lt_length_of_cell h)

@[simp] theorem occupied_modify (cells : List (Option α)) (f : α → α) (i : Nat) :
    occupied (cells.modify i (Option.map f)) = occupied cells := by
  induction cells generalizing i with
  | nil => simp [occupied]
  | cons d cells ih =>
      cases i with
      | zero => simp [occupied, List.countP_cons]
      | succ i =>
          simp only [occupied] at ih
          simp [occupied, List.countP_cons, ih]

theorem occupied_pos_of_cell {cells : List (Option α)} {i : Nat} {a : α}
    (h : cell cells i = some a) : 0 < occupied cells := by
  have := occupied_set_none h
  omega

theorem cell_ne_none_of_occupied_eq_length {cells : List (Option α)}
    (h : occupied cells = cells.length) {i : Nat} (hi : i < cells.length) :
    cell cells i ≠ none := by
  have hall := List.countP_eq_length.mp h cells[i] (List.getElem_mem hi)
  intro hnone
  rw [cell, List.getElem?_eq_getElem hi] at hnone
  cases hcell : cells[i] with
  | none => simp [hcell] at hall
  | some a => simp [hcell] at hnone

def contents (cells : List (Option α)) : List α := cells.filterMap id

@[simp] theorem length_contents (cells : List (Option α)) :
    (contents cells).length = occupied cells :=
  List.length_filterMap_eq_countP

theorem mem_contents_iff {cells : List (Option α)} {a : α} :
    a ∈ contents cells ↔ ∃ i, cell cells i = some a := by
  rw [contents, List.mem_filterMap]
  simp [cell_eq_some_iff, List.mem_iff_getElem?]

theorem contents_append_replicate_none (cells : List (Option α)) (n : Nat) :
    contents (cells ++ List.replicate n none) = contents cells := by
  simp [contents]

theorem contents_set_some_perm {cells : List (Option α)} {i : Nat} (a : α)
    (hi : i < cells.length) (h : cell cells i = none) :
    (contents (cells.set i (some a))).Perm (a :: contents cells) := by
  induction cells generalizing i with
  | nil => simp at hi
  | cons c cells ih =>
      rcases i with _ | i
      · obtain rfl : c = none := by simpa using h
        simp [contents]
      · have hcells := ih (i := i) (by simpa using hi) (by simpa using h)
        rcases c with _ | b
        · exact hcells
        · exact (hcells.cons b).trans (List.Perm.swap a b _)

theorem contents_perm_cons {cells : List (Option α)} {i : Nat} {b : α}
    (h : cell cells i = some b) :
    (contents cells).Perm (b :: contents (cells.set i none)) := by
  have hi := lt_length_of_cell h
  have hback : (contents ((cells.set i none).set i (some b))).Perm
      (b :: contents (cells.set i none)) :=
    contents_set_some_perm b (by simpa using hi) (cell_set_self cells none hi)
  rw [List.set_set] at hback
  rw [cell_eq_some_iff, List.getElem?_eq_getElem hi, Option.some.injEq] at h
  rwa [← h, List.set_getElem_self] at hback

theorem nodup_map_contents {β : Type*} {f : α → β} {cells : List (Option α)}
    (h : ∀ i j a b, cell cells i = some a → cell cells j = some b → f a = f b → i = j) :
    ((contents cells).map f).Nodup := by
  induction cells with
  | nil => simp [contents]
  | cons c cells ih =>
      have hcells := ih fun i j a b hi hj hab =>
        Nat.succ.inj (h (i + 1) (j + 1) a b (by simpa using hi) (by simpa using hj) hab)
      rcases c with _ | a
      · exact hcells
      · refine List.nodup_cons.mpr ⟨fun hmem => ?_, hcells⟩
        obtain ⟨b, hb, hab⟩ := List.mem_map.mp hmem
        obtain ⟨j, hj⟩ := mem_contents_iff.mp hb
        have hindex := h 0 (j + 1) a b (by simp) (by simpa using hj) hab.symm
        omega

def firstHit (p : α → Bool) (cells : List (Option α)) : Option Nat :=
  cells.findIdx? fun c => c.any p

theorem firstHit_cons (p : α → Bool) (c : Option α) (cells : List (Option α)) :
    firstHit p (c :: cells) =
      if c.any p then some 0 else (firstHit p cells).map (· + 1) := by
  simp [firstHit, List.findIdx?_cons]

theorem firstHit_eq_some_iff {p : α → Bool} {cells : List (Option α)} {i : Nat} :
    firstHit p cells = some i ↔
      (∃ a, cell cells i = some a ∧ p a) ∧
        ∀ j < i, ∀ b, cell cells j = some b → p b = false := by
  induction cells generalizing i with
  | nil => simp [firstHit]
  | cons c cells ih =>
      rw [firstHit_cons]
      split
      · rename_i hc
        obtain ⟨a, rfl, ha⟩ : ∃ a, c = some a ∧ p a := by
          simpa [Option.any_eq_true] using hc
        cases i with
        | zero => simp [ha]
        | succ i =>
            simp only [Option.some.injEq, reduceCtorEq, false_iff, not_and]
            intro _ hall
            have := hall 0 (by omega) a rfl
            simp [ha] at this
      · rename_i hc
        have hfree : ∀ b, c = some b → p b = false := by
          rintro b rfl
          simpa using hc
        cases i with
        | zero =>
            simp only [Option.map_eq_some_iff, cell_cons_zero]
            constructor
            · rintro ⟨j, -, hj⟩
              omega
            · rintro ⟨⟨a, ha, hpa⟩, -⟩
              simp [hfree a ha] at hpa
        | succ i =>
            simp only [Option.map_eq_some_iff, Nat.add_right_cancel_iff,
              exists_eq_right, ih, cell_cons_succ]
            refine and_congr_right fun _ => ?_
            constructor
            · intro hall j hj b hb
              cases j with
              | zero => exact hfree b hb
              | succ j => exact hall j (by omega) b hb
            · intro hall j hj b hb
              exact hall (j + 1) (by omega) b hb

theorem firstHit_eq_none_iff {p : α → Bool} {cells : List (Option α)} :
    firstHit p cells = none ↔ ∀ i a, cell cells i = some a → p a = false := by
  simp only [firstHit, List.findIdx?_eq_none_iff]
  constructor
  · intro hall i a hi
    have hmem : some a ∈ cells :=
      List.mem_of_getElem? (cell_eq_some_iff.mp hi)
    simpa using hall _ hmem
  · intro hall c hc
    cases c with
    | none => rfl
    | some a =>
        obtain ⟨i, hi⟩ := List.mem_iff_getElem?.mp hc
        simpa using hall i a (cell_eq_some_iff.mpr hi)

/-- Look at the home cell, then scan the whole array. An empty home cell ends
the search. -/
def probe (p : α → Bool) (home : Nat) (cells : List (Option α)) : Option Nat :=
  match cell cells home with
  | none => none
  | some a => if p a then some home else firstHit p cells

theorem probe_eq_some_iff {p : α → Bool} {home i : Nat} {cells : List (Option α)} :
    probe p home cells = some i ↔
      (∃ a, cell cells i = some a ∧ p a) ∧
        (home = i ∨ (∃ b, cell cells home = some b ∧ p b = false) ∧
          ∀ j < i, ∀ b, cell cells j = some b → p b = false) := by
  rw [probe]
  split
  · rename_i hhome
    constructor
    · intro h
      cases h
    · rintro ⟨⟨a, ha, -⟩, rfl | ⟨⟨b, hb, -⟩, -⟩⟩
      · simp [hhome] at ha
      · simp [hhome] at hb
  · rename_i a hhome
    split
    · rename_i hpa
      constructor
      · intro h
        obtain rfl : home = i := by simpa using h
        exact ⟨⟨a, hhome, hpa⟩, Or.inl rfl⟩
      · rintro ⟨-, rfl | ⟨⟨b, hb, hpb⟩, -⟩⟩
        · rfl
        · obtain rfl : a = b := by simpa [hhome] using hb
          simp [hpa] at hpb
    · rename_i hpa
      have hpa' : p a = false := by simpa using hpa
      rw [firstHit_eq_some_iff]
      constructor
      · rintro ⟨hhit, hfirst⟩
        exact ⟨hhit, Or.inr ⟨⟨a, hhome, hpa'⟩, hfirst⟩⟩
      · rintro ⟨⟨b, hb, hpb⟩, rfl | ⟨-, hfirst⟩⟩
        · obtain rfl : a = b := by simpa [hhome] using hb
          exact absurd hpb hpa
        · exact ⟨⟨b, hb, hpb⟩, hfirst⟩

theorem probe_eq_none_iff {p : α → Bool} {home : Nat} {cells : List (Option α)} :
    probe p home cells = none ↔
      cell cells home = none ∨ ∀ i a, cell cells i = some a → p a = false := by
  rw [probe]
  split
  · rename_i hhome
    simp [hhome]
  · rename_i a hhome
    split
    · rename_i hpa
      simp only [reduceCtorEq, hhome, false_or, false_iff, not_forall]
      exact ⟨home, a, hhome, by simp [hpa]⟩
    · simp [hhome, firstHit_eq_none_iff]

theorem cell_of_probe {p : α → Bool} {home i : Nat} {cells : List (Option α)}
    (h : probe p home cells = some i) : ∃ a, cell cells i = some a ∧ p a :=
  (probe_eq_some_iff.mp h).1

theorem home_ne_none_of_probe {p : α → Bool} {home i : Nat} {cells : List (Option α)}
    (h : probe p home cells = some i) : cell cells home ≠ none := by
  intro hhome
  rw [probe_eq_none_iff.mpr (Or.inl hhome)] at h
  cases h

theorem probe_congr {p : α → Bool} {home : Nat} {cells cells' : List (Option α)}
    (h : ∀ i, cell cells i = cell cells' i) :
    probe p home cells = probe p home cells' := by
  apply Option.ext
  intro i
  simp only [probe_eq_some_iff, h]

theorem probe_modify {p : α → Bool} {f : α → α} (hf : ∀ a, p (f a) = p a)
    (home t : Nat) (cells : List (Option α)) :
    probe p home (cells.modify t (Option.map f)) = probe p home cells := by
  have hcell : ∀ (q : Bool → Prop) (i : Nat),
      (∃ a, cell (cells.modify t (Option.map f)) i = some a ∧ q (p a)) ↔
        ∃ a, cell cells i = some a ∧ q (p a) := by
    intro q i
    rw [cell_modify]
    split
    · cases cell cells i with
      | none => simp
      | some a => simp [hf]
    · rfl
  have hall : ∀ i, (∀ a, cell (cells.modify t (Option.map f)) i = some a → p a = false) ↔
      ∀ a, cell cells i = some a → p a = false := by
    intro i
    rw [cell_modify]
    split
    · cases cell cells i with
      | none => simp
      | some a => simp [hf]
    · rfl
  apply Option.ext
  intro i
  rw [probe_eq_some_iff, probe_eq_some_iff, hcell (· = true), hcell (· = false)]
  simp only [hall]

/-- A search that ends at a cell still ends there after an insertion into an
empty cell, unless the new content is met first. -/
theorem probe_set_some {p : α → Bool} {home i t : Nat} {cells : List (Option α)} {b : α}
    (ht : t < cells.length) (hempty : cell cells t = none)
    (h : probe p home cells = some i) (hb : p b = true → home = i ∨ i < t) :
    probe p home (cells.set t (some b)) = some i := by
  have hhome : home ≠ t := by
    rintro rfl
    exact home_ne_none_of_probe h hempty
  rw [probe_eq_some_iff] at h ⊢
  obtain ⟨⟨a, ha, hpa⟩, hreach⟩ := h
  have hti : t ≠ i := by
    rintro rfl
    simp [hempty] at ha
  refine ⟨⟨a, by rw [cell_set_of_ne _ _ hti, ha], hpa⟩, ?_⟩
  rcases hreach with rfl | ⟨⟨c, hc, hpc⟩, hfirst⟩
  · exact Or.inl rfl
  · by_cases hhi : home = i
    · exact Or.inl hhi
    · refine Or.inr ⟨⟨c, by rw [cell_set_of_ne _ _ (Ne.symm hhome), hc], hpc⟩, ?_⟩
      intro j hj d hd
      rw [cell_set _ _ ht] at hd
      split at hd
      · obtain rfl : b = d := by simpa using hd
        by_contra hpb
        have := hb (by simpa using hpb)
        omega
      · exact hfirst j hj d hd

theorem probe_set_self {p : α → Bool} {home t : Nat} {cells : List (Option α)} {b : α}
    (ht : t < cells.length) (hb : p b = true)
    (h : home = t ∨ (∃ a, cell cells home = some a ∧ p a = false) ∧
      ∀ i < t, ∀ a, cell cells i = some a → p a = false) :
    probe p home (cells.set t (some b)) = some t := by
  rw [probe_eq_some_iff]
  refine ⟨⟨b, cell_set_self _ _ ht, hb⟩, ?_⟩
  by_cases hhome : home = t
  · exact Or.inl hhome
  · obtain ⟨⟨c, hc, hmiss⟩, hbelow⟩ := h.resolve_left hhome
    refine Or.inr ⟨⟨c, by rw [cell_set_of_ne _ _ (Ne.symm hhome), hc], hmiss⟩, ?_⟩
    intro j hj d hd
    rw [cell_set_of_ne _ _ (by omega)] at hd
    exact hbelow j hj d hd

theorem probe_set_none {p : α → Bool} {home i t : Nat} {cells : List (Option α)}
    (h : probe p home cells = some i) (hhome : home ≠ t) (hi : i ≠ t) :
    probe p home (cells.set t none) = some i := by
  rw [probe_eq_some_iff] at h ⊢
  obtain ⟨⟨a, ha, hpa⟩, hreach⟩ := h
  refine ⟨⟨a, by rw [cell_set_of_ne _ _ (Ne.symm hi), ha], hpa⟩, ?_⟩
  rcases hreach with rfl | ⟨⟨c, hc, hpc⟩, hfirst⟩
  · exact Or.inl rfl
  · refine Or.inr ⟨⟨c, by rw [cell_set_of_ne _ _ (Ne.symm hhome), hc], hpc⟩, ?_⟩
    intro j hj d hd
    by_cases hjt : t = j
    · subst hjt
      by_cases ht : t < cells.length
      · simp [cell_set_self _ _ ht] at hd
      · rw [List.set_eq_of_length_le (by omega)] at hd
        exact hfirst t hj d hd
    · rw [cell_set_of_ne _ _ hjt] at hd
      exact hfirst j hj d hd

/-- The first empty cell above `home`, in an array whose first index is `i`. -/
def firstEmptyAboveFrom (home : Nat) : List (Option α) → Nat → Option Nat
  | [], _ => none
  | none :: cells, i =>
      if home < i then some i else firstEmptyAboveFrom home cells (i + 1)
  | some _ :: cells, i => firstEmptyAboveFrom home cells (i + 1)

def firstEmptyAbove (home : Nat) (cells : List (Option α)) : Option Nat :=
  firstEmptyAboveFrom home cells 0

theorem firstEmptyAboveFrom_spec {home i t : Nat} {cells : List (Option α)}
    (h : firstEmptyAboveFrom home cells i = some t) :
    home < t ∧ ∃ j < cells.length, t = i + j ∧ cell cells j = none := by
  induction cells generalizing i with
  | nil => simp [firstEmptyAboveFrom] at h
  | cons c cells ih =>
      have hlater : firstEmptyAboveFrom home cells (i + 1) = some t →
          home < t ∧ ∃ j < (c :: cells).length, t = i + j ∧ cell (c :: cells) j = none := by
        intro hrest
        obtain ⟨hlt, j, hj, rfl, hcell⟩ := ih hrest
        exact ⟨hlt, j + 1, by simpa using hj, by omega, by simpa using hcell⟩
      rcases c with _ | a
      · rw [firstEmptyAboveFrom] at h
        split at h
        · rename_i hlt
          obtain rfl : i = t := by simpa using h
          exact ⟨hlt, 0, by simp, rfl, by simp⟩
        · exact hlater h
      · exact hlater h

theorem firstEmptyAbove_spec {home t : Nat} {cells : List (Option α)}
    (h : firstEmptyAbove home cells = some t) :
    home < t ∧ t < cells.length ∧ cell cells t = none := by
  obtain ⟨hlt, j, hj, rfl, hcell⟩ := firstEmptyAboveFrom_spec h
  rw [Nat.zero_add] at hlt ⊢
  exact ⟨hlt, hj, hcell⟩

theorem ne_none_of_firstEmptyAboveFrom {home i j : Nat} {cells : List (Option α)}
    (h : firstEmptyAboveFrom home cells i = none) (hlt : home < i + j)
    (hj : j < cells.length) : cell cells j ≠ none := by
  induction cells generalizing i j with
  | nil => simp at hj
  | cons c cells ih =>
      have hlater : firstEmptyAboveFrom home cells (i + 1) = none → ∀ k, j = k + 1 →
          cell (c :: cells) j ≠ none := by
        rintro hrest k rfl
        rw [cell_cons_succ]
        exact ih hrest (by omega) (by simpa using hj)
      rcases c with _ | a
      · rw [firstEmptyAboveFrom] at h
        split at h
        · simp at h
        · rename_i hle
          exact hlater h (j - 1) (by omega)
      · rcases j with _ | j
        · simp
        · exact hlater h j rfl

theorem ne_none_of_firstEmptyAbove {home j : Nat} {cells : List (Option α)}
    (h : firstEmptyAbove home cells = none) (hlt : home < j) (hj : j < cells.length) :
    cell cells j ≠ none :=
  ne_none_of_firstEmptyAboveFrom h (by omega) hj

end CHomework.CellArray
