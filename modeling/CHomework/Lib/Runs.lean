import Mathlib.Data.List.Induction

/-!
Runs of a partial step function over a list of operations, and runs each of
whose steps meets a guard on the state it starts from.
-/

namespace CHomework.Runs

variable {σ ο : Type*} (step : σ → ο → Option σ)

def run (s : σ) (ops : List ο) : Option σ := ops.foldlM step s

@[simp] theorem run_nil (s : σ) : run step s [] = some s := rfl

theorem run_append (s : σ) (ops ops' : List ο) :
    run step s (ops ++ ops') = (run step s ops).bind fun s' => run step s' ops' :=
  List.foldlM_append

theorem run_snoc (s : σ) (ops : List ο) (o : ο) :
    run step s (ops ++ [o]) = (run step s ops).bind fun s' => step s' o := by
  rw [run_append]
  congr 1
  funext s'
  simp [run]

theorem run_snoc_eq_some_iff {s s'' : σ} {ops : List ο} {o : ο} :
    run step s (ops ++ [o]) = some s'' ↔
      ∃ s', run step s ops = some s' ∧ step s' o = some s'' := by
  rw [run_snoc, Option.bind_eq_some_iff]

/-- A property of the start that every step keeps holds after every run. -/
theorem run_invariant (inv : σ → Prop) {s : σ} (hinit : inv s)
    (hstep : ∀ s o s', inv s → step s o = some s' → inv s')
    {ops : List ο} {s' : σ} (hrun : run step s ops = some s') : inv s' := by
  induction ops using List.reverseRecOn generalizing s' with
  | nil =>
      obtain rfl : s = s' := by simpa using hrun
      exact hinit
  | append_singleton ops o ih =>
      obtain ⟨t, ht, hto⟩ := (run_snoc_eq_some_iff step).mp hrun
      exact hstep t o s' (ih ht) hto

/-- The states a run passes through, its end included. -/
def Visits (s : σ) (ops : List ο) (s' : σ) : Prop :=
  ∃ before, before <+: ops ∧ run step s before = some s'

/-- Runs from `s` whose every step starts from a state that meets the guard. -/
inductive GuardedRun (guard : σ → ο → Prop) (s : σ) : List ο → σ → Prop
  | nil : GuardedRun guard s [] s
  | snoc {ops : List ο} {t t' : σ} {o : ο} : GuardedRun guard s ops t →
      guard t o → step t o = some t' → GuardedRun guard s (ops ++ [o]) t'

variable {step}

theorem GuardedRun.run_eq {guard : σ → ο → Prop} {s t : σ} {ops : List ο}
    (h : GuardedRun step guard s ops t) : run step s ops = some t := by
  induction h with
  | nil => rfl
  | snoc _ _ hstep ih => exact (run_snoc_eq_some_iff step).mpr ⟨_, ih, hstep⟩

theorem GuardedRun.mono {guard guard' : σ → ο → Prop} (hguard : ∀ t o, guard t o → guard' t o)
    {s t : σ} {ops : List ο} (h : GuardedRun step guard s ops t) :
    GuardedRun step guard' s ops t := by
  induction h with
  | nil => exact .nil
  | snoc _ hmet hstep ih => exact ih.snoc (hguard _ _ hmet) hstep

theorem GuardedRun.forall_mem {guard : σ → ο → Prop} {p : ο → Prop}
    (hguard : ∀ t o, guard t o → p o) {s t : σ} {ops : List ο}
    (h : GuardedRun step guard s ops t) : ∀ o ∈ ops, p o := by
  induction h with
  | nil => exact List.forall_mem_nil p
  | snoc _ hmet _ ih => exact List.forall_mem_append.mpr ⟨ih, by simpa using hguard _ _ hmet⟩

theorem GuardedRun.invariant {guard : σ → ο → Prop} {inv : σ → Prop} {s t : σ}
    {ops : List ο} (h : GuardedRun step guard s ops t) (hinit : inv s)
    (hstep : ∀ t o t', inv t → guard t o → step t o = some t' → inv t') : inv t := by
  induction h with
  | nil => exact hinit
  | snoc _ hguard hto ih => exact hstep _ _ _ ih hguard hto

/-- A relation to an abstract state that every guarded step keeps, when the
abstract state makes its own step, holds after every guarded run. -/
theorem GuardedRun.simulates {δ : Type*} {guard : σ → ο → Prop} {rel : σ → δ → Prop}
    (apply : δ → ο → δ) {s t : σ} {d : δ} {ops : List ο}
    (h : GuardedRun step guard s ops t) (hinit : rel s d)
    (hstep : ∀ t o t' d, rel t d → guard t o → step t o = some t' → rel t' (apply d o)) :
    rel t (ops.foldl apply d) := by
  induction h with
  | nil => exact hinit
  | snoc _ hguard hto ih =>
      rw [List.foldl_append]
      exact hstep _ _ _ _ ih hguard hto

theorem GuardedRun.snoc_iff {guard : σ → ο → Prop} {s t' : σ} {ops : List ο} {o : ο} :
    GuardedRun step guard s (ops ++ [o]) t' ↔
      ∃ t, GuardedRun step guard s ops t ∧ guard t o ∧ step t o = some t' := by
  constructor
  · intro h
    generalize hall : ops ++ [o] = all at h
    rcases h with _ | ⟨hrun, hguard, hstep⟩
    · simp at hall
    · obtain ⟨rfl, hlast⟩ := List.append_inj' hall rfl
      obtain rfl : o = _ := by simpa using hlast
      exact ⟨_, hrun, hguard, hstep⟩
  · rintro ⟨t, hrun, hguard, hstep⟩
    exact .snoc hrun hguard hstep

theorem guardedRun_iff {guard : σ → ο → Prop} [∀ t o, Decidable (guard t o)] {s t : σ}
    {ops : List ο} :
    GuardedRun step guard s ops t ↔
      run (fun t o => if guard t o then step t o else none) s ops = some t := by
  induction ops using List.reverseRecOn generalizing t with
  | nil =>
      constructor
      · intro h
        generalize hall : ([] : List ο) = all at h
        rcases h with _ | _
        · rfl
        · simp at hall
      · intro h
        obtain rfl : s = t := by simpa using h
        exact .nil
  | append_singleton ops o ih =>
      rw [GuardedRun.snoc_iff, run_snoc_eq_some_iff]
      simp only [ih, Option.ite_none_right_eq_some]

/-- The end of the run is known, so that only its last step is left to guard. -/
theorem GuardedRun.snoc_iff_of_run {guard : σ → ο → Prop} {s t t' : σ} {ops : List ο} {o : ο}
    (hrun : run step s ops = some t) (hstep : step t o = some t') :
    GuardedRun step guard s (ops ++ [o]) t' ↔ GuardedRun step guard s ops t ∧ guard t o := by
  rw [GuardedRun.snoc_iff]
  constructor
  · rintro ⟨u, hguarded, hguard, -⟩
    obtain rfl : t = u := by simpa [hrun] using hguarded.run_eq
    exact ⟨hguarded, hguard⟩
  · rintro ⟨hguarded, hguard⟩
    exact ⟨t, hguarded, hguard, hstep⟩

/-- When the step of another system succeeds exactly under the guard, and leads to a related
state again, its runs succeed exactly beside the guarded ones. -/
theorem isSome_run_iff_guardedRun {τ : Type*} {step' : τ → ο → Option τ} {rel : σ → τ → Prop}
    {guard : σ → ο → Prop}
    (hstep : ∀ s t o s', rel s t → step s o = some s' →
      ((step' t o).isSome ↔ guard s o) ∧ ∀ t', step' t o = some t' → rel s' t')
    {ops : List ο} {s s' : σ} {t : τ} (hrel : rel s t) (hrun : run step s ops = some s') :
    ((run step' t ops).isSome ↔ GuardedRun step guard s ops s') ∧
      ∀ t', run step' t ops = some t' → rel s' t' := by
  induction ops using List.reverseRecOn generalizing s' with
  | nil =>
      obtain rfl : s = s' := by simpa using hrun
      refine ⟨iff_of_true rfl .nil, ?_⟩
      rintro t' ⟨⟩
      exact hrel
  | append_singleton ops o ih =>
      obtain ⟨u, hu, huo⟩ := (run_snoc_eq_some_iff step).mp hrun
      obtain ⟨hiff, hrels⟩ := ih hu
      rw [GuardedRun.snoc_iff_of_run hu huo, run_snoc, ← hiff]
      rcases hother : run step' t ops with _ | v
      · simp
      obtain ⟨hsome, hrels'⟩ := hstep u v o s' (hrels v hother) huo
      rw [Option.bind_some, hsome]
      exact ⟨(and_iff_right rfl).symm, hrels'⟩

/-- When a step from a state of the invariant reaches a good state exactly if
it starts from a good state and meets the guard, the good ends of runs are the
ends of guarded runs. -/
theorem good_iff_guardedRun {guard : σ → ο → Prop} (inv good : σ → Prop) {s : σ}
    (hinv : inv s) (hgood : good s)
    (hkeep : ∀ t o t', inv t → step t o = some t' → inv t')
    (hstep : ∀ t o t', inv t → step t o = some t' → (good t' ↔ good t ∧ guard t o))
    {ops : List ο} {t : σ} (hrun : run step s ops = some t) :
    good t ↔ GuardedRun step guard s ops t := by
  induction ops using List.reverseRecOn generalizing t with
  | nil =>
      obtain rfl : s = t := by simpa using hrun
      exact ⟨fun _ => .nil, fun _ => hgood⟩
  | append_singleton ops o ih =>
      obtain ⟨u, hu, huo⟩ := (run_snoc_eq_some_iff step).mp hrun
      have hinvu : inv u := run_invariant step inv hinv hkeep hu
      rw [hstep u o t hinvu huo, ih hu, GuardedRun.snoc_iff_of_run hu huo]

end CHomework.Runs
