import CHomework.FileObserver.Model

namespace CHomework.FileObserver

open CHomework.CString

inductive Kind where
  | create
  | delete
  | modify
  deriving DecidableEq

def Kind.mask : Kind → UInt32
  | .create => inCreate
  | .delete => inDelete
  | .modify => inModify

/-- A change of the monitored file, and what the system calls return while it is
handled. -/
structure Change where
  kind : Kind
  opens : Bool
  size : Option Int64
  sends : Bool

def Change.event (path : CStr) (c : Change) : Event where
  mask := c.kind.mask
  name := path
  opens := c.opens
  size := c.size
  sends := c.sends

/-- The changes that a file can go through, from a state in which it exists or
does not. -/
def Life : Bool → List Change → Prop
  | _, [] => True
  | isThere, c :: changes =>
      match c.kind with
      | .create => isThere = false ∧ Life true changes
      | .delete => isThere = true ∧ Life false changes
      | .modify => isThere = true ∧ Life true changes

/-- The life of a file that exists at first, in the batches in which its events
are read. A read of no events ends the loop. -/
structure History where
  batches : List (List Change)
  life : Life true batches.flatten

namespace History

variable (h : History)

def reads (path : CStr) : List (Option (List Event)) :=
  h.batches.map fun batch => some (batch.map (Change.event path))

/-- The changes whose events are read before the loop ends. -/
def seen : List Change := (h.batches.takeWhile (· ≠ [])).flatten

end History

namespace Monitor

variable {m m' : Monitor}

def Valid (m : Monitor) : Prop := ∃ file, m.fp = some file ∧ m.isOpen file = true

theorem valid_fopen (m : Monitor) (opens : Bool) : (m.fopen opens).Valid ↔ opens = true := by
  cases opens with
  | false => simp [Valid, fopen]
  | true => simp [Valid, fopen]

@[simp] theorem valid_send (m : Monitor) (msg : List UInt8) (sends : Bool) :
    (m.send msg sends).Valid ↔ m.Valid := by
  cases sends with
  | false => rfl
  | true => rfl

theorem fclose_isSome_iff (m : Monitor) : m.fclose.isSome ↔ m.Valid := by
  rw [fclose]
  rcases hfp : m.fp with _ | file
  · simp [Valid, hfp]
  · rcases hopen : m.isOpen file with _ | _
    · simp [Valid, hfp, hopen]
    · simp [Valid, hfp, hopen]

theorem not_valid_of_fclose (h : m.fclose = some m') : ¬ m'.Valid := by
  obtain ⟨file, hfp, hclose⟩ := Option.bind_eq_some_iff.mp h
  split at hclose
  · obtain rfl := Option.some.inj hclose
    rintro ⟨other, hother, hopen⟩
    obtain rfl : file = other := by simpa [hfp] using hother
    simp at hopen
  · cases hclose

theorem fstat_isSome_iff (m : Monitor) (size : Option Int64) :
    (m.fstat size).isSome ↔ m.Valid := by
  rw [fstat]
  rcases hfp : m.fp with _ | file
  · simp [Valid, hfp]
  · rcases hopen : m.isOpen file with _ | _
    · simp [Valid, hfp, hopen]
    · simp [Valid, hfp, hopen]

theorem valid_of_fstat {size : Option Int64} (h : m.fstat size = some m') : m'.Valid := by
  obtain ⟨file, hfp, hstat⟩ := Option.bind_eq_some_iff.mp h
  split at hstat
  · rename_i hopen
    obtain rfl := Option.some.inj hstat
    exact ⟨file, hfp, hopen⟩
  · cases hstat

end Monitor

section Change

variable {path : CStr} {m m' : Monitor} {c : Change}

theorem handleEvent_create (h : c.kind = .create) :
    handleEvent path m (c.event path) =
      some ((m.fopen c.opens).send (createdMsg path) c.sends) := by
  have hcmp : strcmp path path = 0 := (strcmp_eq_zero_iff _ _).mpr rfl
  simp only [handleEvent, Change.event, hcmp, h, if_true]
  rfl

theorem handleEvent_delete (h : c.kind = .delete) :
    handleEvent path m (c.event path) =
      m.fclose.map fun m => m.send (deletedMsg path) c.sends := by
  have hcmp : strcmp path path = 0 := (strcmp_eq_zero_iff _ _).mpr rfl
  simp only [handleEvent, Change.event, hcmp, h, if_true, Option.map_eq_bind]
  rfl

theorem handleEvent_modify (h : c.kind = .modify) :
    handleEvent path m (c.event path) =
      (m.fstat c.size).map fun m => m.send (sizeMsg m.fileStatSize) c.sends := by
  have hcmp : strcmp path path = 0 := (strcmp_eq_zero_iff _ _).mpr rfl
  simp only [handleEvent, Change.event, hcmp, h, if_true, Option.map_eq_bind]
  rfl

theorem handleEvent_isSome_iff :
    (handleEvent path m (c.event path)).isSome ↔ c.kind = .create ∨ m.Valid := by
  rcases hkind : c.kind with _ | _ | _
  · rw [handleEvent_create hkind]
    simp
  · rw [handleEvent_delete hkind, Option.isSome_map, m.fclose_isSome_iff]
    simp
  · rw [handleEvent_modify hkind, Option.isSome_map, m.fstat_isSome_iff]
    simp

theorem valid_of_handleEvent (h : handleEvent path m (c.event path) = some m') :
    m'.Valid ↔ (c.kind = .create ∧ c.opens = true) ∨ c.kind = .modify := by
  rcases hkind : c.kind with _ | _ | _
  · rw [handleEvent_create hkind] at h
    obtain rfl := Option.some.inj h
    simp [m.valid_fopen]
  · rw [handleEvent_delete hkind] at h
    obtain ⟨n, hn, rfl⟩ := Option.map_eq_some_iff.mp h
    simp [Monitor.not_valid_of_fclose hn]
  · rw [handleEvent_modify hkind] at h
    obtain ⟨n, hn, rfl⟩ := Option.map_eq_some_iff.mp h
    simp [Monitor.valid_of_fstat hn]

end Change

/-- No reopening that fails is followed by another event or by the end of the
loop, and no deletion by the end of the loop. -/
def KeepsHandle (changes : List Change) (ends : Prop) : Prop :=
  ∀ before c after, changes = before ++ c :: after →
    (c.kind = .create → c.opens = false → after = [] ∧ ¬ ends) ∧
      (c.kind = .delete → after = [] → ¬ ends)

theorem keepsHandle_cons_iff {c : Change} {changes : List Change} {ends : Prop} :
    KeepsHandle (c :: changes) ends ↔
      ((c.kind = .create → c.opens = false → changes = [] ∧ ¬ ends) ∧
        (c.kind = .delete → changes = [] → ¬ ends)) ∧ KeepsHandle changes ends := by
  constructor
  · intro h
    refine ⟨h [] c changes rfl, ?_⟩
    intro before d after hsplit
    exact h (c :: before) d after (by rw [hsplit]; rfl)
  · rintro ⟨hhead, htail⟩ before d after hsplit
    rcases before with _ | ⟨e, before⟩
    · obtain ⟨rfl, rfl⟩ : c = d ∧ changes = after := by simpa using hsplit
      exact hhead
    · obtain ⟨-, hrest⟩ : c = e ∧ changes = before ++ d :: after := by simpa using hsplit
      exact htail before d after hrest

/-- All events are handled, and the handle is valid behind them where it is used
once more. -/
def Completes (path : CStr) (m : Monitor) (changes : List Change) (ends : Prop) : Prop :=
  ∃ m', (changes.map (Change.event path)).foldlM (handleEvent path) m = some m' ∧
    (ends → m'.Valid)

theorem completes_nil_iff {path : CStr} {m : Monitor} {ends : Prop} :
    Completes path m [] ends ↔ (ends → m.Valid) := by
  simp [Completes]

theorem completes_append_iff {path : CStr} {m : Monitor} {changes changes' : List Change}
    {ends : Prop} :
    Completes path m (changes ++ changes') ends ↔
      ∃ m', (changes.map (Change.event path)).foldlM (handleEvent path) m = some m' ∧
        Completes path m' changes' ends := by
  simp only [Completes, List.map_append, List.foldlM_append]
  constructor
  · rintro ⟨m'', hrun, hends⟩
    obtain ⟨m', hfirst, hrest⟩ := Option.bind_eq_some_iff.mp hrun
    exact ⟨m', hfirst, m'', hrest, hends⟩
  · rintro ⟨m', hfirst, m'', hrest, hends⟩
    exact ⟨m'', Option.bind_eq_some_iff.mpr ⟨m', hfirst, hrest⟩, hends⟩

theorem completes_cons_iff {path : CStr} {m : Monitor} {c : Change} {changes : List Change}
    {ends : Prop} :
    Completes path m (c :: changes) ends ↔
      ∃ m', handleEvent path m (c.event path) = some m' ∧ Completes path m' changes ends := by
  rw [← List.singleton_append, completes_append_iff]
  simp

/-- Behind a reopening that failed nothing can be handled. -/
theorem completes_of_not_valid {path : CStr} {m : Monitor} {changes : List Change}
    {ends : Prop} (hlife : Life true changes) (hvalid : ¬ m.Valid) :
    Completes path m changes ends ↔ changes = [] ∧ ¬ ends := by
  rcases changes with _ | ⟨c, changes⟩
  · simp [completes_nil_iff, hvalid]
  · have hkind : c.kind ≠ .create := by
      intro hcreate
      simp [Life, hcreate] at hlife
    have hnone : handleEvent path m (c.event path) = none := by
      rw [← Option.not_isSome_iff_eq_none, handleEvent_isSome_iff]
      simp [hkind, hvalid]
    simp [completes_cons_iff, hnone]

/-- The induction is on the changes. In between, the handle is valid exactly when
the file is there. -/
theorem completes_iff {path : CStr} {m : Monitor} {isThere : Bool} {changes : List Change}
    {ends : Prop} (hlife : Life isThere changes) (hvalid : m.Valid ↔ isThere = true) :
    Completes path m changes ends ↔
      KeepsHandle changes ends ∧ (changes = [] → ends → isThere = true) := by
  induction changes generalizing m isThere with
  | nil => simp [completes_nil_iff, hvalid, KeepsHandle]
  | cons c changes ih =>
      have hnext : ∀ m', handleEvent path m (c.event path) = some m' →
          (Completes path m (c :: changes) ends ↔ Completes path m' changes ends) := by
        intro m' hstep
        simp [completes_cons_iff, hstep]
      have hhandled : c.kind = .create ∨ m.Valid →
          ∃ m', handleEvent path m (c.event path) = some m' := by
        intro hready
        exact Option.isSome_iff_exists.mp (handleEvent_isSome_iff.mpr hready)
      rw [keepsHandle_cons_iff]
      rcases hkind : c.kind with _ | _ | _
      · obtain ⟨rfl, hrest⟩ : isThere = false ∧ Life true changes := by
          simpa only [Life, hkind] using hlife
        obtain ⟨m', hstep⟩ := hhandled (Or.inl hkind)
        have hopened := valid_of_handleEvent hstep
        rw [hnext m' hstep]
        rcases hopens : c.opens with _ | _
        · rw [completes_of_not_valid hrest (by simp [hopened, hkind, hopens])]
          constructor
          · rintro ⟨rfl, hends⟩
            simp [KeepsHandle, hends]
          · rintro ⟨⟨⟨hlast, -⟩, -⟩, -⟩
            exact hlast rfl rfl
        · rw [ih hrest (by simp [hopened, hkind, hopens])]
          simp
      · obtain ⟨rfl, hrest⟩ : isThere = true ∧ Life false changes := by
          simpa only [Life, hkind] using hlife
        obtain ⟨m', hstep⟩ := hhandled (Or.inr (hvalid.mpr rfl))
        rw [hnext m' hstep, ih hrest (by simp [valid_of_handleEvent hstep, hkind])]
        simp only [reduceCtorEq, false_implies, true_and, true_implies, Bool.false_eq_true,
          implies_true, and_true]
        exact and_comm
      · obtain ⟨rfl, hrest⟩ : isThere = true ∧ Life true changes := by
          simpa only [Life, hkind] using hlife
        obtain ⟨m', hstep⟩ := hhandled (Or.inr (hvalid.mpr rfl))
        rw [hnext m' hstep, ih hrest (by simp [valid_of_handleEvent hstep, hkind])]
        simp

theorem life_of_prefix {isThere : Bool} {changes changes' : List Change}
    (hpre : changes <+: changes') (hlife : Life isThere changes') :
    Life isThere changes := by
  induction changes generalizing isThere changes' with
  | nil => exact trivial
  | cons c changes ih =>
      obtain ⟨rest, rfl⟩ := hpre
      rw [List.cons_append] at hlife
      have hrest : changes <+: changes ++ rest := List.prefix_append _ _
      simp only [Life] at hlife ⊢
      split at hlife
      · exact ⟨hlife.1, ih hrest hlife.2⟩
      · exact ⟨hlife.1, ih hrest hlife.2⟩
      · exact ⟨hlife.1, ih hrest hlife.2⟩

/-- The loop over the reads handles the events it sees one after the other. -/
theorem monitorLoop_isSome_iff (path : CStr) (m : Monitor) (batches : List (List Change)) :
    (monitorLoop path (batches.map fun batch => some (batch.map (Change.event path))) m).isSome ↔
      Completes path m (batches.takeWhile (· ≠ [])).flatten ([] ∈ batches) := by
  induction batches generalizing m with
  | nil => simp [monitorLoop, completes_nil_iff]
  | cons batch batches ih =>
      rcases batch with _ | ⟨c, batch⟩
      · simp [monitorLoop, completes_nil_iff, m.fclose_isSome_iff]
      · have hseen : (((c :: batch) :: batches).takeWhile (· ≠ [])).flatten =
            (c :: batch) ++ (batches.takeWhile (· ≠ [])).flatten := by
          simp
        have hends : [] ∈ (c :: batch) :: batches ↔ [] ∈ batches := by simp
        have hloop : monitorLoop path (((c :: batch) :: batches).map
            fun batch => some (batch.map (Change.event path))) m =
              (((c :: batch).map (Change.event path)).foldlM (handleEvent path) m).bind
                (monitorLoop path (batches.map
                  fun batch => some (batch.map (Change.event path)))) := rfl
        rw [hseen, hends, completes_append_iff, hloop]
        rcases ((c :: batch).map (Change.event path)).foldlM (handleEvent path) m with _ | m'
        · simp
        · simp [ih]

theorem History.life_seen (h : History) : Life true h.seen := by
  refine life_of_prefix ⟨(h.batches.dropWhile (· ≠ [])).flatten, ?_⟩ h.life
  rw [History.seen, ← List.flatten_append, List.takeWhile_append_dropWhile]

/-- Every use of the handle is valid exactly when no failing reopening is followed
by another event or by the end of the loop, and no deletion by the end of the
loop. -/
theorem fileMonitoring_isSome_iff (path : CStr) (fileStatSize : Int64) (h : History) :
    (fileMonitoring path fileStatSize true (h.reads path)).isSome ↔
      KeepsHandle h.seen ([] ∈ h.batches) := by
  have hloop : fileMonitoring path fileStatSize true (h.reads path) =
      monitorLoop path (h.reads path) ((monitorStart fileStatSize).fopen true) := rfl
  have hvalid : ((monitorStart fileStatSize).fopen true).Valid ↔ true = true :=
    Monitor.valid_fopen _ _
  rw [hloop, History.reads, monitorLoop_isSome_iff, ← History.seen,
    completes_iff h.life_seen hvalid]
  simp

/-- The file is deleted and created, the reopening fails, and the file is
modified: the handle is then NULL. -/
theorem not_fileMonitoring_isSome_of_failed_fopen :
    ∃ h : History, (fileMonitoring (ofBuffer [0x61]) 0 true (h.reads (ofBuffer [0x61]))) = none :=
  ⟨{ batches := [[{ kind := .delete, opens := true, size := none, sends := true },
        { kind := .create, opens := false, size := none, sends := true }],
        [{ kind := .modify, opens := true, size := none, sends := true }]]
     life := by simp [Life] }, rfl⟩

end CHomework.FileObserver
