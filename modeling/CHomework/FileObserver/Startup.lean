import CHomework.FileObserver.Model

/-!
The start of the observer: the arguments, the descriptors of the daemon, and the address of
the socket.
-/

namespace CHomework.FileObserver

open CHomework.Buffer
open CHomework.CString

inductive File where
  | devNull
  | socket
  | other (n : Nat)
  deriving DecidableEq

abbrev Files := List (Option File)

/-- The lowest descriptor that is free is taken. -/
def openFile (file : File) : Files → Nat × Files
  | [] => (0, [some file])
  | none :: files => (0, some file :: files)
  | some other :: files =>
      let (fd, files) := openFile file files
      (fd + 1, some other :: files)

/-- A call that opens a file fails when the lowest free descriptor is not below the limit. A
negative limit is none. -/
def openWithin (limit : Int) (file : File) (files : Files) : Option Nat × Files :=
  let (fd, opened) := openFile file files
  if 0 ≤ limit ∧ limit ≤ fd then (none, files) else (some fd, opened)

/-- `dup` of a descriptor that is not open fails. -/
def dup (limit : Int) (fd : Nat) (files : Files) : Option Nat × Files :=
  match files[fd]?.join with
  | none => (none, files)
  | some file => openWithin limit file files

/-- The loop over the descriptors, from `x` down to 0. -/
def closeLoop : Nat → Files → Files
  | 0, files => files.set 0 none
  | x + 1, files => closeLoop x (files.set (x + 1) none)

inductive Fork where
  | failed
  | parent
  | child
  deriving DecidableEq

/-- What the system calls return at the start. `openMax` is negative when there is no
limit, `devNull` says whether there is a `/dev/null` to open, and `socket` is `false` also
when no descriptor is left. -/
structure StartCalls where
  getrlimit : Bool
  fork : Fork
  forkAgain : Fork
  getcwd : Bool
  openMax : Int
  devNull : Bool
  socket : Bool

/-- A process ends, or it goes on with these files. The flag says that wrong descriptors
have been logged. The descriptor that `syslog` opens for itself is not among the files. -/
inductive Start where
  | exits (status : Nat)
  | goesOn (files : Files) (logged : Bool)
  deriving DecidableEq

def daemonize (calls : StartCalls) (files : Files) : Start :=
  if calls.getrlimit = false then .exits 1
  else if calls.fork = .failed then .exits 1
  else if calls.fork = .parent then .exits 0
  else if calls.forkAgain = .parent then .exits 0
  else if calls.getcwd = false then .exits 1
  else
    let files := if calls.openMax < 0 then files else closeLoop calls.openMax.toNat files
    let (fd0, files) :=
      if calls.devNull then openWithin calls.openMax .devNull files else (none, files)
    let (fd1, files) := dup calls.openMax 0 files
    let (fd2, files) := dup calls.openMax 0 files
    .goesOn files (fd0 ≠ some 0 ∨ fd1 ≠ some 1 ∨ fd2 ≠ some 2)

def sunPathLen : Nat := 108

/-- The beginning of `run_server`. A `NULL` cannot be copied. -/
def runServer (calls : StartCalls) (socketPath : Option CStr) (files : Files) (logged : Bool) :
    Option Start := do
  if calls.socket = false then return .exits 1
  let (_, files) := openFile .socket files
  let socketPath ← socketPath
  let _ ← storeRange (List.replicate sunPathLen (0 : UInt8)) (socketPath.bytes ++ [0])
  return .goesOn files logged

/-- `argv[argc]` is `NULL`. -/
def main (calls : StartCalls) (argv : List CStr) (files : Files) : Option Start :=
  match argv[1]? with
  | none => some (.exits 1)
  | some fileOrFlag =>
      if argv.length < 3 then some (.exits 1)
      else if strcmp fileOrFlag (ofBuffer [0x2d, 0x64]) = 0 then
        match daemonize calls files with
        | .exits status => some (.exits status)
        | .goesOn files logged => runServer calls argv[3]? files logged
      else runServer calls argv[2]? files false

theorem getElem?_closeLoop (x : Nat) (files : Files) (i : Nat) :
    (closeLoop x files)[i]? = if i ≤ x then files[i]?.map fun _ => none else files[i]? := by
  induction x generalizing files with
  | zero =>
      rw [closeLoop, List.getElem?_set']
      rcases Nat.eq_zero_or_pos i with rfl | hpos
      · rw [if_pos rfl, if_pos (Nat.le_refl 0)]
        rfl
      · rw [if_neg (by omega), if_neg (by omega)]
  | succ x ih =>
      rw [closeLoop, ih, List.getElem?_set']
      rcases Nat.lt_trichotomy i (x + 1) with hlt | rfl | hgt
      · rw [if_pos (by omega), if_neg (by omega), if_pos (by omega)]
      · rw [if_neg (by omega), if_pos rfl, if_pos (Nat.le_refl _)]
        rfl
      · rw [if_neg (by omega), if_neg (by omega), if_neg (by omega)]

theorem getElem?_openFile (file : File) (files : Files) (i : Nat) :
    (openFile file files).2[i]?.join =
      if i = (openFile file files).1 then some file else files[i]?.join := by
  induction files generalizing i with
  | nil => cases i <;> simp [openFile]
  | cons entry files ih =>
      cases entry with
      | none => cases i <;> simp [openFile]
      | some other =>
          cases i with
          | zero => simp [openFile]
          | succ i => simpa [openFile] using ih i

theorem openFile_fst_eq {file : File} {files : Files} {fd : Nat} (hfree : files[fd]?.join = none)
    (htaken : ∀ i < fd, files[i]?.join ≠ none) : (openFile file files).1 = fd := by
  induction files generalizing fd with
  | nil =>
      cases fd with
      | zero => rfl
      | succ fd => exact absurd rfl (htaken 0 (Nat.succ_pos fd))
  | cons entry files ih =>
      cases entry with
      | none =>
          cases fd with
          | zero => rfl
          | succ fd => exact absurd rfl (htaken 0 (Nat.succ_pos fd))
      | some other =>
          cases fd with
          | zero => cases hfree
          | succ fd =>
              have hlater : (openFile file files).1 = fd :=
                ih hfree fun i hi => htaken (i + 1) (Nat.succ_lt_succ hi)
              simp [openFile, hlater]

/-- The first `n` descriptors are `/dev/null`, as far as they are below the limit, and the others
up to the limit are free. -/
def NullFiles (limit : Nat) (files : Files) (n : Nat) (files' : Files) : Prop :=
  ∀ i, files'[i]?.join =
    if i < n ∧ i < limit then some .devNull else if i ≤ limit then none else files[i]?.join

theorem nullFiles_closeLoop (limit : Nat) (files : Files) :
    NullFiles limit files 0 (closeLoop limit files) := by
  intro i
  rw [getElem?_closeLoop, if_neg (by omega : ¬ (i < 0 ∧ i < limit))]
  split
  · cases files[i]? <;> rfl
  · rfl

section NullFiles

variable {limit n : Nat} {files files' : Files} (h : NullFiles limit files n files')

include h

theorem NullFiles.openWithin :
    ∃ files'', openWithin limit .devNull files' = (if n < limit then some n else none, files'') ∧
      NullFiles limit files (n + 1) files'' := by
  have hfd : (openFile .devNull files').1 = min n limit := by
    refine openFile_fst_eq ?_ fun i hi => ?_
    · rw [h, if_neg (by omega), if_pos (Nat.min_le_right n limit)]
    · rw [h, if_pos (by omega)]
      exact Option.some_ne_none _
  rw [FileObserver.openWithin]
  dsimp only
  rw [hfd]
  rcases Nat.lt_or_ge n limit with hlt | hge
  · rw [Nat.min_eq_left hlt.le] at hfd ⊢
    rw [if_neg (by omega), if_pos hlt]
    refine ⟨_, rfl, fun i => ?_⟩
    rw [getElem?_openFile, hfd, h i]
    rcases Nat.lt_trichotomy i n with hi | rfl | hi
    · rw [if_neg (by omega), if_pos (by omega), if_pos (by omega)]
    · rw [if_pos rfl, if_pos ⟨Nat.lt_succ_self i, hlt⟩]
    · rw [if_neg (by omega), if_neg (by omega), if_neg (by omega : ¬ (i < n + 1 ∧ i < limit))]
  · rw [Nat.min_eq_right hge, if_pos (by omega), if_neg (Nat.not_lt.mpr hge)]
    refine ⟨files', rfl, fun i => (h i).trans (if_congr ?_ rfl rfl)⟩
    omega

theorem NullFiles.dup (hn : 0 < n) :
    ∃ files'', dup limit 0 files' = (if n < limit then some n else none, files'') ∧
      NullFiles limit files (n + 1) files'' := by
  rw [FileObserver.dup, h]
  rcases Nat.eq_zero_or_pos limit with rfl | hpos
  · rw [if_neg (by omega), if_pos (Nat.le_refl 0), if_neg (Nat.not_lt_zero n)]
    exact ⟨files', rfl, fun i => (h i).trans (if_congr (by omega) rfl rfl)⟩
  · rw [if_pos ⟨hn, hpos⟩]
    exact h.openWithin

end NullFiles

/-- The daemon that goes on has `/dev/null` at its first three descriptors, as far as the limit
lets it, and nothing at the others up to the limit. It logs if it has not got all three. -/
theorem daemonize_goesOn {calls : StartCalls} {files files' : Files} {logged : Bool}
    (hopenMax : 0 ≤ calls.openMax) (h : daemonize calls files = .goesOn files' logged) :
    (logged = true ↔ calls.devNull = false ∨ calls.openMax < 3) ∧
      ∀ i : Nat, files'[i]?.join =
        if calls.devNull = true ∧ i < 3 ∧ i < calls.openMax then some .devNull
        else if i ≤ calls.openMax then none
        else files[i]?.join := by
  obtain ⟨limit, hlimit⟩ := Int.eq_ofNat_of_zero_le hopenMax
  rw [daemonize] at h
  split at h
  · cases h
  split at h
  · cases h
  split at h
  · cases h
  split at h
  · cases h
  split at h
  · cases h
  rw [hlimit, if_neg (by omega), Int.toNat_natCast] at h
  rw [hlimit]
  have hclosed := nullFiles_closeLoop limit files
  cases hnull : calls.devNull with
  | false =>
      -- the first descriptor is free, so that no `dup` gets one
      have hdup : dup limit 0 (closeLoop limit files) = (none, closeLoop limit files) := by
        rw [dup, hclosed]
        simp
      simp [hnull, hdup] at h
      obtain ⟨rfl, rfl⟩ := h
      exact ⟨by simp, fun i => by simpa using hclosed i⟩
  | true =>
      obtain ⟨files₀, hopen, hfiles₀⟩ := hclosed.openWithin
      obtain ⟨files₁, hdup, hfiles₁⟩ := hfiles₀.dup Nat.one_pos
      obtain ⟨files₂, hdupAgain, hfiles₂⟩ := hfiles₁.dup (Nat.succ_pos 1)
      simp only [hnull, hopen, hdup, hdupAgain, if_true] at h
      obtain ⟨rfl, rfl⟩ := Start.goesOn.inj h
      refine ⟨?_, fun i => (hfiles₂ i).trans ?_⟩
      · simp only [ne_eq, ite_eq_left_iff, reduceCtorEq, imp_false, Decidable.not_not, not_lt,
          decide_eq_true_eq, Bool.true_eq_false, false_or]
        omega
      · simp only [Nat.zero_add, Nat.reduceAdd, Int.ofNat_lt, true_and, Int.ofNat_le]

def sampleCalls : StartCalls where
  getrlimit := true
  fork := .child
  forkAgain := .child
  getcwd := true
  openMax := 1024
  devNull := true
  socket := true

theorem daemonize_goesOn_sample :
    ∃ files', daemonize sampleCalls [some (.other 0), none, some (.other 1)] =
      .goesOn files' false ∧ ∀ i < 3, files'[i]?.join = some .devNull := by
  have h : daemonize sampleCalls [some (.other 0), none, some (.other 1)] =
      .goesOn [some .devNull, some .devNull, some .devNull] false := by decide +kernel
  refine ⟨_, h, fun i hi => ((daemonize_goesOn (by decide) h).2 i).trans (if_pos ?_)⟩
  have hopenMax : sampleCalls.openMax = 1024 := rfl
  exact ⟨rfl, hi, by omega⟩

def daemonFlag : CStr := ofBuffer [0x2d, 0x64]

def socketPathOf (argv : List CStr) : Option CStr :=
  if argv[1]? = some daemonFlag then argv[3]? else argv[2]?

/-- The server gets to the address of its socket. -/
def Serves (calls : StartCalls) (argv : List CStr) (files : Files) : Prop :=
  3 ≤ argv.length ∧ calls.socket = true ∧
    (argv[1]? = some daemonFlag → ∃ files' logged, daemonize calls files = .goesOn files' logged)

theorem runServer_isSome_iff {calls : StartCalls} {socketPath : Option CStr} {files : Files}
    {logged : Bool} :
    (runServer calls socketPath files logged).isSome ↔
      (calls.socket = true → ∃ path, socketPath = some path ∧ strlen path < sunPathLen) := by
  cases hsocket : calls.socket with
  | false => simp [runServer, hsocket]
  | true =>
      cases socketPath with
      | none => simp [runServer, hsocket]
      | some path =>
          have hfits : (path.bytes ++ [0]).length ≤ (List.replicate sunPathLen (0 : UInt8)).length ↔
              strlen path < sunPathLen := by
            rw [List.length_append, List.length_replicate, List.length_singleton, strlen]
            exact Nat.succ_le_iff
          simp only [runServer, hsocket, storeRange, hfits, Bool.true_eq_false, if_false,
            Option.bind_eq_bind, Option.bind_some]
          rcases Nat.lt_or_ge (strlen path) sunPathLen with hlt | hge
          · simp [hlt]
          · simp [Nat.not_lt.mpr hge]

/-- The start is safe unless the server gets to its address with a path that is not there, as
behind `-d` in three arguments, or that does not fit. -/
theorem main_isSome_iff (calls : StartCalls) (argv : List CStr) (files : Files) :
    (main calls argv files).isSome ↔
      (Serves calls argv files →
        ∃ path, socketPathOf argv = some path ∧ strlen path < sunPathLen) := by
  rw [main]
  cases hflag : argv[1]? with
  | none =>
      have hshort : argv.length ≤ 1 := List.getElem?_eq_none_iff.mp hflag
      simp only [Option.isSome_some, true_iff]
      rintro ⟨hlength, -⟩
      omega
  | some fileOrFlag =>
      dsimp only
      rcases Nat.lt_or_ge argv.length 3 with hlt | hge
      · rw [if_pos hlt]
        simp only [Option.isSome_some, true_iff]
        rintro ⟨hlength, -⟩
        omega
      rw [if_neg (Nat.not_lt.mpr hge), socketPathOf, Serves, hflag]
      have hcmp : strcmp fileOrFlag (ofBuffer [0x2d, 0x64]) = 0 ↔ fileOrFlag = daemonFlag :=
        strcmp_eq_zero_iff _ _
      rcases eq_or_ne fileOrFlag daemonFlag with rfl | hne
      · rw [if_pos (hcmp.mpr rfl), if_pos rfl]
        cases hdaemon : daemonize calls files with
        | exits status => simp
        | goesOn files' logged =>
            rw [runServer_isSome_iff]
            constructor
            · rintro h ⟨-, hsocket, -⟩
              exact h hsocket
            · intro h hsocket
              exact h ⟨hge, hsocket, fun _ => ⟨files', logged, rfl⟩⟩
      · rw [if_neg (fun h => hne (hcmp.mp h)), if_neg (fun h => hne (Option.some.inj h)),
          runServer_isSome_iff]
        constructor
        · rintro h ⟨-, hsocket, -⟩
          exact h hsocket
        · intro h hsocket
          exact h ⟨hge, hsocket, fun hflag => absurd (Option.some.inj hflag) hne⟩

end CHomework.FileObserver
