import CHomework.AsmLists.Rules

namespace CHomework.AsmLists

open CHomework.X86

theorem externs_malloc (d : DataSection) {lib : Libc} {m : Machine World}
    (hsize : m.reg .rdi = 16) (hnonnull : lib.malloc m.world.mallocs ≠ 0) :
    externs d lib .malloc m = some
      { lib.mallocEffect m with mem := lib.allocate (lib.malloc m.world.mallocs) m.mem } := by
  rw [externs, if_pos hsize, Libc.mallocEffect]
  simp only [if_neg hnonnull]

theorem externs_printf {d : DataSection} (lib : Libc) {m : Machine World}
    (hformat : m.reg .rdi = d.intFormat) :
    externs d lib .printf m = some (lib.printEffect m (.int (m.reg .rsi))) :=
  if_pos hformat

theorem externs_fflush (d : DataSection) (lib : Libc) {m : Machine World}
    (hall : m.reg .rdi = 0) : externs d lib .fflush m = some (lib.effect m) :=
  if_pos hall

theorem externs_puts {d : DataSection} (lib : Libc) {m : Machine World}
    (hstr : m.reg .rdi = d.emptyStr) :
    externs d lib .puts m = some (lib.printEffect m .newline) :=
  if_pos hstr

/-- What a function may do that is called for an element: it returns a value, prints,
and leaves the memory as it is. -/
structure Visited (result : UInt64 → UInt64 → Prop) (printed : UInt64 → List Output)
    (m m' : Machine World) : Prop where
  result : result (m.reg .rdi) (m'.reg .rax)
  mem : m'.mem = m.mem
  mallocs : m'.world.mallocs = m.world.mallocs
  out : m'.world.out = m.world.out ++ printed (m.reg .rdi)

section Procedures

variable (d : DataSection) (lib : Libc)

/-- A procedure that may be passed to `m` and `f`. -/
abbrev Callback (entry : UInt64) (result : UInt64 → UInt64 → Prop)
    (printed : UInt64 → List Output) : Prop :=
  Procedure (program d) (externs d lib) entry (fun _ => True) (Visited result printed)

theorem printInt_callback :
    Callback d lib ((program d).addr .printInt) (fun _ _ => True) (fun v => [.int v]) := by
  refine Procedure.of_reaches ?_
  rintro reg zf rsp ra stack mem ⟨calls, mallocs, out⟩ -
  have hargs : steps (program d) (externs d lib) 3
      ⟨(program d).addr .printInt, reg, zf, rsp, ra :: stack, mem, ⟨calls, mallocs, out⟩⟩ =
        some ⟨3, Function.update (Function.update (Function.update reg .rsi (reg .rdi))
          .rdi d.intFormat) .rax (reg .rax ^^^ reg .rax), reg .rax ^^^ reg .rax = 0, rsp,
          ra :: stack, mem, ⟨calls, mallocs, out⟩⟩ := rfl
  refine Reaches.of_steps hargs ?_
  refine Reaches.external rfl (externs_printf lib rfl) ?_
  intro reg₁ hsaved₁ _
  have hall : steps (program d) (externs d lib) 1
      ⟨4, reg₁, lib.zf calls, rsp, ra :: stack, mem,
        ⟨calls + 1, mallocs, out ++ [.int (reg .rdi)]⟩⟩ =
        some ⟨5, Function.update reg₁ .rdi (reg₁ .rdi ^^^ reg₁ .rdi),
          reg₁ .rdi ^^^ reg₁ .rdi = 0, rsp, ra :: stack, mem,
          ⟨calls + 1, mallocs, out ++ [.int (reg .rdi)]⟩⟩ := rfl
  refine Reaches.of_steps hall ?_
  refine Reaches.external rfl (externs_fflush d lib UInt64.xor_self) ?_
  intro reg₂ hsaved₂ _
  have hret : steps (program d) (externs d lib) 1
      ⟨6, reg₂, lib.zf (calls + 1), rsp, ra :: stack, mem,
        ⟨calls + 1 + 1, mallocs, out ++ [.int (reg .rdi)]⟩⟩ =
        some ⟨ra, reg₂, lib.zf (calls + 1), rsp + 8, stack, mem,
          ⟨calls + 1 + 1, mallocs, out ++ [.int (reg .rdi)]⟩⟩ := rfl
  refine Reaches.of_steps hret (Reaches.here ⟨⟨rfl, rfl, ?_⟩, ⟨trivial, rfl, rfl, rfl⟩⟩)
  simp_all [Reg.forall_calleeSaved]

theorem p_callback :
    Callback d lib ((program d).addr .p) (fun x v => v = x &&& 1) (fun _ => []) := by
  refine Procedure.of_reaches ?_
  rintro reg zf rsp ra stack mem world -
  have hbody : steps (program d) (externs d lib) 3
      ⟨(program d).addr .p, reg, zf, rsp, ra :: stack, mem, world⟩ =
        some ⟨ra, Function.update (Function.update reg .rax (reg .rdi)) .rax (reg .rdi &&& 1),
          reg .rdi &&& 1 = 0, rsp + 8, stack, mem, world⟩ := rfl
  refine Reaches.of_steps hbody (Reaches.here ⟨⟨rfl, rfl, ?_⟩, ?_⟩)
  · simp [Reg.forall_calleeSaved]
  · constructor <;> simp

/-- A new node in front of a list. -/
structure Added (m m' : Machine World) : Prop where
  block : m'.reg .rax = lib.malloc m.world.mallocs
  mem : m'.mem = addNode m.mem (lib.malloc m.world.mallocs) (m.reg .rdi) (m.reg .rsi)
  mallocs : m'.world.mallocs = m.world.mallocs + 1
  out : m'.world.out = m.world.out

theorem addNode_allocate (block el prev : UInt64) (mem : Memory) :
    addNode (lib.allocate block mem) block el prev = addNode mem block el prev := by
  funext a
  by_cases hsecond : a = block + 8
  · simp [addNode, hsecond]
  · by_cases hfirst : a = block
    · simp [addNode, hfirst]
    · simp [addNode, Libc.allocate, hsecond, hfirst]

theorem allocates_mallocEffect {m : Machine World} (hnonnull : lib.malloc m.world.mallocs ≠ 0) :
    Allocates
      { lib.mallocEffect m with mem := lib.allocate (lib.malloc m.world.mallocs) m.mem } := by
  have hblock : (lib.mallocEffect m).reg .rax = lib.malloc m.world.mallocs := rfl
  refine ⟨?_, ?_, ?_⟩
  · rwa [hblock]
  · simp [hblock, Libc.allocate]
  · simp [hblock, Libc.allocate]

theorem addElement_procedure :
    Procedure (program d) (externs d lib) ((program d).addr .addElement)
      (fun m => lib.malloc m.world.mallocs ≠ 0) (Added lib) := by
  have hproc : ProcedureUnless (linked d []) (externs d lib) (fun _ => False)
      ((linked d []).addr .addElement) (fun m => lib.malloc m.world.mallocs ≠ 0)
      (Added lib) := by
    refine addElement_unless ?_
    intro m hnonnull
    refine Or.inr ⟨_, externs_malloc d rfl hnonnull, allocates_mallocEffect lib hnonnull, ?_⟩
    rintro m' ⟨hblock, hmem, hworld⟩
    refine ⟨hblock, hmem.trans ?_, ?_, ?_⟩
    · exact addNode_allocate lib _ _ _ m.mem
    · rw [hworld]
      rfl
    · rw [hworld]
      rfl
  exact hproc.procedure

/-- Every element of a list is visited in turn. -/
structure Walked (printed : UInt64 → List Output) (xs : List UInt64)
    (m m' : Machine World) : Prop where
  mem : m'.mem = m.mem
  mallocs : m'.world.mallocs = m.world.mallocs
  out : m'.world.out = m.world.out ++ xs.flatMap printed

variable {d lib}

/-- A state of `m` between two elements, in a call for a list: what is printed for the
elements left completes what is printed for the list. -/
structure Walking (printed : UInt64 → List Output) (xs : List UInt64) (m : Machine World)
    (ys : List UInt64) (mem : Memory) (world : World) : Prop where
  mem : mem = m.mem
  mallocs : world.mallocs = m.world.mallocs
  out : world.out ++ ys.flatMap printed = m.world.out ++ xs.flatMap printed

theorem Walking.keeps {printed : UInt64 → List Output} {xs ys : List UInt64}
    {m : Machine World} {mem : Memory} {world : World} (h : Walking printed xs m ys mem world) :
    Keeps m.mem mem :=
  h.mem ▸ Keeps.refl mem

theorem callback_walks {entry : UInt64} {result : UInt64 → UInt64 → Prop}
    {printed : UInt64 → List Output} (hcallback : Callback d lib entry result printed)
    (xs : List UInt64) (m : Machine World) (y : UInt64) (ys : List UInt64) :
    ProcedureUnless (linked d []) (externs d lib) (fun _ => False) entry
      (fun m₁ => m₁.reg .rdi = y ∧ Walking printed xs m (y :: ys) m₁.mem m₁.world)
      (fun _ m₂ => Walking printed xs m ys m₂.mem m₂.world) := by
  rintro m₁ hpc₁ hstack₁ ⟨rfl, hmem₁, hmallocs₁, hout₁⟩
  refine (hcallback m₁ hpc₁ hstack₁ trivial).mono ?_
  rintro m₂ ⟨hreturns, -, hmem₂, hmallocs₂, hout₂⟩
  refine Or.inl ⟨hreturns, hmem₂.trans hmem₁, hmallocs₂.trans hmallocs₁, ?_⟩
  rw [hout₂, List.append_assoc, ← List.flatMap_cons, hout₁]

theorem m_procedure {entry : UInt64} {result : UInt64 → UInt64 → Prop}
    {printed : UInt64 → List Output} (hcallback : Callback d lib entry result printed)
    (xs : List UInt64) :
    Procedure (program d) (externs d lib) ((program d).addr .m)
      (fun m => m.reg .rsi = entry ∧ IsList m.mem (m.reg .rdi) xs) (Walked printed xs) := by
  rintro m hpc hstack ⟨hentry, hlist⟩
  have hm := (m_unless _ (fun _ _ _ h => h.keeps) (callback_walks hcallback xs m) xs).procedure
  refine (hm m hpc hstack ⟨hentry, hlist, rfl, rfl, rfl⟩).mono ?_
  rintro m' ⟨hreturns, hmem, hmallocs, hout⟩
  exact ⟨hreturns, hmem, hmallocs, by simpa using hout⟩

/-- What `f` is called with: the callback, the list, the accumulator, and enough
blocks for the elements that the callback chooses. -/
structure Filters (lib : Libc) (entry : UInt64) (chosen : UInt64 → Bool) (last : Nat)
    (xs acc : List UInt64) (m : Machine World) : Prop where
  callback : m.reg .rdx = entry
  list : IsList m.mem (m.reg .rdi) xs
  acc : IsList m.mem (m.reg .rsi) acc
  fresh : FreshBlocks lib.malloc m.mem m.world.mallocs last
  enough : m.world.mallocs + (xs.filter chosen).length ≤ last

/-- The chosen elements are pushed onto the accumulator one by one, and what was in
memory stays. -/
structure Filtered (lib : Libc) (chosen : UInt64 → Bool) (last : Nat) (xs acc : List UInt64)
    (m m' : Machine World) : Prop where
  list : IsList m'.mem (m'.reg .rax) ((xs.filter chosen).reverse ++ acc)
  keeps : Keeps m.mem m'.mem
  fresh : FreshBlocks lib.malloc m'.mem m'.world.mallocs last
  mallocs : m'.world.mallocs = m.world.mallocs + (xs.filter chosen).length

/-- `f` returns the filtered list, after a visit of every element. -/
structure FilteredAll (lib : Libc) (chosen : UInt64 → Bool)
    (printed : UInt64 → List Output) (last : Nat) (xs acc : List UInt64)
    (m m' : Machine World) : Prop extends Filtered lib chosen last xs acc m m' where
  out : m'.world.out = m.world.out ++ xs.flatMap printed

section Filter

variable {entry : UInt64} {chosen : UInt64 → Bool} {printed : UInt64 → List Output} {last : Nat}

/-- A state of `f` between two elements, in a call for a list and an accumulator: the
chosen ones of the elements left, behind the accumulator so far, complete the list
that is returned. -/
structure Filtering (lib : Libc) (chosen : UInt64 → Bool) (printed : UInt64 → List Output)
    (last : Nat) (xs acc : List UInt64) (m : Machine World) (ys : List UInt64) (a : UInt64)
    (mem : Memory) (world : World) : Prop where
  list : ∃ acc', IsList mem a acc' ∧
    (ys.filter chosen).reverse ++ acc' = (xs.filter chosen).reverse ++ acc
  keeps : Keeps m.mem mem
  fresh : FreshBlocks lib.malloc mem world.mallocs last
  mallocs : world.mallocs + (ys.filter chosen).length =
    m.world.mallocs + (xs.filter chosen).length
  out : world.out ++ ys.flatMap printed = m.world.out ++ xs.flatMap printed

variable {xs acc : List UInt64} {m : Machine World}

theorem Filtering.skip {x : UInt64} {ys : List UInt64} {a : UInt64} {mem : Memory}
    {world world' : World}
    (h : Filtering lib chosen printed last xs acc m (x :: ys) a mem world)
    (hx : chosen x = false) (hmallocs : world'.mallocs = world.mallocs)
    (hout : world'.out = world.out ++ printed x) :
    Filtering lib chosen printed last xs acc m ys a mem world' := by
  obtain ⟨hlist, hkeeps, hfresh, henough, hprinted⟩ := h
  rw [List.filter_cons_of_neg (by simp [hx])] at hlist henough
  refine ⟨hlist, hkeeps, ?_, ?_, ?_⟩
  · rwa [hmallocs]
  · rw [hmallocs, henough]
  · rw [hout, List.append_assoc, ← List.flatMap_cons, hprinted]

/-- A state of `f` after the callback chose an element. -/
def Picked (lib : Libc) (chosen : UInt64 → Bool) (printed : UInt64 → List Output)
    (last : Nat) (xs acc : List UInt64) (m : Machine World) (x : UInt64) (ys : List UInt64)
    (a : UInt64) (mem : Memory) (world : World) : Prop :=
  chosen x = true ∧ ∃ world₀, Filtering lib chosen printed last xs acc m (x :: ys) a mem world₀ ∧
    world.mallocs = world₀.mallocs ∧ world.out = world₀.out ++ printed x

theorem Picked.keeps {x : UInt64} {ys : List UInt64} {a : UInt64} {mem : Memory}
    {world : World} (h : Picked lib chosen printed last xs acc m x ys a mem world) :
    Keeps m.mem mem := by
  obtain ⟨-, world₀, hfiltering, -, -⟩ := h
  exact hfiltering.keeps

theorem Picked.fresh {x : UInt64} {ys : List UInt64} {a : UInt64} {mem : Memory}
    {world : World} (h : Picked lib chosen printed last xs acc m x ys a mem world) :
    FreshBlocks lib.malloc mem world.mallocs last := by
  obtain ⟨-, world₀, hfiltering, hmallocs, -⟩ := h
  rw [hmallocs]
  exact hfiltering.fresh

theorem Picked.malloc_ne_null {x : UInt64} {ys : List UInt64} {a : UInt64} {mem : Memory}
    {world : World} (h : Picked lib chosen printed last xs acc m x ys a mem world)
    (hlt : world.mallocs < last) : lib.malloc world.mallocs ≠ 0 :=
  h.fresh.ne_null _ (Nat.le_refl _) hlt

theorem Picked.lt {x : UInt64} {ys : List UInt64} {a : UInt64} {mem : Memory} {world : World}
    (h : Picked lib chosen printed last xs acc m x ys a mem world)
    (henough : m.world.mallocs + (xs.filter chosen).length ≤ last) :
    world.mallocs < last := by
  obtain ⟨hx, world₀, hfiltering, hmallocs, -⟩ := h
  have hleft := hfiltering.mallocs
  rw [List.filter_cons_of_pos hx, List.length_cons] at hleft
  omega

theorem Picked.push {x : UInt64} {ys : List UInt64} {a : UInt64} {mem : Memory}
    {world world' : World} (h : Picked lib chosen printed last xs acc m x ys a mem world)
    (hlt : world.mallocs < last) (hmallocs : world'.mallocs = world.mallocs + 1)
    (hout : world'.out = world.out) :
    Filtering lib chosen printed last xs acc m ys (lib.malloc world.mallocs)
      (addNode mem (lib.malloc world.mallocs) x a) world' := by
  have hfresh : FreshBlocks lib.malloc mem world.mallocs last := h.fresh
  have hunused : Unused mem (lib.malloc world.mallocs) := hfresh.unused _ (Nat.le_refl _) hlt
  have hnonnull : lib.malloc world.mallocs ≠ 0 := h.malloc_ne_null hlt
  obtain ⟨hx, world₀, ⟨⟨acc', hlist, hacc⟩, hkeeps, -, henough, hprinted⟩, hmallocs₀,
    hout₀⟩ := h
  rw [← hmallocs₀] at henough
  rw [List.filter_cons_of_pos hx] at hacc henough
  refine ⟨⟨x :: acc', hunused.isList_addNode hnonnull hlist x, ?_⟩,
    hkeeps.trans (hunused.keeps_addNode (Keeps.refl mem) x a), ?_, ?_, ?_⟩
  · simpa using hacc
  · rw [hmallocs]
    exact hfresh.next x a
  · rw [List.length_cons] at henough
    omega
  · rw [hout, hout₀, List.append_assoc, ← List.flatMap_cons, hprinted]

theorem callback_picks
    (hcallback : Callback d lib entry (fun x v => v ≠ 0 ↔ chosen x = true) printed)
    (xs acc : List UInt64) (m : Machine World) (y : UInt64) (ys : List UInt64) (a : UInt64) :
    ProcedureUnless (linked d []) (externs d lib) (fun _ => False) entry
      (fun m₁ => m₁.reg .rdi = y ∧
        Filtering lib chosen printed last xs acc m (y :: ys) a m₁.mem m₁.world)
      (fun _ m₂ =>
        (m₂.reg .rax = 0 → Filtering lib chosen printed last xs acc m ys a m₂.mem m₂.world) ∧
        (m₂.reg .rax ≠ 0 →
          Picked lib chosen printed last xs acc m y ys a m₂.mem m₂.world)) := by
  rintro m₁ hpc hstack ⟨rfl, hfiltering⟩
  refine (hcallback m₁ hpc hstack trivial).mono ?_
  rintro m₂ ⟨hreturns, hchosen, hmem, hmallocs, hout⟩
  refine Or.inl ⟨hreturns, ?_, ?_⟩
  · intro hrax
    rw [hmem]
    exact hfiltering.skip (by simpa [hrax] using hchosen) hmallocs hout
  · intro hrax
    rw [hmem]
    exact ⟨hchosen.mp hrax, m₁.world, hfiltering, hmallocs, hout⟩

theorem addElement_pushes (printed : UInt64 → List Output) (acc : List UInt64)
    (henough : m.world.mallocs + (xs.filter chosen).length ≤ last) (y : UInt64)
    (ys : List UInt64) (a : UInt64) :
    ProcedureUnless (linked d []) (externs d lib) (fun _ => False)
      ((linked d []).addr .addElement)
      (fun m₁ => m₁.reg .rdi = y ∧ m₁.reg .rsi = a ∧
        Picked lib chosen printed last xs acc m y ys a m₁.mem m₁.world)
      (fun _ m₂ =>
        Filtering lib chosen printed last xs acc m ys (m₂.reg .rax) m₂.mem m₂.world) := by
  rintro m₁ hpc hstack ⟨rfl, rfl, hpicked⟩
  have hlt : m₁.world.mallocs < last := hpicked.lt henough
  refine (addElement_procedure d lib m₁ hpc hstack (hpicked.malloc_ne_null hlt)).mono ?_
  rintro m₂ ⟨hreturns, hblock, hmem, hmallocs, hout⟩
  refine Or.inl ⟨hreturns, ?_⟩
  dsimp only
  rw [hblock, hmem]
  exact hpicked.push hlt hmallocs hout

theorem f_procedure
    (hcallback : Callback d lib entry (fun x v => v ≠ 0 ↔ chosen x = true) printed)
    (xs acc : List UInt64) :
    Procedure (program d) (externs d lib) ((program d).addr .f)
      (Filters lib entry chosen last xs acc) (FilteredAll lib chosen printed last xs acc) := by
  rintro m hpc hstack ⟨hentry, hlist, hacc, hfresh, henough⟩
  have hf := (f_unless _ _ (fun _ _ _ _ h => h.keeps) (fun _ _ _ _ _ h => h.keeps)
    (callback_picks hcallback xs acc m) (addElement_pushes printed acc henough) xs).procedure
  refine (hf m hpc hstack ⟨hentry, hlist, ⟨acc, hacc, rfl⟩, Keeps.refl _, hfresh, rfl,
    rfl⟩).mono ?_
  rintro m' ⟨hreturns, ⟨acc', hlist', hacc'⟩, hkeeps, hfresh', hmallocs, hout⟩
  refine ⟨hreturns, ⟨?_, hkeeps, hfresh', ?_⟩, ?_⟩
  · rw [← hacc']
    simpa using hlist'
  · simpa using hmallocs
  · simpa using hout

end Filter

end Procedures

end CHomework.AsmLists
