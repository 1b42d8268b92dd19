import CHomework.AsmLists.Agreement

/-!
What calls of `add_element`, `m` and `f` leave as it was, in any program that they are
linked into and for any callback.
-/

namespace CHomework.AsmLists

open CHomework.X86

section Frames

variable {W : Type} (d : DataSection) (more : Program Label Extern)
  (externs : Extern → Machine W → Option (Effect W)) (heap : Memory)

/-- The return of `malloc` with a block outside the heap, which stays as it is. -/
structure Fresh (effect : Effect W) (mem : Memory) : Prop extends Allocates effect where
  unused : Unused heap (effect.reg .rax)
  keeps : ∀ a, heap a ≠ none → effect.mem a = mem a

/-- If this is a call of `malloc` for 16 bytes, it returns a fresh block. -/
def MallocFresh (m : Machine W) : Prop :=
  (linked d more).code[m.pc.toNat]? = some (.call (.external .malloc)) → m.reg .rdi = 16 →
    ∃ effect, externs .malloc (m.push (m.pc + 1)) = some effect ∧ Fresh heap effect m.mem

/-- A function that returns to its caller with the callee-saved registers and the stack
as they were, as long as `malloc` returns fresh blocks. It may rely on a property of the
memory, which then holds behind it. -/
abbrev FrameCallback (property : Memory → Prop) (entry : UInt64) : Prop :=
  ProcedureUnless (linked d more) externs (fun m => ¬ MallocFresh d more externs heap m) entry
    (fun m => property m.mem) (fun _ m' => property m'.mem)

/-- The first instruction of one of the procedures, called with a list in the heap, any
accumulator and a callback. -/
inductive Enters (callback : UInt64 → Prop) (m : Machine W) : Prop
  | addElement (hpc : m.pc = (linked d more).addr .addElement)
  | m (xs : List UInt64) (hpc : m.pc = (linked d more).addr .m)
      (hlist : IsList heap (m.reg .rdi) xs) (hcallback : callback (m.reg .rsi))
  | f (xs : List UInt64) (hpc : m.pc = (linked d more).addr .f)
      (hlist : IsList heap (m.reg .rdi) xs) (hcallback : callback (m.reg .rdx))

variable {d more externs heap}

theorem Fresh.keeps_addNode {effect : Effect W} {mem : Memory}
    (h : Fresh heap effect mem) (hheap : Keeps heap mem) (el prev : UInt64) :
    Keeps heap (addNode effect.mem (effect.reg .rax) el prev) := by
  refine h.unused.keeps_addNode ?_ el prev
  intro a v hv
  rw [h.keeps a (by simp [hv])]
  exact hheap a v hv

theorem addElement_keeps :
    FrameCallback d more externs heap (Keeps heap) ((linked d more).addr .addElement) := by
  refine addElement_unless ?_
  intro m hheap
  by_cases hmalloc : MallocFresh d more externs heap (allocating m)
  · obtain ⟨effect, heffect, hfresh⟩ := hmalloc rfl rfl
    refine Or.inr ⟨effect, heffect, hfresh.toAllocates, ?_⟩
    rintro m' ⟨-, hmem, -⟩
    rw [hmem]
    exact hfresh.keeps_addNode hheap _ _
  · exact Or.inl hmalloc

theorem m_keeps {entry : UInt64}
    (hcallback : FrameCallback d more externs heap (Keeps heap) entry) (xs : List UInt64) :
    ProcedureUnless (linked d more) externs (fun m => ¬ MallocFresh d more externs heap m)
      ((linked d more).addr .m)
      (fun m => m.reg .rsi = entry ∧ IsList heap (m.reg .rdi) xs ∧ Keeps heap m.mem)
      (fun _ m' => Keeps heap m'.mem) := by
  refine m_unless (fun _ mem _ => Keeps heap mem) (fun _ _ _ h => h) ?_ xs
  rintro x xs m hpc hstack ⟨-, hheap⟩
  exact hcallback m hpc hstack hheap

theorem f_keeps {entry : UInt64}
    (hcallback : FrameCallback d more externs heap (Keeps heap) entry) (xs : List UInt64) :
    ProcedureUnless (linked d more) externs (fun m => ¬ MallocFresh d more externs heap m)
      ((linked d more).addr .f)
      (fun m => m.reg .rdx = entry ∧ IsList heap (m.reg .rdi) xs ∧ Keeps heap m.mem)
      (fun _ m' => Keeps heap m'.mem) := by
  refine f_unless (fun _ _ mem _ => Keeps heap mem) (fun _ _ _ mem _ => Keeps heap mem)
    (fun _ _ _ _ h => h) (fun _ _ _ _ _ h => h) ?_ ?_ xs
  · rintro x xs acc m hpc hstack ⟨-, hheap⟩
    refine (hcallback m hpc hstack hheap).mono ?_
    rintro m' (⟨hreturns, hheap'⟩ | hm')
    · exact Or.inl ⟨hreturns, fun _ => hheap', fun _ => hheap'⟩
    · exact Or.inr hm'
  · rintro x xs acc m hpc hstack ⟨-, -, hheap⟩
    exact addElement_keeps m hpc hstack hheap

/-- A call of `add_element`, of `m` or of `f` returns with the callee-saved registers, the
stack pointer and the stack as they were, and every word of the heap in place. -/
theorem returns_of_enters {m : Machine W} (hstack : m.stack ≠ []) (hheap : Keeps heap m.mem)
    (hmalloc : Always (linked d more) externs (MallocFresh d more externs heap) m)
    (henters : Enters d more heap (FrameCallback d more externs heap (Keeps heap)) m) :
    Reaches (linked d more) externs m fun m' => Returns m m' ∧ Keeps heap m'.mem := by
  have hnever : Always (linked d more) externs
      (fun m' => ¬ ¬ MallocFresh d more externs heap m') m :=
    fun n m' hsteps => not_not_intro (hmalloc n m' hsteps)
  refine Reaches.of_always ?_ hnever
  cases henters with
  | addElement hpc => exact addElement_keeps m hpc hstack hheap
  | m xs hpc hlist hcallback => exact m_keeps hcallback xs m hpc hstack ⟨rfl, hlist, hheap⟩
  | f xs hpc hlist hcallback => exact f_keeps hcallback xs m hpc hstack ⟨rfl, hlist, hheap⟩

end Frames

theorem Callback.frame {d : DataSection} {lib : Libc} {entry : UInt64}
    {result : UInt64 → UInt64 → Prop} {printed : UInt64 → List Output}
    (h : Callback d lib entry result printed) (heap : Memory) :
    FrameCallback d [] (externs d lib) heap (Keeps heap) entry := by
  intro m hpc hstack hheap
  refine (h m hpc hstack trivial).mono ?_
  rintro m' ⟨hreturns, hvisited⟩
  refine Or.inl ⟨hreturns, ?_⟩
  dsimp only
  rwa [hvisited.mem]

/-- A list of one element. -/
def oneNode : Memory :=
  addNode (fun _ => none) 0x200000 15 0

/-- The library for a run with one call of `malloc`. -/
def oneBlock : Libc :=
  { bumpLibc with malloc := fun _ => 0x100000 }

/-- A call with the list of one element. -/
def oneNodeCall (pc rsi rdx : UInt64) : Machine World where
  pc := pc
  reg := Function.update (Function.update (Function.update (fun _ => 0) .rdi 0x200000)
    .rsi rsi) .rdx rdx
  zf := false
  rsp := 0x7ffff000
  stack := [4096]
  mem := oneNode
  world := ⟨0, 0, []⟩

theorem isList_oneNode : IsList oneNode 0x200000 [15] :=
  ⟨by decide, rfl, 0, rfl, rfl⟩

theorem oneNode_ne_none {a : UInt64} (h : oneNode a ≠ none) :
    a = 0x200000 ∨ a = 0x200000 + 8 := by
  by_contra hother
  obtain ⟨hfirst, hsecond⟩ := not_or.mp hother
  refine h ?_
  rw [oneNode, addNode, Function.update_of_ne hsecond, Function.update_of_ne hfirst]

theorem unused_oneNode : Unused oneNode 0x100000 := by
  intro a ha
  rcases oneNode_ne_none ha with rfl | rfl
  · decide
  · decide

theorem mallocFresh_oneBlock (more : Program Label Extern) (m : Machine World) :
    MallocFresh mainData more (externs mainData oneBlock) oneNode m := by
  intro _ hsize
  have hnonnull : oneBlock.malloc m.world.mallocs ≠ 0 := by
    change (0x100000 : UInt64) ≠ 0
    decide
  refine ⟨_, externs_malloc mainData hsize hnonnull,
    ⟨allocates_mallocEffect oneBlock hnonnull, unused_oneNode, ?_⟩⟩
  intro a ha
  have hfirst : a ≠ 0x100000 := by
    rintro rfl
    exact ha rfl
  have hsecond : a ≠ 0x100000 + 8 := by
    rintro rfl
    exact ha rfl
  exact if_neg (not_or.mpr ⟨hfirst, hsecond⟩)

theorem returns_of_enters_oneNode :
    Reaches (linked mainData []) (externs mainData oneBlock)
      (oneNodeCall ((program mainData).addr .f) 0 ((program mainData).addr .p)) fun m' =>
        Returns (oneNodeCall ((program mainData).addr .f) 0 ((program mainData).addr .p)) m' ∧
          Keeps oneNode m'.mem :=
  returns_of_enters (List.cons_ne_nil _ _) (Keeps.refl _)
    (fun _ m' _ => mallocFresh_oneBlock [] m')
    (.f [15] rfl isList_oneNode ((p_callback mainData oneBlock).frame oneNode))

/-- Code behind the program, entered by its address 89: it overwrites the element of the
list and returns. -/
def overwriting : Program Label Extern := [
  ⟨.p, [
    .mov .rax (.imm 0x200000),
    .xor .rdi .rdi,
    .store (.based .rax 0) .rdi,
    .ret]⟩]

theorem overwriting_frame :
    FrameCallback mainData overwriting (externs mainData oneBlock) oneNode
      (fun mem => ∀ a, oneNode a ≠ none → mem a ≠ none) 89 := by
  refine ProcedureUnless.of_reaches ?_
  intro reg zf rsp ra stack mem world hmem
  have hargs : steps (linked mainData overwriting) (externs mainData oneBlock) 2
      ⟨89, reg, zf, rsp, ra :: stack, mem, world⟩ =
      some ⟨91, Function.update (Function.update reg .rax 0x200000) .rdi (reg .rdi ^^^ reg .rdi),
        reg .rdi ^^^ reg .rdi = 0, rsp, ra :: stack, mem, world⟩ := rfl
  refine Reaches.of_steps hargs ?_
  refine Reaches.store rfl (hmem 0x200000 (by decide)) ?_
  refine Reaches.of_step rfl rfl (Reaches.here (Or.inl ⟨⟨rfl, rfl, ?_⟩, ?_⟩))
  · simp [Reg.forall_calleeSaved, Machine.next]
  · intro a ha
    by_cases hfirst : a = 0x200000
    · subst hfirst
      exact Option.some_ne_none _
    · exact (Function.update_of_ne hfirst _ _).trans_ne (hmem a ha)

/-- A callback that returns with the registers and the stack as they were may still
write to the list. -/
theorem not_returns_of_overwriting :
    ¬ ∀ (d : DataSection) (more : Program Label Extern)
      (externs : Extern → Machine World → Option (Effect World)) (heap : Memory)
      (m : Machine World), m.stack ≠ [] → Keeps heap m.mem →
      Always (linked d more) externs (MallocFresh d more externs heap) m →
      Enters d more heap (FrameCallback d more externs heap
        fun mem => ∀ a, heap a ≠ none → mem a ≠ none) m →
      Reaches (linked d more) externs m fun m' => Returns m m' ∧ Keeps heap m'.mem := by
  intro h
  let m : Machine World := oneNodeCall ((linked mainData overwriting).addr .m) 89 0
  have hwritten : Reaches (linked mainData overwriting) (externs mainData oneBlock) m
      fun m' => m'.pc = 4096 ∧ m'.mem 0x200000 = some 0 := by
    have hrun : (steps (linked mainData overwriting) (externs mainData oneBlock) 21 m).map
        (fun m' => (m'.pc, m'.mem 0x200000)) = some (4096, some 0) := by decide
    obtain ⟨m', hsteps, hm'⟩ := Option.map_eq_some_iff.mp hrun
    exact ⟨21, m', hsteps, Prod.ext_iff.mp hm'⟩
  have hkept := h mainData overwriting (externs mainData oneBlock) oneNode m
    (List.cons_ne_nil _ _) (Keeps.refl _) (fun _ m' _ => mallocFresh_oneBlock overwriting m')
    (.m [15] rfl isList_oneNode overwriting_frame)
  have hhalts : ∀ m' : Machine World, m'.pc = 4096 →
      step (linked mainData overwriting) (externs mainData oneBlock) m' = none := by
    intro m' hpc
    rw [step, hpc]
    rfl
  obtain ⟨-, m', -, ⟨-, hzero⟩, -, hkeeps⟩ := hwritten.of_halts (fun m' hm' => hhalts m' hm'.1)
    hkept (fun m' hm' => hhalts m' (List.cons.inj hm'.1.stack).1.symm)
  have hel : m'.mem 0x200000 = some 15 := hkeeps _ _ rfl
  rw [hzero] at hel
  exact absurd hel (by decide)

end CHomework.AsmLists
