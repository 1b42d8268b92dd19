import CHomework.AsmLists.Lists

/-!
Rules for calls of `add_element`, `m` and `f`, in any program that they are linked
into and with any external functions. A run may end in a bad state instead.
-/

namespace CHomework.AsmLists

open CHomework.X86

/-- The program with other code linked behind it. -/
abbrev linked (d : DataSection) (more : Program Label Extern) : Program Label Extern :=
  program d ++ more

section Rules

variable {W : Type} {d : DataSection} {more : Program Label Extern}
  {externs : Extern → Machine W → Option (Effect W)} {bad : Machine W → Prop}

def allocating (m : Machine W) : Machine W where
  pc := 15
  reg := Function.update (Function.update (Function.update m.reg .rbp (m.reg .rdi))
    .rbx (m.reg .rsi)) .rdi 16
  zf := m.zf
  rsp := m.rsp - 8 - 8
  stack := m.reg .rbx :: m.reg .rbp :: m.stack
  mem := m.mem
  world := m.world

structure Allocates (effect : Effect W) : Prop where
  ne_null : effect.reg .rax ≠ 0
  el : effect.mem (effect.reg .rax) ≠ none
  prev : effect.mem (effect.reg .rax + 8) ≠ none

structure MakesNode (effect : Effect W) (m m' : Machine W) : Prop where
  block : m'.reg .rax = effect.reg .rax
  mem : m'.mem = addNode effect.mem (effect.reg .rax) (m.reg .rdi) (m.reg .rsi)
  world : m'.world = effect.world

theorem addElement_stores {reg : Reg → UInt64} {zf : Bool} {rsp rbx rbp ra : UInt64}
    {stack : List UInt64} {mem : Memory} {world : W} (hnonnull : reg .rax ≠ 0)
    (hel : mem (reg .rax) ≠ none) (hprev : mem (reg .rax + 8) ≠ none) :
    Reaches (linked d more) externs ⟨16, reg, zf, rsp, rbx :: rbp :: ra :: stack, mem, world⟩
      fun m' => m' = ⟨ra, Function.update (Function.update reg .rbx rbx) .rbp rbp, false,
        rsp + 8 + 8 + 8, stack, addNode mem (reg .rax) (reg .rbp) (reg .rbx), world⟩ := by
  have htest : steps (linked d more) externs 1
      ⟨16, reg, zf, rsp, rbx :: rbp :: ra :: stack, mem, world⟩ =
      some ⟨17, reg, reg .rax &&& reg .rax = 0, rsp, rbx :: rbp :: ra :: stack, mem, world⟩ :=
    rfl
  refine Reaches.of_steps htest ?_
  have hzf : decide (reg .rax &&& reg .rax = 0) = false := by simpa using hnonnull
  rw [hzf]
  refine Reaches.jz_next rfl rfl ?_
  refine Reaches.store rfl ?_ ?_
  · simpa [Address.value, Machine.next] using hel
  refine Reaches.store rfl ?_ ?_
  · simpa [Address.value, Machine.next] using hprev
  have hrestore : steps (linked d more) externs 3
      ⟨20, reg, false, rsp, rbx :: rbp :: ra :: stack,
        Function.update (Function.update mem (reg .rax + 0) (some (reg .rbp)))
          (reg .rax + 8) (some (reg .rbx)), world⟩ =
      some ⟨ra, Function.update (Function.update reg .rbx rbx) .rbp rbp, false,
        rsp + 8 + 8 + 8, stack,
        Function.update (Function.update mem (reg .rax + 0) (some (reg .rbp)))
          (reg .rax + 8) (some (reg .rbx)), world⟩ := rfl
  refine Reaches.of_steps hrestore (Reaches.here ?_)
  rw [UInt64.add_zero, addNode]

theorem addElement_unless {pre : Machine W → Prop} {post : Machine W → Machine W → Prop}
    (hmalloc : ∀ m, pre m → bad (allocating m) ∨
      ∃ effect, externs .malloc ((allocating m).push 16) = some effect ∧ Allocates effect ∧
        ∀ m', MakesNode effect m m' → post m m') :
    ProcedureUnless (linked d more) externs bad ((linked d more).addr .addElement) pre post := by
  refine ProcedureUnless.of_reaches ?_
  intro reg zf rsp ra stack mem world hpre
  generalize hm : (⟨(linked d more).addr .addElement, reg, zf, rsp, ra :: stack, mem, world⟩ :
    Machine W) = m at hpre
  have hsave : steps (linked d more) externs 5 m = some (allocating m) := by
    rw [← hm]
    rfl
  refine Reaches.of_steps hsave ?_
  rcases hmalloc m hpre with hbad | ⟨effect, heffect, ⟨hnonnull, hel, hprev⟩, hpost⟩
  · exact Reaches.here (Or.inr hbad)
  refine Reaches.external rfl heffect ?_
  intro reg₁ hsaved hscratch
  obtain ⟨hrbx, hrbp, hr12, hr13⟩ : reg₁ .rbx = m.reg .rsi ∧ reg₁ .rbp = m.reg .rdi ∧
      reg₁ .r12 = m.reg .r12 ∧ reg₁ .r13 = m.reg .r13 := Reg.forall_calleeSaved.mp hsaved
  have hrax : reg₁ .rax = effect.reg .rax := hscratch .rax rfl
  subst hm
  rw [← hrax] at hnonnull hel hprev
  refine (addElement_stores hnonnull hel hprev).mono ?_
  rintro m' rfl
  refine Or.inl ⟨⟨rfl, ?_, ?_⟩, hpost _ ⟨?_, ?_, rfl⟩⟩
  · simp [allocating]
  · simp [Reg.forall_calleeSaved, hr12, hr13]
  · simp [hrax]
  · simp [hrax, hrbp, hrbx]

section M

variable {entry : UInt64} {heap : Memory} {inv : List UInt64 → Memory → W → Prop}

theorem m_test (reg : Reg → UInt64) (zf : Bool) (rsp : UInt64) (stack : List UInt64)
    (mem : Memory) (world : W) :
    steps (linked d more) externs 1
      ⟨(linked d more).addr .m, reg, zf, rsp, stack, mem, world⟩ =
      some ⟨24, reg, reg .rdi &&& reg .rdi = 0, rsp, stack, mem, world⟩ :=
  rfl

variable (inv) in
/-- The rule for `m`, with an invariant of the elements left, the memory and the
world. The induction is on the list. The callee-saved registers carry the node and
the callback over the call of the callback. -/
theorem m_unless (hinv : ∀ xs mem world, inv xs mem world → Keeps heap mem)
    (hcallback : ∀ x xs, ProcedureUnless (linked d more) externs bad entry
      (fun m => m.reg .rdi = x ∧ inv (x :: xs) m.mem m.world)
      (fun _ m' => inv xs m'.mem m'.world))
    (xs : List UInt64) :
    ProcedureUnless (linked d more) externs bad ((linked d more).addr .m)
      (fun m => m.reg .rsi = entry ∧ IsList heap (m.reg .rdi) xs ∧ inv xs m.mem m.world)
      (fun _ m' => inv [] m'.mem m'.world) := by
  induction xs with
  | nil =>
      refine ProcedureUnless.of_reaches ?_
      rintro reg zf rsp ra stack mem world ⟨-, hnull, hpre⟩
      have hnull : reg .rdi = 0 := hnull
      refine Reaches.of_steps (m_test reg zf rsp (ra :: stack) mem world) ?_
      refine Reaches.jz_label rfl ?_ ?_
      · simp [hnull]
      have hret : steps (linked d more) externs 1
          ⟨36, reg, reg .rdi &&& reg .rdi = 0, rsp, ra :: stack, mem, world⟩ =
            some ⟨ra, reg, reg .rdi &&& reg .rdi = 0, rsp + 8, stack, mem, world⟩ := rfl
      exact Reaches.of_steps hret (Reaches.here (Or.inl ⟨⟨rfl, rfl, fun r _ => rfl⟩, hpre⟩))
  | cons x xs ih =>
      refine ProcedureUnless.of_reaches ?_
      rintro reg zf rsp ra stack mem world
        ⟨hentry, ⟨hnonnull, hel, prev, hprev, hrest⟩, hpre⟩
      dsimp only at hentry hnonnull hel hprev hpre
      refine Reaches.of_steps (m_test reg zf rsp (ra :: stack) mem world) ?_
      refine Reaches.jz_next rfl ?_ ?_
      · simpa using hnonnull
      have hsave : steps (linked d more) externs 4
          ⟨25, reg, reg .rdi &&& reg .rdi = 0, rsp, ra :: stack, mem, world⟩ =
            some ⟨29, Function.update (Function.update reg .rbx (reg .rdi)) .rbp (reg .rsi),
              reg .rdi &&& reg .rdi = 0, rsp - 8 - 8, reg .rbx :: reg .rbp :: ra :: stack,
              mem, world⟩ := rfl
      refine Reaches.of_steps hsave ?_
      refine Reaches.load (v := x) rfl ?_ ?_
      · simpa [Address.value] using hinv _ _ _ hpre _ _ hel
      refine Reaches.callUnless (hentry ▸ hcallback x xs) rfl ⟨rfl, hpre⟩ (fun _ => Or.inr) ?_
      intro reg₁ zf₁ mem₁ world₁ hsaved₁ hpost₁
      obtain ⟨hrbx₁, hrbp₁, hr12₁, hr13₁⟩ : reg₁ .rbx = reg .rdi ∧ reg₁ .rbp = reg .rsi ∧
          reg₁ .r12 = reg .r12 ∧ reg₁ .r13 = reg .r13 := Reg.forall_calleeSaved.mp hsaved₁
      refine Reaches.load (v := prev) rfl ?_ ?_
      · simpa [Address.value, hrbx₁] using hinv _ _ _ hpost₁ _ _ hprev
      have hargs : steps (linked d more) externs 1
          ⟨32, Function.update reg₁ .rdi prev, zf₁, rsp - 8 - 8,
            reg .rbx :: reg .rbp :: ra :: stack, mem₁, world₁⟩ =
          some ⟨33, Function.update (Function.update reg₁ .rdi prev) .rsi (reg₁ .rbp), zf₁,
            rsp - 8 - 8, reg .rbx :: reg .rbp :: ra :: stack, mem₁, world₁⟩ := rfl
      refine Reaches.of_steps hargs ?_
      refine Reaches.callUnless ih rfl ⟨?_, ?_, hpost₁⟩ (fun _ => Or.inr) ?_
      · exact hrbp₁.trans hentry
      · exact hrest
      intro reg₂ zf₂ mem₂ world₂ hsaved₂ hpost₂
      obtain ⟨-, -, hr12₂, hr13₂⟩ : reg₂ .rbx = reg₁ .rbx ∧ reg₂ .rbp = reg₁ .rbp ∧
          reg₂ .r12 = reg₁ .r12 ∧ reg₂ .r13 = reg₁ .r13 := Reg.forall_calleeSaved.mp hsaved₂
      have hrestore : steps (linked d more) externs 3
          ⟨34, reg₂, zf₂, rsp - 8 - 8, reg .rbx :: reg .rbp :: ra :: stack, mem₂, world₂⟩ =
          some ⟨ra, Function.update (Function.update reg₂ .rbx (reg .rbx)) .rbp (reg .rbp),
            zf₂, rsp - 8 - 8 + 8 + 8 + 8, stack, mem₂, world₂⟩ := rfl
      refine Reaches.of_steps hrestore (Reaches.here (Or.inl ⟨⟨rfl, ?_, ?_⟩, hpost₂⟩))
      · simp
      · simp [Reg.forall_calleeSaved, hr12₂, hr13₂, hr12₁, hr13₁]

end M

section F

variable {entry : UInt64} {heap : Memory} {inv : List UInt64 → UInt64 → Memory → W → Prop}
  {picked : UInt64 → List UInt64 → UInt64 → Memory → W → Prop}

/-- The machine in the body of `f`, between its pushes and its pops. -/
def inBody (m : Machine W) (pc : UInt64) (reg : Reg → UInt64) (zf : Bool) (mem : Memory)
    (world : W) : Machine W :=
  ⟨pc, reg, zf, m.rsp - 8 - 8 - 8, m.reg .r13 :: m.reg .r12 :: m.reg .rbx :: m.stack, mem,
    world⟩

def bodyReg (reg : Reg → UInt64) : Reg → UInt64 :=
  Function.update (Function.update (Function.update (Function.update reg .rax (reg .rsi))
    .rbx (reg .rdi)) .r12 (reg .rsi)) .r13 (reg .rdx)

structure InBody (m : Machine W) (reg : Reg → UInt64) : Prop where
  rbx : reg .rbx = m.reg .rdi
  r12 : reg .r12 = m.reg .rsi
  r13 : reg .r13 = m.reg .rdx
  rbp : reg .rbp = m.reg .rbp

theorem InBody.saved {m : Machine W} {reg reg' : Reg → UInt64} (h : InBody m reg)
    (hsaved : ∀ r : Reg, r.calleeSaved = true → reg' r = reg r) : InBody m reg' :=
  ⟨(hsaved .rbx rfl).trans h.rbx, (hsaved .r12 rfl).trans h.r12, (hsaved .r13 rfl).trans h.r13,
    (hsaved .rbp rfl).trans h.rbp⟩

theorem InBody.update {m : Machine W} {reg : Reg → UInt64} (h : InBody m reg) {r : Reg}
    (hr : r.calleeSaved = false) (v : UInt64) : InBody m (Function.update reg r v) := by
  refine h.saved ?_
  intro r' hr'
  have hne : r' ≠ r := by
    rintro rfl
    simp [hr] at hr'
  rw [Function.update_of_ne hne]

structure CalledFor (entry : UInt64) (heap : Memory) (x : UInt64) (xs : List UInt64)
    (m : Machine W) : Prop where
  stack : m.stack ≠ []
  callback : m.reg .rdx = entry
  el : heap (m.reg .rdi) = some x
  rest : ∃ prev, heap (m.reg .rdi + 8) = some prev ∧ IsList heap prev xs

/-- What `f` is called with: the callback, a list in the heap, and a state that the
invariant allows. -/
def FPre (entry : UInt64) (heap : Memory) (inv : List UInt64 → UInt64 → Memory → W → Prop)
    (xs : List UInt64) (m : Machine W) : Prop :=
  m.reg .rdx = entry ∧ IsList heap (m.reg .rdi) xs ∧ inv xs (m.reg .rsi) m.mem m.world

def FPost (inv : List UInt64 → UInt64 → Memory → W → Prop) (_ m' : Machine W) : Prop :=
  inv [] (m'.reg .rax) m'.mem m'.world

/-- The code from `ff` to the end of `f`. -/
theorem f_tail (hinv : ∀ xs acc mem world, inv xs acc mem world → Keeps heap mem)
    {xs : List UInt64}
    (hf : ProcedureUnless (linked d more) externs bad ((linked d more).addr .f)
      (FPre entry heap inv xs) (FPost inv))
    {m : Machine W} {x : UInt64} (hm : CalledFor entry heap x xs m) {reg : Reg → UInt64}
    (hreg : InBody m reg) {zf : Bool} {mem : Memory} {world : W}
    (hpre : inv xs (reg .rsi) mem world) :
    Reaches (linked d more) externs (inBody m ((linked d more).addr .ff) reg zf mem world)
      fun m' => (Returns m m' ∧ FPost inv m m') ∨ bad m' := by
  obtain ⟨pc₀, reg₀, zf₀, rsp₀, stack₀, mem₀, world₀⟩ := m
  obtain ⟨hstack, hentry, -, prev, hprev, hrest⟩ := hm
  obtain ⟨ra, stack₀, rfl⟩ := List.exists_cons_of_ne_nil hstack
  dsimp only at hentry hprev
  refine Reaches.load (v := prev) rfl ?_ ?_
  · simpa [inBody, Address.value, hreg.rbx] using hinv _ _ _ _ hpre _ _ hprev
  have hargs : steps (linked d more) externs 1
      ⟨57, Function.update reg .rdi prev, zf, rsp₀ - 8 - 8 - 8,
        reg₀ .r13 :: reg₀ .r12 :: reg₀ .rbx :: ra :: stack₀, mem, world⟩ =
      some ⟨58, Function.update (Function.update reg .rdi prev) .rdx (reg .r13), zf,
        rsp₀ - 8 - 8 - 8, reg₀ .r13 :: reg₀ .r12 :: reg₀ .rbx :: ra :: stack₀, mem,
        world⟩ := rfl
  refine Reaches.of_steps hargs ?_
  refine Reaches.callUnless hf rfl ⟨?_, ?_, ?_⟩ (fun _ => Or.inr) ?_
  · exact hreg.r13.trans hentry
  · exact hrest
  · exact hpre
  intro reg₁ zf₁ mem₁ world₁ hsaved₁ hpost
  have hrbp : reg₁ .rbp = reg₀ .rbp := (hsaved₁ .rbp rfl).trans hreg.rbp
  have hrestore : steps (linked d more) externs 4
      ⟨59, reg₁, zf₁, rsp₀ - 8 - 8 - 8,
        reg₀ .r13 :: reg₀ .r12 :: reg₀ .rbx :: ra :: stack₀, mem₁, world₁⟩ =
      some ⟨ra, Function.update (Function.update (Function.update reg₁ .r13 (reg₀ .r13))
        .r12 (reg₀ .r12)) .rbx (reg₀ .rbx), zf₁, rsp₀ - 8 - 8 - 8 + 8 + 8 + 8 + 8, stack₀, mem₁,
        world₁⟩ := rfl
  refine Reaches.of_steps hrestore (Reaches.here (Or.inl ⟨⟨rfl, ?_, ?_⟩, hpost⟩))
  · simp
  · simp [Reg.forall_calleeSaved, hrbp]

/-- The code from `z` on, where the element is left out. -/
theorem f_skips (hinv : ∀ xs acc mem world, inv xs acc mem world → Keeps heap mem)
    {xs : List UInt64}
    (hf : ProcedureUnless (linked d more) externs bad ((linked d more).addr .f)
      (FPre entry heap inv xs) (FPost inv))
    {m : Machine W} {x : UInt64} (hm : CalledFor entry heap x xs m) {reg : Reg → UInt64}
    (hreg : InBody m reg) {zf : Bool} {mem : Memory} {world : W}
    (hpre : inv xs (m.reg .rsi) mem world) :
    Reaches (linked d more) externs (inBody m ((linked d more).addr .z) reg zf mem world)
      fun m' => (Returns m m' ∧ FPost inv m m') ∨ bad m' := by
  have hz : steps (linked d more) externs 1
      (inBody m ((linked d more).addr .z) reg zf mem world) =
      some (inBody m 56 (Function.update reg .rsi (reg .r12)) zf mem world) := rfl
  refine Reaches.of_steps hz ?_
  refine f_tail hinv hf hm (hreg.update (r := .rsi) rfl (reg .r12)) ?_
  simpa [hreg.r12] using hpre

/-- The code in front of `z`, where the element is pushed onto the accumulator. -/
theorem f_pushes (hinv : ∀ xs acc mem world, inv xs acc mem world → Keeps heap mem)
    (hpicked : ∀ x xs acc mem world, picked x xs acc mem world → Keeps heap mem)
    (hadd : ∀ x xs acc, ProcedureUnless (linked d more) externs bad
      ((linked d more).addr .addElement)
      (fun m => m.reg .rdi = x ∧ m.reg .rsi = acc ∧ picked x xs acc m.mem m.world)
      (fun _ m' => inv xs (m'.reg .rax) m'.mem m'.world))
    {xs : List UInt64}
    (hf : ProcedureUnless (linked d more) externs bad ((linked d more).addr .f)
      (FPre entry heap inv xs) (FPost inv))
    {m : Machine W} {x : UInt64} (hm : CalledFor entry heap x xs m) {reg : Reg → UInt64}
    (hreg : InBody m reg) {zf : Bool} {mem : Memory} {world : W}
    (hpre : picked x xs (m.reg .rsi) mem world) :
    Reaches (linked d more) externs (inBody m 50 reg zf mem world)
      fun m' => (Returns m m' ∧ FPost inv m m') ∨ bad m' := by
  refine Reaches.load (v := x) rfl ?_ ?_
  · simpa [inBody, Address.value, hreg.rbx] using hpicked _ _ _ _ _ hpre _ _ hm.el
  have hargs : steps (linked d more) externs 1
      (inBody m 51 (Function.update reg .rdi x) zf mem world) =
      some (inBody m 52 (Function.update (Function.update reg .rdi x) .rsi (reg .r12)) zf mem
        world) := rfl
  refine Reaches.of_steps hargs ?_
  refine Reaches.callUnless (hadd x xs (m.reg .rsi)) rfl ⟨rfl, ?_, hpre⟩ (fun _ => Or.inr) ?_
  · exact hreg.r12
  intro reg₁ zf₁ mem₁ world₁ hsaved₁ hpost₁
  have hreg₁ : InBody m reg₁ :=
    ((hreg.update (r := .rdi) rfl x).update (r := .rsi) rfl (reg .r12)).saved hsaved₁
  have hjmp : steps (linked d more) externs 2 (inBody m 53 reg₁ zf₁ mem₁ world₁) =
      some (inBody m 56 (Function.update reg₁ .rsi (reg₁ .rax)) zf₁ mem₁ world₁) := rfl
  refine Reaches.of_steps hjmp ?_
  exact f_tail hinv hf hm (hreg₁.update (r := .rsi) rfl (reg₁ .rax)) hpost₁

theorem f_test (reg : Reg → UInt64) (zf : Bool) (rsp : UInt64) (stack : List UInt64)
    (mem : Memory) (world : W) :
    steps (linked d more) externs 2
      ⟨(linked d more).addr .f, reg, zf, rsp, stack, mem, world⟩ =
      some ⟨39, Function.update reg .rax (reg .rsi), reg .rdi &&& reg .rdi = 0, rsp, stack, mem,
        world⟩ :=
  rfl

variable (inv picked) in
/-- The rule for `f`, with an invariant of the elements left, the accumulator, the
memory and the world. The induction is on the list. -/
theorem f_unless (hinv : ∀ xs acc mem world, inv xs acc mem world → Keeps heap mem)
    (hpicked : ∀ x xs acc mem world, picked x xs acc mem world → Keeps heap mem)
    (hcallback : ∀ x xs acc, ProcedureUnless (linked d more) externs bad entry
      (fun m => m.reg .rdi = x ∧ inv (x :: xs) acc m.mem m.world)
      (fun _ m' => (m'.reg .rax = 0 → inv xs acc m'.mem m'.world) ∧
        (m'.reg .rax ≠ 0 → picked x xs acc m'.mem m'.world)))
    (hadd : ∀ x xs acc, ProcedureUnless (linked d more) externs bad
      ((linked d more).addr .addElement)
      (fun m => m.reg .rdi = x ∧ m.reg .rsi = acc ∧ picked x xs acc m.mem m.world)
      (fun _ m' => inv xs (m'.reg .rax) m'.mem m'.world))
    (xs : List UInt64) :
    ProcedureUnless (linked d more) externs bad ((linked d more).addr .f)
      (FPre entry heap inv xs) (FPost inv) := by
  induction xs with
  | nil =>
      refine ProcedureUnless.of_reaches ?_
      rintro reg zf rsp ra stack mem world ⟨-, hnull, hpre⟩
      have hnull : reg .rdi = 0 := hnull
      refine Reaches.of_steps (f_test reg zf rsp (ra :: stack) mem world) ?_
      refine Reaches.jz_label rfl ?_ ?_
      · simp [hnull]
      have hret : steps (linked d more) externs 1
          ⟨62, Function.update reg .rax (reg .rsi), reg .rdi &&& reg .rdi = 0, rsp,
            ra :: stack, mem, world⟩ =
          some ⟨ra, Function.update reg .rax (reg .rsi), reg .rdi &&& reg .rdi = 0, rsp + 8,
            stack, mem, world⟩ := rfl
      refine Reaches.of_steps hret (Reaches.here (Or.inl ⟨⟨rfl, rfl, ?_⟩, ?_⟩))
      · simp [Reg.forall_calleeSaved]
      · simpa [FPost] using hpre
  | cons x xs ih =>
      refine ProcedureUnless.of_reaches ?_
      rintro reg zf rsp ra stack mem world
        ⟨hentry, ⟨hnonnull, hel, prev, hprev, hrest⟩, hpre⟩
      refine Reaches.of_steps (f_test reg zf rsp (ra :: stack) mem world) ?_
      refine Reaches.jz_next rfl ?_ ?_
      · simpa using hnonnull
      generalize heq : (⟨(linked d more).addr .f, reg, zf, rsp, ra :: stack, mem, world⟩ :
        Machine W) = m at hentry hnonnull hel hprev hpre ⊢
      have hm : CalledFor entry heap x xs m :=
        ⟨by simp [← heq], hentry, hel, prev, hprev, hrest⟩
      have hsave : steps (linked d more) externs 6
          ⟨40, Function.update reg .rax (reg .rsi), reg .rdi &&& reg .rdi = 0, rsp,
            ra :: stack, mem, world⟩ =
          some (inBody m 46 (bodyReg m.reg) (m.reg .rdi &&& m.reg .rdi = 0) m.mem
            m.world) := by
        rw [← heq]
        rfl
      refine Reaches.of_steps hsave ?_
      refine Reaches.load (v := x) rfl ?_ ?_
      · simpa [inBody, bodyReg, Address.value] using hinv _ _ _ _ hpre _ _ hel
      refine Reaches.callUnless (hentry ▸ hcallback x xs (m.reg .rsi)) rfl ⟨rfl, hpre⟩
        (fun _ => Or.inr) ?_
      rintro reg₁ zf₁ mem₁ world₁ hsaved₁ ⟨hskipped, hpicks⟩
      have hreg : InBody m (bodyReg m.reg) := ⟨rfl, rfl, rfl, rfl⟩
      have hreg₁ : InBody m reg₁ := (hreg.update (r := .rdi) rfl x).saved hsaved₁
      have htest : steps (linked d more) externs 1 (inBody m 48 reg₁ zf₁ mem₁ world₁) =
          some (inBody m 49 reg₁ (reg₁ .rax &&& reg₁ .rax = 0) mem₁ world₁) := rfl
      refine Reaches.of_steps htest ?_
      by_cases hrax : reg₁ .rax = 0
      · refine Reaches.jz_label rfl ?_ ?_
        · simp [inBody, hrax]
        exact f_skips hinv ih hm hreg₁ (hskipped hrax)
      · refine Reaches.jz_next rfl ?_ ?_
        · simpa [inBody] using hrax
        exact f_pushes hinv hpicked hadd ih hm hreg₁ (hpicks hrax)

end F

end Rules

end CHomework.AsmLists
