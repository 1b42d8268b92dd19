import Mathlib.Logic.Function.Basic

/-!
The part of the 64-bit instruction set that works on whole words, with calls of
external functions that follow the System V calling convention, and rules for
proving what a piece of code reaches.
-/

namespace CHomework.X86

inductive Reg
  | rax | rbx | rdx | rsi | rdi | rbp | r12 | r13
deriving DecidableEq

def Reg.calleeSaved : Reg → Bool
  | .rbx | .rbp | .r12 | .r13 => true
  | .rax | .rdx | .rsi | .rdi => false

theorem Reg.forall_calleeSaved {P : Reg → Prop} :
    (∀ r : Reg, r.calleeSaved = true → P r) ↔ P .rbx ∧ P .rbp ∧ P .r12 ∧ P .r13 := by
  constructor
  · intro h
    exact ⟨h .rbx rfl, h .rbp rfl, h .r12 rfl, h .r13 rfl⟩
  · rintro ⟨hrbx, hrbp, hr12, hr13⟩ r hr
    cases r with
    | rbx => exact hrbx
    | rbp => exact hrbp
    | r12 => exact hr12
    | r13 => exact hr13
    | rax | rdx | rsi | rdi => cases hr

/-- What is moved into a register: another register, a number, or the address of
the code at a label. -/
inductive Operand (L : Type)
  | reg (r : Reg)
  | imm (v : UInt64)
  | label (l : L)

/-- `[base + disp]`, or `[disp + index * 8]`. -/
inductive Address
  | based (base : Reg) (disp : UInt64)
  | indexed (disp : UInt64) (index : Reg)

inductive Target (L E : Type)
  | label (l : L)
  | reg (r : Reg)
  | external (e : E)

inductive Instr (L E : Type)
  | mov (dst : Reg) (src : Operand L)
  | load (dst : Reg) (src : Address)
  | store (dst : Address) (src : Reg)
  | push (src : Reg)
  | pop (dst : Reg)
  | xor (dst src : Reg)
  | and (dst : Reg) (v : UInt64)
  | test (a b : Reg)
  | dec (dst : Reg)
  | jmp (t : Target L E)
  | jz (t : Target L E)
  | jnz (t : Target L E)
  | call (t : Target L E)
  | ret

/-- The instructions behind a label, up to the next one. -/
structure Block (L E : Type) where
  label : L
  code : List (Instr L E)

abbrev Program (L E : Type) := List (Block L E)

/-- The machine. A code address is the number of instructions in front of it. The
stack is a list of words with its top in front, apart from the other memory, and
`rsp` moves with it. The other memory is given by the words that are allocated,
each at its address. `World` is what the external functions keep. -/
structure Machine (World : Type) where
  pc : UInt64
  reg : Reg → UInt64
  zf : Bool
  rsp : UInt64
  stack : List UInt64
  mem : UInt64 → Option UInt64
  world : World

/-- What an external function does: the values it leaves in the registers it need
not save and in the zero flag, and the memory and the world after it. -/
structure Effect (World : Type) where
  reg : Reg → UInt64
  zf : Bool
  mem : UInt64 → Option UInt64
  world : World

variable {L E World : Type}

section Execution

variable [DecidableEq L]

def Program.code (prog : Program L E) : List (Instr L E) :=
  prog.flatMap Block.code

def Program.addr (prog : Program L E) (l : L) : UInt64 :=
  UInt64.ofNat ((prog.takeWhile fun b => b.label ≠ l).flatMap Block.code).length

def Operand.value (prog : Program L E) (m : Machine World) : Operand L → UInt64
  | .reg r => m.reg r
  | .imm v => v
  | .label l => prog.addr l

def Address.value (m : Machine World) : Address → UInt64
  | .based base disp => m.reg base + disp
  | .indexed disp index => disp + m.reg index * 8

/-- The machine at the next instruction, with a register set. -/
def Machine.set (m : Machine World) (r : Reg) (v : UInt64) : Machine World :=
  { m with pc := m.pc + 1, reg := Function.update m.reg r v }

def Machine.next (m : Machine World) : Machine World :=
  { m with pc := m.pc + 1 }

def Machine.push (m : Machine World) (v : UInt64) : Machine World :=
  { m with rsp := m.rsp - 8, stack := v :: m.stack }

/-- Back to the address on top of the stack. -/
def Machine.ret (m : Machine World) : Option (Machine World) :=
  match m.stack with
  | [] => none
  | ra :: stack => some { m with pc := ra, rsp := m.rsp + 8, stack }

def Machine.apply (m : Machine World) (e : Effect World) : Machine World :=
  { m with
    reg := fun r => if r.calleeSaved then m.reg r else e.reg r
    zf := e.zf
    mem := e.mem
    world := e.world }

/-- Control goes to the target. An external function runs to its end and returns. -/
def Machine.enter (prog : Program L E)
    (externs : E → Machine World → Option (Effect World)) (m : Machine World) :
    Target L E → Option (Machine World)
  | .label l => some { m with pc := prog.addr l }
  | .reg r => some { m with pc := m.reg r }
  | .external e => (externs e m).bind fun effect => (m.apply effect).ret

def Instr.exec (prog : Program L E)
    (externs : E → Machine World → Option (Effect World)) (m : Machine World) :
    Instr L E → Option (Machine World)
  | .mov dst src => some (m.set dst (src.value prog m))
  | .load dst src => (m.mem (src.value m)).map (m.set dst)
  | .store dst src => (m.mem (dst.value m)).map fun _ =>
      { m.next with mem := Function.update m.mem (dst.value m) (some (m.reg src)) }
  | .push src => some (m.next.push (m.reg src))
  | .pop dst =>
      match m.stack with
      | [] => none
      | v :: stack => some { m.set dst v with rsp := m.rsp + 8, stack }
  | .xor dst src =>
      let v := m.reg dst ^^^ m.reg src
      some { m.set dst v with zf := v = 0 }
  | .and dst v =>
      let v := m.reg dst &&& v
      some { m.set dst v with zf := v = 0 }
  | .test a b => some { m.next with zf := m.reg a &&& m.reg b = 0 }
  | .dec dst =>
      let v := m.reg dst - 1
      some { m.set dst v with zf := v = 0 }
  | .jmp t => m.enter prog externs t
  | .jz t => if m.zf then m.enter prog externs t else some m.next
  | .jnz t => if m.zf then some m.next else m.enter prog externs t
  | .call t => (m.push (m.pc + 1)).enter prog externs t
  | .ret => m.ret

/-- One step of the machine. It has none at an address without code, on an access
of memory that is not allocated, and where an external function does not return. -/
def step (prog : Program L E) (externs : E → Machine World → Option (Effect World))
    (m : Machine World) : Option (Machine World) :=
  (prog.code[m.pc.toNat]?).bind (Instr.exec prog externs m)

def steps (prog : Program L E) (externs : E → Machine World → Option (Effect World)) :
    Nat → Machine World → Option (Machine World)
  | 0, m => some m
  | n + 1, m => (step prog externs m).bind (steps prog externs n)

end Execution

section Rules

variable [DecidableEq L] (prog : Program L E)
  (externs : E → Machine World → Option (Effect World))

/-- The machine comes to a state with the property. -/
def Reaches (m : Machine World) (Q : Machine World → Prop) : Prop :=
  ∃ n m', steps prog externs n m = some m' ∧ Q m'

/-- The machine has the property in every state that it comes to. -/
def Always (P : Machine World → Prop) (m : Machine World) : Prop :=
  ∀ n m', steps prog externs n m = some m' → P m'

/-- `m'` is where the caller of the procedure that `m` enters goes on. -/
structure Returns (m m' : Machine World) : Prop where
  stack : m.stack = m'.pc :: m'.stack
  rsp : m'.rsp = m.rsp + 8
  saved : ∀ r : Reg, r.calleeSaved = true → m'.reg r = m.reg r

/-- The code at an address is a procedure that returns to its caller and keeps the
calling convention, with a pre- and a postcondition. -/
def Procedure (entry : UInt64) (pre : Machine World → Prop)
    (post : Machine World → Machine World → Prop) : Prop :=
  ∀ m : Machine World, m.pc = entry → m.stack ≠ [] → pre m →
    Reaches prog externs m fun m' => Returns m m' ∧ post m m'

/-- The same of code that may instead come to a bad state and is not looked at from
there on. -/
def ProcedureUnless (bad : Machine World → Prop) (entry : UInt64) (pre : Machine World → Prop)
    (post : Machine World → Machine World → Prop) : Prop :=
  ∀ m : Machine World, m.pc = entry → m.stack ≠ [] → pre m →
    Reaches prog externs m fun m' => (Returns m m' ∧ post m m') ∨ bad m'

def Machine.called (m : Machine World) (entry : UInt64) : Machine World :=
  { m.push (m.pc + 1) with pc := entry }

variable {prog externs} {m : Machine World} {Q : Machine World → Prop}

theorem steps_add {n k : Nat} {m' : Machine World} (h : steps prog externs n m = some m') :
    steps prog externs (n + k) m = steps prog externs k m' := by
  induction n generalizing m with
  | zero =>
      obtain rfl : m = m' := by simpa [steps] using h
      rw [Nat.zero_add]
  | succ n ih =>
      rw [Nat.succ_add]
      simp only [steps] at h ⊢
      rcases hstep : step prog externs m with _ | m₁
      · simp [hstep] at h
      · rw [hstep, Option.bind_some] at h
        rw [Option.bind_some, ih h]

theorem Reaches.here (h : Q m) : Reaches prog externs m Q :=
  ⟨0, m, rfl, h⟩

theorem Reaches.of_steps {n : Nat} {m' : Machine World}
    (h : steps prog externs n m = some m') (hm' : Reaches prog externs m' Q) :
    Reaches prog externs m Q := by
  obtain ⟨k, m'', hsteps, hQ⟩ := hm'
  exact ⟨n + k, m'', (steps_add h).trans hsteps, hQ⟩

theorem Reaches.bind {P : Machine World → Prop} (h : Reaches prog externs m P)
    (hP : ∀ m', P m' → Reaches prog externs m' Q) : Reaches prog externs m Q := by
  obtain ⟨n, m', hsteps, hm'⟩ := h
  exact (hP m' hm').of_steps hsteps

theorem Reaches.mono {P : Machine World → Prop} (h : Reaches prog externs m P)
    (hP : ∀ m', P m' → Q m') : Reaches prog externs m Q :=
  h.bind fun m' hm' => .here (hP m' hm')

theorem Reaches.of_always {bad : Machine World → Prop}
    (h : Reaches prog externs m fun m' => Q m' ∨ bad m')
    (hnever : Always prog externs (fun m' => ¬ bad m') m) : Reaches prog externs m Q := by
  obtain ⟨n, m', hsteps, hQ | hbad⟩ := h
  · exact ⟨n, m', hsteps, hQ⟩
  · exact absurd hbad (hnever n m' hsteps)

theorem steps_eq_of_halts {n k : Nat} {m₁ m₂ : Machine World}
    (h₁ : steps prog externs n m = some m₁) (hhalts : step prog externs m₁ = none)
    (h₂ : steps prog externs k m = some m₂) (hle : n ≤ k) : m₁ = m₂ := by
  obtain ⟨j, rfl⟩ := Nat.exists_eq_add_of_le hle
  rw [steps_add h₁] at h₂
  cases j with
  | zero => exact Option.some.inj h₂
  | succ j => simp [steps, hhalts] at h₂

/-- Only one state without a next one is reached. -/
theorem Reaches.of_halts {P : Machine World → Prop} (h : Reaches prog externs m P)
    (hP : ∀ m', P m' → step prog externs m' = none) (h' : Reaches prog externs m Q)
    (hQ : ∀ m', Q m' → step prog externs m' = none) :
    Reaches prog externs m fun m' => P m' ∧ Q m' := by
  obtain ⟨n, m₁, hsteps₁, hm₁⟩ := h
  obtain ⟨k, m₂, hsteps₂, hm₂⟩ := h'
  have heq : m₁ = m₂ := by
    rcases Nat.le_total n k with hle | hle
    · exact steps_eq_of_halts hsteps₁ (hP m₁ hm₁) hsteps₂ hle
    · exact (steps_eq_of_halts hsteps₂ (hQ m₂ hm₂) hsteps₁ hle).symm
  exact ⟨n, m₁, hsteps₁, hm₁, heq ▸ hm₂⟩

theorem Procedure.of_reaches {entry : UInt64} {pre : Machine World → Prop}
    {post : Machine World → Machine World → Prop}
    (h : ∀ reg zf rsp ra stack mem world, pre ⟨entry, reg, zf, rsp, ra :: stack, mem, world⟩ →
      Reaches prog externs ⟨entry, reg, zf, rsp, ra :: stack, mem, world⟩ fun m' =>
        Returns ⟨entry, reg, zf, rsp, ra :: stack, mem, world⟩ m' ∧
          post ⟨entry, reg, zf, rsp, ra :: stack, mem, world⟩ m') :
    Procedure prog externs entry pre post := by
  rintro ⟨pc, reg, zf, rsp, stack, mem, world⟩ hpc hstack hpre
  obtain rfl : pc = entry := hpc
  cases stack with
  | nil => exact absurd rfl hstack
  | cons ra stack => exact h reg zf rsp ra stack mem world hpre

section Unless

variable {bad : Machine World → Prop} {entry : UInt64} {pre : Machine World → Prop}
  {post : Machine World → Machine World → Prop}

theorem ProcedureUnless.of_reaches
    (h : ∀ reg zf rsp ra stack mem world, pre ⟨entry, reg, zf, rsp, ra :: stack, mem, world⟩ →
      Reaches prog externs ⟨entry, reg, zf, rsp, ra :: stack, mem, world⟩ fun m' =>
        (Returns ⟨entry, reg, zf, rsp, ra :: stack, mem, world⟩ m' ∧
          post ⟨entry, reg, zf, rsp, ra :: stack, mem, world⟩ m') ∨ bad m') :
    ProcedureUnless prog externs bad entry pre post := by
  rintro ⟨pc, reg, zf, rsp, stack, mem, world⟩ hpc hstack hpre
  obtain rfl : pc = entry := hpc
  cases stack with
  | nil => exact absurd rfl hstack
  | cons ra stack => exact h reg zf rsp ra stack mem world hpre

theorem Procedure.unless (h : Procedure prog externs entry pre post) :
    ProcedureUnless prog externs bad entry pre post :=
  fun m hpc hstack hpre => (h m hpc hstack hpre).mono fun _ => Or.inl

theorem ProcedureUnless.procedure
    (h : ProcedureUnless prog externs (fun _ => False) entry pre post) :
    Procedure prog externs entry pre post :=
  fun m hpc hstack hpre => (h m hpc hstack hpre).mono fun _ h => h.resolve_right not_false

theorem Reaches.callUnless (hproc : ProcedureUnless prog externs bad entry pre post)
    (hcall : step prog externs m = some (m.called entry)) (hpre : pre (m.called entry))
    (hbad : ∀ m', bad m' → Q m')
    (hnext : ∀ reg zf mem world, (∀ r : Reg, r.calleeSaved = true → reg r = m.reg r) →
      post (m.called entry) ⟨m.pc + 1, reg, zf, m.rsp, m.stack, mem, world⟩ →
        Reaches prog externs ⟨m.pc + 1, reg, zf, m.rsp, m.stack, mem, world⟩ Q) :
    Reaches prog externs m Q := by
  have hentered : steps prog externs 1 m = some (m.called entry) := by
    simp [steps, hcall]
  refine Reaches.of_steps hentered ?_
  refine (hproc (m.called entry) rfl (List.cons_ne_nil _ _) hpre).bind ?_
  rintro m' (⟨⟨hstack, hrsp, hsaved⟩, hpost⟩ | hm')
  · obtain ⟨pc, reg, zf, rsp, stack, mem, world⟩ := m'
    obtain ⟨rfl, rfl⟩ : m.pc + 1 = pc ∧ m.stack = stack := List.cons.inj hstack
    obtain rfl : rsp = m.rsp := hrsp.trans (UInt64.sub_add_cancel _ _)
    exact hnext reg zf mem world hsaved hpost
  · exact .here (hbad m' hm')

/-- The rule for the call of a procedure. -/
theorem Reaches.call (hproc : Procedure prog externs entry pre post)
    (hcall : step prog externs m = some (m.called entry)) (hpre : pre (m.called entry))
    (hnext : ∀ reg zf mem world, (∀ r : Reg, r.calleeSaved = true → reg r = m.reg r) →
      post (m.called entry) ⟨m.pc + 1, reg, zf, m.rsp, m.stack, mem, world⟩ →
        Reaches prog externs ⟨m.pc + 1, reg, zf, m.rsp, m.stack, mem, world⟩ Q) :
    Reaches prog externs m Q := by
  have hunless : ProcedureUnless prog externs (fun _ => False) entry pre post := hproc.unless
  exact .callUnless hunless hcall hpre (fun _ h => h.elim) hnext

end Unless

theorem Reaches.external {e : E} {effect : Effect World}
    (hcode : prog.code[m.pc.toNat]? = some (.call (.external e)))
    (heffect : externs e (m.push (m.pc + 1)) = some effect)
    (hnext : ∀ reg, (∀ r : Reg, r.calleeSaved = true → reg r = m.reg r) →
      (∀ r : Reg, r.calleeSaved = false → reg r = effect.reg r) →
        Reaches prog externs
          ⟨m.pc + 1, reg, effect.zf, m.rsp, m.stack, effect.mem, effect.world⟩ Q) :
    Reaches prog externs m Q := by
  have hreturn : ((m.push (m.pc + 1)).apply effect).ret =
      some { m.apply effect with pc := m.pc + 1 } := by
    simp [Machine.push, Machine.apply, Machine.ret]
  have hcall : step prog externs m = some { m.apply effect with pc := m.pc + 1 } := by
    rw [step, hcode, Option.bind_some, Instr.exec, Machine.enter, heffect, Option.bind_some,
      hreturn]
  have hstep : steps prog externs 1 m = some { m.apply effect with pc := m.pc + 1 } := by
    simp [steps, hcall]
  refine Reaches.of_steps hstep (hnext _ ?_ ?_)
  · intro r hr
    exact if_pos hr
  · intro r hr
    exact if_neg (by simp [hr])

theorem Reaches.of_step {i : Instr L E} {m' : Machine World}
    (hcode : prog.code[m.pc.toNat]? = some i) (hexec : i.exec prog externs m = some m')
    (hnext : Reaches prog externs m' Q) : Reaches prog externs m Q := by
  have hstep : steps prog externs 1 m = some m' := by
    simp [steps, step, hcode, hexec]
  exact hnext.of_steps hstep

theorem Reaches.load {dst : Reg} {src : Address} {v : UInt64}
    (hcode : prog.code[m.pc.toNat]? = some (.load dst src))
    (hmem : m.mem (src.value m) = some v) (hnext : Reaches prog externs (m.set dst v) Q) :
    Reaches prog externs m Q :=
  .of_step hcode (by rw [Instr.exec, hmem, Option.map_some]) hnext

theorem Reaches.store {dst : Address} {src : Reg}
    (hcode : prog.code[m.pc.toNat]? = some (.store dst src))
    (hmem : m.mem (dst.value m) ≠ none)
    (hnext : Reaches prog externs
      { m.next with mem := Function.update m.mem (dst.value m) (some (m.reg src)) } Q) :
    Reaches prog externs m Q := by
  obtain ⟨v, hv⟩ := Option.ne_none_iff_exists'.mp hmem
  exact .of_step hcode (by rw [Instr.exec, hv, Option.map_some]) hnext

theorem Reaches.jz_next {t : Target L E} (hcode : prog.code[m.pc.toNat]? = some (.jz t))
    (hzf : m.zf = false) (hnext : Reaches prog externs m.next Q) : Reaches prog externs m Q :=
  .of_step hcode (by rw [Instr.exec, if_neg (by simp [hzf])]) hnext

theorem Reaches.jz_label {l : L}
    (hcode : prog.code[m.pc.toNat]? = some (.jz (.label l))) (hzf : m.zf = true)
    (hnext : Reaches prog externs { m with pc := prog.addr l } Q) : Reaches prog externs m Q :=
  .of_step hcode (by rw [Instr.exec, if_pos hzf, Machine.enter]) hnext

theorem Reaches.jnz_next {t : Target L E} (hcode : prog.code[m.pc.toNat]? = some (.jnz t))
    (hzf : m.zf = true) (hnext : Reaches prog externs m.next Q) : Reaches prog externs m Q :=
  .of_step hcode (by rw [Instr.exec, if_pos hzf]) hnext

theorem Reaches.jnz_label {l : L}
    (hcode : prog.code[m.pc.toNat]? = some (.jnz (.label l))) (hzf : m.zf = false)
    (hnext : Reaches prog externs { m with pc := prog.addr l } Q) : Reaches prog externs m Q :=
  .of_step hcode (by rw [Instr.exec, if_neg (by simp [hzf]), Machine.enter]) hnext

end Rules

end CHomework.X86
