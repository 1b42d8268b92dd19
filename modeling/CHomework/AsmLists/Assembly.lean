import Mathlib.Algebra.Group.Nat.Defs
import CHomework.Lib.X86

/-!
The assembly program of the homework: it builds a list from an array, prints it,
picks its odd elements into a second list and prints that.
-/

namespace CHomework.AsmLists

open CHomework.X86

inductive Label
  | printInt | p | addElement | m | outm | f | z | ff | outf | main | addingLoop
deriving DecidableEq

inductive Extern
  | malloc | puts | printf | fflush | abort

/-- The data section, with any non-empty array for `data`. -/
structure DataSection where
  start : UInt64
  data : List UInt64
  nonempty : data ≠ []
  fits : start.toNat + 6 + 8 * data.length ≤ 2 ^ 64

namespace DataSection

variable (d : DataSection)

def emptyStr : UInt64 := d.start

def intFormat : UInt64 := d.start + 1

/-- The address of `data`, behind `empty_str` and `int_format`. -/
def dataStart : UInt64 := d.start + 6

def dataLength : UInt64 := UInt64.ofNat d.data.length

/-- The words of `data` in memory. -/
def mem (a : UInt64) : Option UInt64 :=
  let offset := (a - d.dataStart).toNat
  if offset % 8 = 0 then d.data[offset / 8]? else none

end DataSection

/-- The text section of `main.asm`. -/
def program (d : DataSection) : Program Label Extern := [
  ⟨.printInt, [
    .mov .rsi (.reg .rdi),
    .mov .rdi (.imm d.intFormat),
    .xor .rax .rax,
    .call (.external .printf),
    .xor .rdi .rdi,
    .call (.external .fflush),
    .ret]⟩,
  ⟨.p, [
    .mov .rax (.reg .rdi),
    .and .rax 1,
    .ret]⟩,
  ⟨.addElement, [
    .push .rbp,
    .push .rbx,
    .mov .rbp (.reg .rdi),
    .mov .rbx (.reg .rsi),
    .mov .rdi (.imm 16),
    .call (.external .malloc),
    .test .rax .rax,
    .jz (.external .abort),
    .store (.based .rax 0) .rbp,
    .store (.based .rax 8) .rbx,
    .pop .rbx,
    .pop .rbp,
    .ret]⟩,
  ⟨.m, [
    .test .rdi .rdi,
    .jz (.label .outm),
    .push .rbp,
    .push .rbx,
    .mov .rbx (.reg .rdi),
    .mov .rbp (.reg .rsi),
    .load .rdi (.based .rdi 0),
    .call (.reg .rsi),
    .load .rdi (.based .rbx 8),
    .mov .rsi (.reg .rbp),
    .call (.label .m),
    .pop .rbx,
    .pop .rbp]⟩,
  ⟨.outm, [
    .ret]⟩,
  ⟨.f, [
    .mov .rax (.reg .rsi),
    .test .rdi .rdi,
    .jz (.label .outf),
    .push .rbx,
    .push .r12,
    .push .r13,
    .mov .rbx (.reg .rdi),
    .mov .r12 (.reg .rsi),
    .mov .r13 (.reg .rdx),
    .load .rdi (.based .rdi 0),
    .call (.reg .rdx),
    .test .rax .rax,
    .jz (.label .z),
    .load .rdi (.based .rbx 0),
    .mov .rsi (.reg .r12),
    .call (.label .addElement),
    .mov .rsi (.reg .rax),
    .jmp (.label .ff)]⟩,
  ⟨.z, [
    .mov .rsi (.reg .r12)]⟩,
  ⟨.ff, [
    .load .rdi (.based .rbx 8),
    .mov .rdx (.reg .r13),
    .call (.label .f),
    .pop .r13,
    .pop .r12,
    .pop .rbx]⟩,
  ⟨.outf, [
    .ret]⟩,
  ⟨.main, [
    .push .rbx,
    .xor .rax .rax,
    .mov .rbx (.imm d.dataLength)]⟩,
  ⟨.addingLoop, [
    .load .rdi (.indexed (d.dataStart - 8) .rbx),
    .mov .rsi (.reg .rax),
    .call (.label .addElement),
    .dec .rbx,
    .jnz (.label .addingLoop),
    .mov .rbx (.reg .rax),
    .mov .rdi (.reg .rax),
    .mov .rsi (.label .printInt),
    .call (.label .m),
    .mov .rdi (.imm d.emptyStr),
    .call (.external .puts),
    .mov .rdx (.label .p),
    .xor .rsi .rsi,
    .mov .rdi (.reg .rbx),
    .call (.label .f),
    .mov .rdi (.reg .rax),
    .mov .rsi (.label .printInt),
    .call (.label .m),
    .mov .rdi (.imm d.emptyStr),
    .call (.external .puts),
    .pop .rbx,
    .xor .rax .rax,
    .ret]⟩]

/-- What `printf` prints for `int_format` and `puts` for `empty_str`. -/
inductive Output
  | int (v : UInt64)
  | newline
deriving DecidableEq

/-- The calls of external functions and of `malloc` so far, and what is printed. -/
structure World where
  calls : Nat
  mallocs : Nat
  out : List Output

/-- The C library: the block that each call of `malloc` returns, what the new block
holds, and the registers and the flag after each call of an external function. -/
structure Libc where
  malloc : Nat → UInt64
  junk : UInt64 → UInt64
  reg : Nat → Reg → UInt64
  zf : Nat → Bool

/-- The return of an external function. -/
def Libc.effect (lib : Libc) (m : Machine World) : Effect World where
  reg := lib.reg m.world.calls
  zf := lib.zf m.world.calls
  mem := m.mem
  world := { m.world with calls := m.world.calls + 1 }

/-- The memory with a new block of two words. -/
def Libc.allocate (lib : Libc) (block : UInt64) (mem : UInt64 → Option UInt64)
    (a : UInt64) : Option UInt64 :=
  if a = block ∨ a = block + 8 then some (lib.junk a) else mem a

def Libc.mallocEffect (lib : Libc) (m : Machine World) : Effect World :=
  let block := lib.malloc m.world.mallocs
  { lib.effect m with
    reg := Function.update (lib.effect m).reg .rax block
    mem := if block = 0 then m.mem else lib.allocate block m.mem
    world := { (lib.effect m).world with mallocs := m.world.mallocs + 1 } }

def Libc.printEffect (lib : Libc) (m : Machine World) (o : Output) : Effect World :=
  { lib.effect m with
    world := { (lib.effect m).world with out := m.world.out ++ [o] } }

/-- The external functions, for the arguments that the program may pass them. -/
def externs (d : DataSection) (lib : Libc) :
    Extern → Machine World → Option (Effect World)
  | .malloc, m => if m.reg .rdi = 16 then some (lib.mallocEffect m) else none
  | .printf, m =>
      if m.reg .rdi = d.intFormat then some (lib.printEffect m (.int (m.reg .rsi))) else none
  | .fflush, m => if m.reg .rdi = 0 then some (lib.effect m) else none
  | .puts, m =>
      if m.reg .rdi = d.emptyStr then some (lib.printEffect m .newline) else none
  | .abort, _ => none

end CHomework.AsmLists
