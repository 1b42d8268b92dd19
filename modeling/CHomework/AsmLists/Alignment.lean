import CHomework.AsmLists.Agreement

namespace CHomework.AsmLists

open CHomework.X86

variable {d : DataSection} {lib : Libc}

/-- `main` is entered as the calling convention says: the stack pointer is 8 above
a multiple of 16, and the data section is in memory. -/
structure EntersMain (d : DataSection) (m : Machine World) : Prop where
  pc : m.pc = (program d).addr .main
  rsp : m.rsp.toNat % 16 = 8
  data : Keeps d.mem m.mem

/-- The stack pointer is a multiple of 16 at every call of an external function
that the machine comes to. -/
def AlignedCalls (d : DataSection) (lib : Libc) (m : Machine World) : Prop :=
  ∀ n m' e, steps (program d) (externs d lib) n m = some m' →
    (program d).code[m'.pc.toNat]? = some (.call (.external e)) → m'.rsp.toNat % 16 = 0

/-- The first element is on its way into the list. Four words are on the stack by
then: the register that `main` saves, the return address of `add_element` and the
two registers that it saves. -/
theorem reaches_malloc (lib : Libc) {m : Machine World} (h : EntersMain d m) :
    Reaches (program d) (externs d lib) m fun m' =>
      (program d).code[m'.pc.toNat]? = some (.call (.external .malloc)) ∧
        m'.rsp = m.rsp - 8 - 8 - 8 - 8 := by
  rcases m with ⟨pc, reg, zf, rsp, stack, mem, world⟩
  obtain rfl : pc = (program d).addr .main := h.pc
  have hdata : Keeps d.mem mem := h.data
  have hpos : 0 < d.data.length := List.length_pos_iff.mpr d.nonempty
  have hlast : d.data.length - 1 < d.data.length := by omega
  have hstart : steps (program d) (externs d lib) 3
      ⟨(program d).addr .main, reg, zf, rsp, stack, mem, world⟩ =
      some ⟨66, Function.update (Function.update reg .rax (reg .rax ^^^ reg .rax)) .rbx
        d.dataLength, reg .rax ^^^ reg .rax = 0, rsp - 8, reg .rbx :: stack, mem, world⟩ := rfl
  refine Reaches.of_steps hstart (Reaches.load (v := d.data[d.data.length - 1]) rfl ?_ ?_)
  · have hlength : d.data.length - 1 + 1 = d.data.length := by omega
    have hword := d.mem_data hlast
    rw [hlength] at hword
    exact hdata _ _ hword
  exact ⟨7, _, rfl, rfl, rfl⟩

theorem toNat_rsp_at_malloc {rsp : UInt64} (h : rsp.toNat % 16 = 8) :
    (rsp - 8 - 8 - 8 - 8).toNat % 16 = 8 := by
  have hlt := rsp.toNat_lt
  simp only [UInt64.toNat_sub, UInt64.reduceToNat]
  omega

/-- Whatever the array is, the first call of `malloc` finds the stack pointer
between two multiples of 16. -/
theorem not_alignedCalls {m : Machine World} (h : EntersMain d m) : ¬ AlignedCalls d lib m := by
  intro haligned
  obtain ⟨n, m', hsteps, hcode, hrsp⟩ := reaches_malloc lib h
  have hzero := haligned n m' .malloc hsteps hcode
  rw [hrsp, toNat_rsp_at_malloc h.rsp] at hzero
  cases hzero

/-- The entry of `main` with the array of the source. -/
def mainEntry : Machine World where
  pc := (program mainData).addr .main
  reg := fun _ => 0
  zf := false
  rsp := 0x7ffc00000008
  stack := [0]
  mem := mainData.mem
  world := { calls := 0, mallocs := 0, out := [] }

theorem entersMain_mainEntry : EntersMain mainData mainEntry where
  pc := rfl
  rsp := rfl
  data := fun _ _ h => h

theorem not_alignedCalls_mainEntry : ¬ AlignedCalls mainData bumpLibc mainEntry :=
  not_alignedCalls entersMain_mainEntry

theorem not_alignedCalls_of_entersMain : ¬ ∀ (d : DataSection) (lib : Libc)
    (m : Machine World), EntersMain d m → AlignedCalls d lib m := by
  intro h
  obtain ⟨n, m', hsteps, hcode, hrsp⟩ := reaches_malloc bumpLibc entersMain_mainEntry
  have hzero := h mainData bumpLibc mainEntry entersMain_mainEntry n m' .malloc hsteps hcode
  rw [hrsp, toNat_rsp_at_malloc entersMain_mainEntry.rsp] at hzero
  cases hzero

end CHomework.AsmLists
