import CHomework.AsmLists.CRun
import CHomework.AsmLists.Main

namespace CHomework.AsmLists

open CHomework.X86

/-- The odd elements of the list, pushed onto the accumulator one by one. -/
def pushOdd (xs acc : List UInt64) : List UInt64 :=
  xs.foldl (fun acc x => if odd x then x :: acc else acc) acc

/-- The calls of `malloc` in a run of `main`. -/
def nodesFor (data : List UInt64) : Nat :=
  data.length + (data.filter odd).length

/-- Called with any registers and any stack, `main` returns 0 and has printed the
output. -/
def AsmPrints (d : DataSection) (lib : Libc) (out : List Output) : Prop :=
  ∀ m : Machine World, m.pc = (program d).addr .main → m.stack ≠ [] → m.mem = d.mem →
    m.world.mallocs = 0 → m.world.out = [] →
    Reaches (program d) (externs d lib) m fun m' =>
      Returns m m' ∧ m'.reg .rax = 0 ∧ m'.world.out = out

def CPrints (malloc : Nat → UInt64) (data : List UInt64) (out : List Output) : Prop :=
  ∀ calls, data.length < calls →
    ∃ s, C.main malloc data calls ⟨fun _ => none, 0, []⟩ = some (0, s) ∧ s.out = out

/-- Called with `p`, any list and any accumulator in memory, `f` returns the
accumulator with the odd elements pushed onto it, and all that was in memory is as it
was. -/
def AsmPushesOdd (d : DataSection) (lib : Libc) : Prop :=
  ∀ (m : Machine World) (xs acc : List UInt64), m.pc = (program d).addr .f → m.stack ≠ [] →
    m.reg .rdx = (program d).addr .p →
    IsList m.mem (m.reg .rdi) xs → IsList m.mem (m.reg .rsi) acc →
    FreshBlocks lib.malloc m.mem m.world.mallocs
      (m.world.mallocs + (xs.filter odd).length) →
    Reaches (program d) (externs d lib) m fun m' =>
      Returns m m' ∧ IsList m'.mem (m'.reg .rax) (pushOdd xs acc) ∧ Keeps m.mem m'.mem

def CPushesOdd (malloc : Nat → UInt64) : Prop :=
  ∀ (s : C.State) (list oddList : UInt64) (xs acc : List UInt64),
    C.IsList s.heap list xs → C.IsList s.heap oddList acc →
    C.FreshNodes malloc s.heap s.mallocs (s.mallocs + (xs.filter odd).length) →
    ∀ calls, xs.length < calls →
      ∃ list' s', C.f malloc C.p calls list oddList s = some (list', s') ∧
        C.IsList s'.heap list' (pushOdd xs acc) ∧ C.KeepsNodes s.heap s'.heap

theorem pushOdd_eq (xs acc : List UInt64) :
    pushOdd xs acc = (xs.filter odd).reverse ++ acc := by
  induction xs generalizing acc with
  | nil => rfl
  | cons x xs ih =>
      rcases hx : odd x with _ | _
      · have hstep : pushOdd (x :: xs) acc = pushOdd xs acc := by simp [pushOdd, hx]
        rw [hstep, ih, List.filter_cons_of_neg (by simp [hx])]
      · have hstep : pushOdd (x :: xs) acc = pushOdd xs (x :: acc) := by simp [pushOdd, hx]
        rw [hstep, ih, List.filter_cons_of_pos hx, List.reverse_cons, List.append_assoc,
          List.singleton_append]

theorem asmPrints {d : DataSection} {lib : Libc}
    (hfresh : FreshBlocks lib.malloc d.mem 0 (nodesFor d.data)) :
    AsmPrints d lib (printedFor d.data) := by
  intro m hpc hstack hmem hmallocs hout
  have hstarts : Starts d lib (nodesFor d.data) m := by
    refine ⟨?_, ?_, ?_⟩
    · rw [hmem]
      exact Keeps.refl d.mem
    · rwa [hmem, hmallocs]
    · simp [hmallocs, nodesFor]
  refine (main_procedure m hpc hstack hstarts).mono ?_
  rintro m' ⟨hreturns, hfinishes⟩
  refine ⟨hreturns, hfinishes.status, ?_⟩
  rw [hfinishes.out, hout, List.nil_append]

theorem cPrints {malloc : Nat → UInt64} {data : List UInt64}
    (hfresh : C.FreshNodes malloc (fun _ => none) 0 (nodesFor data)) :
    CPrints malloc data (printedFor data) := by
  intro calls hcalls
  obtain ⟨s, hmain, hout⟩ :=
    C.main_eq (s := ⟨fun _ => none, 0, []⟩) hfresh (by simp [nodesFor]) hcalls
  exact ⟨s, hmain, hout⟩

theorem asmPushesOdd (d : DataSection) (lib : Libc) : AsmPushesOdd d lib := by
  intro m xs acc hpc hstack hcallback hlist hacc hfresh
  have hfilters : Filters lib ((program d).addr .p) odd
      (m.world.mallocs + (xs.filter odd).length) xs acc m :=
    ⟨hcallback, hlist, hacc, hfresh, Nat.le_refl _⟩
  refine (f_procedure (p_callback_odd d lib) xs acc m hpc hstack hfilters).mono ?_
  rintro m' ⟨hreturns, hfiltered⟩
  refine ⟨hreturns, ?_, hfiltered.keeps⟩
  rw [pushOdd_eq]
  exact hfiltered.list

theorem cPushesOdd (malloc : Nat → UInt64) : CPushesOdd malloc := by
  rintro s list oddList xs acc ⟨ns, hlist, rfl⟩ ⟨accs, hacc, rfl⟩ hfresh calls hcalls
  rw [List.length_map] at hcalls
  obtain ⟨list', s', hf, ⟨⟨new, hchain, hnew, -⟩, hkeeps, -, -⟩⟩ :=
    C.f_eq hlist hacc hcalls hfresh (Nat.le_refl _)
  refine ⟨list', s', hf, ⟨new ++ accs, hchain, ?_⟩, hkeeps⟩
  rw [List.map_append, hnew, pushOdd_eq]

/-- The assembly program and the C program print the same: the array in order, and
then its odd elements from the last to the first. -/
theorem programs_agree (d : DataSection) (lib : Libc) (cMalloc : Nat → UInt64)
    (hasm : FreshBlocks lib.malloc d.mem 0 (nodesFor d.data))
    (hc : C.FreshNodes cMalloc (fun _ => none) 0 (nodesFor d.data)) :
    AsmPrints d lib (printedFor d.data) ∧ CPrints cMalloc d.data (printedFor d.data) ∧
      AsmPushesOdd d lib ∧ CPushesOdd cMalloc :=
  ⟨asmPrints hasm, cPrints hc, asmPushesOdd d lib, cPushesOdd cMalloc⟩

/-- The data section of `main.asm`. -/
def mainData : DataSection where
  start := 0x404010
  data := [4, 8, 15, 16, 23, 42]
  nonempty := List.cons_ne_nil _ _
  fits := by decide

/-- Blocks of 32 bytes one behind the other. -/
def bumpLibc : Libc where
  malloc n := UInt64.ofNat (0x100000 + 32 * n)
  junk _ := 0
  reg _ _ := 0
  zf _ := false

theorem toNat_malloc_bumpLibc {n : Nat} (hn : n < 8) :
    (bumpLibc.malloc n).toNat = 0x100000 + 32 * n := by
  rw [bumpLibc, UInt64.toNat_ofNat', Nat.mod_eq_of_lt (by omega)]

theorem mem_mainData {a : UInt64} (h : mainData.mem a ≠ none) :
    0x404016 ≤ a.toNat ∧ a.toNat < 0x404046 := by
  have hoffset : (a - 0x404016).toNat < 48 := by
    by_contra hout
    refine h ?_
    have hnone : mainData.data[(a - 0x404016).toNat / 8]? = none :=
      List.getElem?_eq_none (by simp only [mainData, List.length_cons, List.length_nil]; omega)
    have hstart : mainData.dataStart = 0x404016 := by decide
    simp only [DataSection.mem, hstart, hnone, ite_self]
  have hlt := a.toNat_lt
  rw [UInt64.toNat_sub, show (0x404016 : UInt64).toNat = 0x404016 from rfl] at hoffset
  omega

theorem freshBlocks_bumpLibc : FreshBlocks bumpLibc.malloc mainData.mem 0 8 := by
  have hbyte : ∀ n < 8, ∀ i < 16, (bumpLibc.malloc n + UInt64.ofNat i).toNat =
      0x100000 + 32 * n + i := by
    intro n hn i hi
    rw [UInt64.toNat_add, toNat_malloc_bumpLibc hn, UInt64.toNat_ofNat']
    omega
  refine ⟨?_, ?_, ?_⟩
  · intro n _ hn hnull
    have := toNat_malloc_bumpLibc hn
    rw [hnull, UInt64.toNat_zero] at this
    omega
  · intro n _ hn a ha i hi j hj heq
    have hword := mem_mainData ha
    have := hbyte n hn i hi
    rw [heq, UInt64.toNat_add, UInt64.toNat_ofNat'] at this
    omega
  · intro n k _ hnk hk i hi j hj heq
    have := hbyte n (by omega) i hi
    rw [heq, hbyte k hk j hj] at this
    omega

theorem freshNodes_bumpLibc : C.FreshNodes bumpLibc.malloc (fun _ => none) 0 8 := by
  refine ⟨freshBlocks_bumpLibc.ne_null, fun _ _ _ => rfl, ?_⟩
  intro n k hn hnk hk heq
  exact freshBlocks_bumpLibc.disjoint n k hn hnk hk 0 (by decide) 0 (by decide) (by rw [heq])

/-- The array of the source, with blocks one behind the other. -/
theorem programs_agree_mainData :
    AsmPrints mainData bumpLibc [.int 4, .int 8, .int 15, .int 16, .int 23, .int 42, .newline,
        .int 23, .int 15, .newline] ∧
      CPrints bumpLibc.malloc [4, 8, 15, 16, 23, 42] [.int 4, .int 8, .int 15, .int 16, .int 23,
        .int 42, .newline, .int 23, .int 15, .newline] ∧
      AsmPushesOdd mainData bumpLibc ∧ CPushesOdd bumpLibc.malloc :=
  programs_agree mainData bumpLibc bumpLibc.malloc freshBlocks_bumpLibc freshNodes_bumpLibc

end CHomework.AsmLists
