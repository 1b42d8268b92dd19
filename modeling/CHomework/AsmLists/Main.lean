import CHomework.AsmLists.Procedures

namespace CHomework.AsmLists

open CHomework.X86

theorem and_one_ne_zero_iff (v : UInt64) : v &&& 1 ≠ 0 ↔ odd v = true := by
  have hmod : v &&& 1 = v % 2 := by
    apply UInt64.toNat_inj.mp
    simp [Nat.and_one_is_mod]
  rw [hmod, mod_two_ne_zero_iff]

theorem DataSection.length_lt (d : DataSection) : 8 * d.data.length < 2 ^ 64 := by
  have := d.fits
  omega

theorem DataSection.mem_data (d : DataSection) {i : Nat} (hi : i < d.data.length) :
    d.mem (d.dataStart - 8 + UInt64.ofNat (i + 1) * 8) = some d.data[i] := by
  have hoffset : d.dataStart - 8 + UInt64.ofNat (i + 1) * 8 - d.dataStart =
      UInt64.ofNat (8 * i) := by
    rw [UInt64.ofNat_add, UInt64.ofNat_mul]
    grind
  have hnat : (UInt64.ofNat (8 * i)).toNat = 8 * i := by
    have hlt := d.length_lt
    rw [UInt64.toNat_ofNat', Nat.mod_eq_of_lt (by omega)]
  rw [mem, hoffset, hnat]
  simp [hi]

variable {d : DataSection} {lib : Libc}

/-- One round of the loop up to its jump: the element in front goes onto the list. -/
theorem addingLoop_round {i last : Nat} (hi : i < d.data.length) {reg : Reg → UInt64}
    {zf : Bool} {rsp : UInt64} {stack : List UInt64} {mem : Memory} {world : World}
    (hrbx : reg .rbx = UInt64.ofNat (i + 1)) (hdata : Keeps d.mem mem)
    (hlist : IsList mem (reg .rax) (d.data.drop (i + 1)))
    (hfresh : FreshBlocks lib.malloc mem world.mallocs last) (hlast : world.mallocs < last)
    {Q : Machine World → Prop}
    (hnext : ∀ reg' mem' world', reg' .rbx = UInt64.ofNat i →
      reg' .rbp = reg .rbp → reg' .r12 = reg .r12 → reg' .r13 = reg .r13 →
      Keeps d.mem mem' → IsList mem' (reg' .rax) (d.data.drop i) →
      FreshBlocks lib.malloc mem' world'.mallocs last →
      world'.mallocs = world.mallocs + 1 → world'.out = world.out →
      Reaches (program d) (externs d lib)
        ⟨70, reg', UInt64.ofNat i = 0, rsp, stack, mem', world'⟩ Q) :
    Reaches (program d) (externs d lib)
      ⟨(program d).addr .addingLoop, reg, zf, rsp, stack, mem, world⟩ Q := by
  refine Reaches.load (v := d.data[i]) rfl ?_ ?_
  · simp only [Address.value, hrbx]
    exact hdata _ _ (d.mem_data hi)
  have harg : steps (program d) (externs d lib) 1
      ⟨67, Function.update reg .rdi d.data[i], zf, rsp, stack, mem, world⟩ =
      some ⟨68, Function.update (Function.update reg .rdi d.data[i]) .rsi (reg .rax), zf, rsp,
        stack, mem, world⟩ := rfl
  refine Reaches.of_steps harg ?_
  refine Reaches.call (addElement_procedure d lib) rfl
    (hfresh.ne_null _ (Nat.le_refl _) hlast) ?_
  rintro reg₁ zf₁ mem₁ world₁ hsaved₁ ⟨hblock₁, hmem₁, hmallocs₁, hout₁⟩
  obtain ⟨hrbx₁, hrbp₁, hr12₁, hr13₁⟩ : reg₁ .rbx = reg .rbx ∧ reg₁ .rbp = reg .rbp ∧
      reg₁ .r12 = reg .r12 ∧ reg₁ .r13 = reg .r13 := Reg.forall_calleeSaved.mp hsaved₁
  have hblock₁ : reg₁ .rax = lib.malloc world.mallocs := hblock₁
  have hmem₁ : mem₁ = addNode mem (lib.malloc world.mallocs) d.data[i] (reg .rax) := hmem₁
  have hmallocs₁ : world₁.mallocs = world.mallocs + 1 := hmallocs₁
  have hunused : Unused mem (lib.malloc world.mallocs) :=
    hfresh.unused _ (Nat.le_refl _) hlast
  have hcount : reg₁ .rbx - 1 = UInt64.ofNat i := by
    rw [hrbx₁, hrbx, UInt64.ofNat_add]
    exact UInt64.add_sub_cancel _ _
  have hdec : steps (program d) (externs d lib) 1
      ⟨69, reg₁, zf₁, rsp, stack, mem₁, world₁⟩ =
      some ⟨70, Function.update reg₁ .rbx (reg₁ .rbx - 1), reg₁ .rbx - 1 = 0, rsp, stack, mem₁,
        world₁⟩ := rfl
  rw [hcount] at hdec
  refine Reaches.of_steps hdec (hnext _ _ _ ?_ ?_ ?_ ?_ ?_ ?_ ?_ hmallocs₁ hout₁)
  · simp
  · simp [hrbp₁]
  · simp [hr12₁]
  · simp [hr13₁]
  · rw [hmem₁]
    exact hdata.trans (hunused.keeps_addNode (Keeps.refl _) _ _)
  · have hnode := hunused.isList_addNode (hfresh.ne_null _ (Nat.le_refl _) hlast) hlist d.data[i]
    rw [← List.drop_eq_getElem_cons hi] at hnode
    simpa [hblock₁, hmem₁] using hnode
  · rw [hmem₁, hmallocs₁]
    exact hfresh.next _ _

/-- The induction is on the number of elements in front of the next one. -/
theorem addingLoop_reaches {i last : Nat} (hi : i < d.data.length) {reg : Reg → UInt64}
    {zf : Bool} {rsp : UInt64} {stack : List UInt64} {mem : Memory} {world : World}
    (hrbx : reg .rbx = UInt64.ofNat (i + 1)) (hdata : Keeps d.mem mem)
    (hlist : IsList mem (reg .rax) (d.data.drop (i + 1)))
    (hfresh : FreshBlocks lib.malloc mem world.mallocs last)
    (henough : world.mallocs + (i + 1) ≤ last) {Q : Machine World → Prop}
    (hnext : ∀ reg' zf' mem' world',
      reg' .rbp = reg .rbp → reg' .r12 = reg .r12 → reg' .r13 = reg .r13 →
      IsList mem' (reg' .rax) d.data → FreshBlocks lib.malloc mem' world'.mallocs last →
      world'.mallocs = world.mallocs + (i + 1) → world'.out = world.out →
      Reaches (program d) (externs d lib) ⟨71, reg', zf', rsp, stack, mem', world'⟩ Q) :
    Reaches (program d) (externs d lib)
      ⟨(program d).addr .addingLoop, reg, zf, rsp, stack, mem, world⟩ Q := by
  induction i generalizing reg zf mem world with
  | zero =>
      refine addingLoop_round hi hrbx hdata hlist hfresh (by omega) ?_
      intro reg₁ mem₁ world₁ _ hrbp hr12 hr13 _ hlist₁ hfresh₁ hmallocs hout
      refine Reaches.jnz_next rfl rfl ?_
      exact hnext reg₁ _ mem₁ world₁ hrbp hr12 hr13 hlist₁ hfresh₁ hmallocs hout
  | succ i ih =>
      refine addingLoop_round hi hrbx hdata hlist hfresh (by omega) ?_
      intro reg₁ mem₁ world₁ hrbx₁ hrbp₁ hr12₁ hr13₁ hdata₁ hlist₁ hfresh₁ hmallocs₁ hout₁
      have hne : UInt64.ofNat (i + 1) ≠ 0 := by
        have hlt := d.length_lt
        have hnat : (UInt64.ofNat (i + 1)).toNat = i + 1 := by
          rw [UInt64.toNat_ofNat', Nat.mod_eq_of_lt (by omega)]
        intro hzero
        simp [hzero] at hnat
      refine Reaches.jnz_label rfl (decide_eq_false hne) ?_
      have henough₁ : world₁.mallocs + (i + 1) ≤ last := by omega
      refine ih (by omega) hrbx₁ hdata₁ hlist₁ hfresh₁ henough₁ ?_
      intro reg₂ zf₂ mem₂ world₂ hrbp₂ hr12₂ hr13₂ hlist₂ hfresh₂ hmallocs₂ hout₂
      have hmallocs : world₂.mallocs = world.mallocs + (i + 1 + 1) := by
        calc world₂.mallocs = world₁.mallocs + (i + 1) := hmallocs₂
          _ = world.mallocs + (i + 1 + 1) := by omega
      exact hnext reg₂ zf₂ mem₂ world₂ (hrbp₂.trans hrbp₁) (hr12₂.trans hr12₁)
        (hr13₂.trans hr13₁) hlist₂ hfresh₂ hmallocs (hout₂.trans hout₁)

/-- What `main` needs: the data section in memory, and a block for every element and
for every odd one. -/
structure Starts (d : DataSection) (lib : Libc) (last : Nat) (m : Machine World) : Prop where
  data : Keeps d.mem m.mem
  fresh : FreshBlocks lib.malloc m.mem m.world.mallocs last
  enough : m.world.mallocs + (d.data.length + (d.data.filter odd).length) ≤ last

/-- `main` returns 0 and has printed the two lines. -/
structure Finishes (d : DataSection) (m m' : Machine World) : Prop where
  status : m'.reg .rax = 0
  out : m'.world.out = m.world.out ++ printedFor d.data

theorem p_callback_odd (d : DataSection) (lib : Libc) :
    Callback d lib ((program d).addr .p) (fun x v => v ≠ 0 ↔ odd x = true) (fun _ => []) := by
  intro m hpc hstack hpre
  refine (p_callback d lib m hpc hstack hpre).mono ?_
  rintro m' ⟨hreturns, hvisited⟩
  refine ⟨hreturns, ?_, hvisited.mem, hvisited.mallocs, hvisited.out⟩
  rw [hvisited.result]
  exact and_one_ne_zero_iff _

/-- The code of `main` behind the call of `f`: it prints the second line. -/
theorem main_tail {reg : Reg → UInt64} {zf : Bool} {rsp rbx ra : UInt64}
    {stack : List UInt64} {mem : Memory} {world : World} {xs : List UInt64}
    (hlist : IsList mem (reg .rax) xs) :
    Reaches (program d) (externs d lib)
      ⟨81, reg, zf, rsp, rbx :: ra :: stack, mem, world⟩ fun m' =>
        Returns ⟨81, Function.update reg .rbx rbx, zf, rsp + 8, ra :: stack, mem, world⟩ m' ∧
          m'.reg .rax = 0 ∧ m'.world.out = world.out ++ (xs.map .int ++ [.newline]) := by
  have hargs : steps (program d) (externs d lib) 2
      ⟨81, reg, zf, rsp, rbx :: ra :: stack, mem, world⟩ =
      some ⟨83, Function.update (Function.update reg .rdi (reg .rax)) .rsi
        ((program d).addr .printInt), zf, rsp, rbx :: ra :: stack, mem, world⟩ := rfl
  refine Reaches.of_steps hargs ?_
  refine Reaches.call (m_procedure (printInt_callback d lib) xs) rfl ⟨rfl, hlist⟩ ?_
  rintro reg₁ zf₁ mem₁ ⟨calls₁, mallocs₁, out₁⟩ hsaved₁ ⟨-, -, hout₁⟩
  have hout₁ : out₁ = world.out ++ xs.flatMap fun v => [.int v] := hout₁
  obtain ⟨-, hrbp₁, hr12₁, hr13₁⟩ : reg₁ .rbx = reg .rbx ∧ reg₁ .rbp = reg .rbp ∧
      reg₁ .r12 = reg .r12 ∧ reg₁ .r13 = reg .r13 := Reg.forall_calleeSaved.mp hsaved₁
  have hstr : steps (program d) (externs d lib) 1
      ⟨84, reg₁, zf₁, rsp, rbx :: ra :: stack, mem₁, ⟨calls₁, mallocs₁, out₁⟩⟩ =
      some ⟨85, Function.update reg₁ .rdi d.emptyStr, zf₁, rsp, rbx :: ra :: stack, mem₁,
        ⟨calls₁, mallocs₁, out₁⟩⟩ := rfl
  refine Reaches.of_steps hstr ?_
  refine Reaches.external rfl (externs_puts lib rfl) ?_
  intro reg₂ hsaved₂ _
  obtain ⟨-, hrbp₂, hr12₂, hr13₂⟩ : reg₂ .rbx = reg₁ .rbx ∧ reg₂ .rbp = reg₁ .rbp ∧
      reg₂ .r12 = reg₁ .r12 ∧ reg₂ .r13 = reg₁ .r13 := Reg.forall_calleeSaved.mp hsaved₂
  have hreturn : steps (program d) (externs d lib) 3
      ⟨86, reg₂, lib.zf calls₁, rsp, rbx :: ra :: stack, mem₁,
        ⟨calls₁ + 1, mallocs₁, out₁ ++ [.newline]⟩⟩ =
      some ⟨ra, Function.update (Function.update reg₂ .rbx rbx) .rax
        (reg₂ .rax ^^^ reg₂ .rax), reg₂ .rax ^^^ reg₂ .rax = 0, rsp + 8 + 8, stack, mem₁,
        ⟨calls₁ + 1, mallocs₁, out₁ ++ [.newline]⟩⟩ := rfl
  refine Reaches.of_steps hreturn (Reaches.here ⟨⟨rfl, rfl, ?_⟩, ?_, ?_⟩)
  · simp [Reg.forall_calleeSaved, hrbp₂, hr12₂, hr13₂, hrbp₁, hr12₁, hr13₁]
  · simp
  · calc out₁ ++ [.newline] = world.out ++ xs.flatMap (fun v => [.int v]) ++ [.newline] := by
          rw [hout₁]
      _ = world.out ++ (xs.map .int ++ [.newline]) := by
          rw [← List.map_eq_flatMap, List.append_assoc]

/-- The code of `main` behind the first line: it filters the list and prints the
second line. -/
theorem main_filters {reg : Reg → UInt64} {zf : Bool} {rsp rbx ra : UInt64}
    {stack : List UInt64} {mem : Memory} {world : World} {xs : List UInt64} {last : Nat}
    (hlist : IsList mem (reg .rbx) xs) (hfresh : FreshBlocks lib.malloc mem world.mallocs last)
    (henough : world.mallocs + (xs.filter odd).length ≤ last) :
    Reaches (program d) (externs d lib)
      ⟨77, reg, zf, rsp, rbx :: ra :: stack, mem, world⟩ fun m' =>
        Returns ⟨77, Function.update reg .rbx rbx, zf, rsp + 8, ra :: stack, mem, world⟩ m' ∧
          m'.reg .rax = 0 ∧
          m'.world.out = world.out ++ ((xs.filter odd).reverse.map .int ++ [.newline]) := by
  have hargs : steps (program d) (externs d lib) 3
      ⟨77, reg, zf, rsp, rbx :: ra :: stack, mem, world⟩ =
      some ⟨80, Function.update (Function.update (Function.update reg .rdx
        ((program d).addr .p)) .rsi (reg .rsi ^^^ reg .rsi)) .rdi (reg .rbx),
        reg .rsi ^^^ reg .rsi = 0, rsp, rbx :: ra :: stack, mem, world⟩ := rfl
  refine Reaches.of_steps hargs ?_
  have hacc : IsList mem (reg .rsi ^^^ reg .rsi) [] := UInt64.xor_self
  refine Reaches.call (f_procedure (p_callback_odd d lib) xs []) rfl
    ⟨rfl, hlist, hacc, hfresh, henough⟩ ?_
  rintro reg₁ zf₁ mem₁ world₁ hsaved₁ hfiltered
  obtain ⟨-, hrbp₁, hr12₁, hr13₁⟩ : reg₁ .rbx = reg .rbx ∧ reg₁ .rbp = reg .rbp ∧
      reg₁ .r12 = reg .r12 ∧ reg₁ .r13 = reg .r13 := Reg.forall_calleeSaved.mp hsaved₁
  have hlist₁ : IsList mem₁ (reg₁ .rax) ((xs.filter odd).reverse ++ []) := hfiltered.list
  have hout₁ : world₁.out = world.out ++ xs.flatMap fun _ => [] := hfiltered.out
  refine (main_tail hlist₁).mono ?_
  rintro m' ⟨⟨hstack, hrsp, hsaved⟩, hstatus, hout⟩
  refine ⟨⟨hstack, hrsp, ?_⟩, hstatus, ?_⟩
  · simpa [Reg.forall_calleeSaved, hrbp₁, hr12₁, hr13₁] using hsaved
  · rw [hout, hout₁]
    simp

theorem main_procedure {last : Nat} :
    Procedure (program d) (externs d lib) ((program d).addr .main) (Starts d lib last)
      (Finishes d) := by
  refine Procedure.of_reaches ?_
  rintro reg zf rsp ra stack mem world ⟨hdata, hfresh, henough⟩
  dsimp only at hdata hfresh henough
  have hstart : steps (program d) (externs d lib) 3
      ⟨(program d).addr .main, reg, zf, rsp, ra :: stack, mem, world⟩ =
      some ⟨66, Function.update (Function.update reg .rax (reg .rax ^^^ reg .rax)) .rbx
        d.dataLength, reg .rax ^^^ reg .rax = 0, rsp - 8, reg .rbx :: ra :: stack, mem,
        world⟩ := rfl
  refine Reaches.of_steps hstart ?_
  have hpos : 0 < d.data.length := List.length_pos_iff.mpr d.nonempty
  have hlength : d.data.length - 1 + 1 = d.data.length := by omega
  refine addingLoop_reaches (i := d.data.length - 1) (by omega) ?_ hdata ?_ hfresh (by omega) ?_
  · simp [DataSection.dataLength, hlength]
  · simp [hlength, IsList]
  intro reg₁ zf₁ mem₁ world₁ hrbp₁ hr12₁ hr13₁ hlist₁ hfresh₁ hmallocs₁ hout₁
  have hargs₁ : steps (program d) (externs d lib) 3
      ⟨71, reg₁, zf₁, rsp - 8, reg .rbx :: ra :: stack, mem₁, world₁⟩ =
      some ⟨74, Function.update (Function.update (Function.update reg₁ .rbx (reg₁ .rax)) .rdi
        (reg₁ .rax)) .rsi ((program d).addr .printInt), zf₁, rsp - 8, reg .rbx :: ra :: stack,
        mem₁, world₁⟩ := rfl
  refine Reaches.of_steps hargs₁ ?_
  refine Reaches.call (m_procedure (printInt_callback d lib) d.data) rfl ⟨rfl, hlist₁⟩ ?_
  rintro reg₂ zf₂ mem₂ ⟨calls₂, mallocs₂, out₂⟩ hsaved₂ ⟨hmem₂, hmallocs₂, hout₂⟩
  obtain rfl : mem₂ = mem₁ := hmem₂
  have hmallocs₂ : mallocs₂ = world₁.mallocs := hmallocs₂
  have hout₂ : out₂ = world₁.out ++ d.data.flatMap fun v => [.int v] := hout₂
  obtain ⟨hrbx₂, hrbp₂, hr12₂, hr13₂⟩ : reg₂ .rbx = reg₁ .rax ∧ reg₂ .rbp = reg₁ .rbp ∧
      reg₂ .r12 = reg₁ .r12 ∧ reg₂ .r13 = reg₁ .r13 := Reg.forall_calleeSaved.mp hsaved₂
  have hstr : steps (program d) (externs d lib) 1
      ⟨75, reg₂, zf₂, rsp - 8, reg .rbx :: ra :: stack, mem₂, ⟨calls₂, mallocs₂, out₂⟩⟩ =
      some ⟨76, Function.update reg₂ .rdi d.emptyStr, zf₂, rsp - 8, reg .rbx :: ra :: stack,
        mem₂, ⟨calls₂, mallocs₂, out₂⟩⟩ := rfl
  refine Reaches.of_steps hstr ?_
  refine Reaches.external rfl (externs_puts lib rfl) ?_
  intro reg₃ hsaved₃ _
  obtain ⟨hrbx₃, hrbp₃, hr12₃, hr13₃⟩ : reg₃ .rbx = reg₂ .rbx ∧ reg₃ .rbp = reg₂ .rbp ∧
      reg₃ .r12 = reg₂ .r12 ∧ reg₃ .r13 = reg₂ .r13 := Reg.forall_calleeSaved.mp hsaved₃
  have hlist₃ : IsList mem₂ (reg₃ .rbx) d.data := by rwa [hrbx₃, hrbx₂]
  rw [← hmallocs₂] at hfresh₁
  have henough₃ : mallocs₂ + (d.data.filter odd).length ≤ last := by omega
  refine (main_filters hlist₃ hfresh₁ henough₃).mono ?_
  rintro m' ⟨⟨hstack, hrsp, hsaved⟩, hstatus, hout⟩
  refine ⟨⟨hstack, ?_, ?_⟩, hstatus, ?_⟩
  · simpa using hrsp
  · simpa [Reg.forall_calleeSaved, hrbp₁, hr12₁, hr13₁, hrbp₂, hr12₂, hr13₂, hrbp₃, hr12₃,
      hr13₃] using hsaved
  · have hline : m'.world.out = out₂ ++ [.newline] ++
        ((d.data.filter odd).reverse.map .int ++ [.newline]) := hout
    rw [hline, hout₂, hout₁, ← List.map_eq_flatMap]
    simp [printedFor]

end CHomework.AsmLists
