import CHomework.AsmLists.CRun

namespace CHomework.AsmLists.C

variable {malloc : Nat → UInt64} {last : Nat}

theorem without_without (heap : Heap) (blocks blocks' : List UInt64) :
    without (without heap blocks) blocks' = without heap (blocks ++ blocks') := by
  funext a
  by_cases h : a ∈ blocks'
  · simp [without, h]
  · simp [without, h]

theorem without_comm (heap : Heap) (blocks blocks' : List UInt64) :
    without (without heap blocks) blocks' = without (without heap blocks') blocks := by
  funext a
  simp only [without]
  split
  · rw [ite_self]
  · rfl

theorem keepsNodes_of_without {heap heap' : Heap} {blocks : List UInt64}
    (h : without heap' blocks = heap) : KeepsNodes heap heap' := by
  intro a node hnode
  rw [← h, without] at hnode
  split at hnode
  · cases hnode
  · exact hnode

/-- A list on the heap has none of the blocks that the heap is without. -/
theorem Chain.notMem_of_without {heap heap' : Heap} {a : UInt64} {ns : List (UInt64 × UInt64)}
    {blocks : List UInt64} (h : Chain heap a ns) (hwithout : C.without heap' blocks = heap) :
    ∀ n ∈ ns, n.1 ∉ blocks := by
  intro n hn hmem
  refine h.ne_none n hn ?_
  rw [← hwithout, C.without, if_pos hmem]

/-- The nodes of a function that only adds to a list, the newest first. -/
inductive Pushes (malloc : Nat → UInt64) :
    UInt64 → State → List (UInt64 × UInt64) → UInt64 → State → Prop
  | done (list : UInt64) (s : State) : Pushes malloc list s [] list s
  | push {list list' : UInt64} {s s' : State} {new : List (UInt64 × UInt64)} (el : UInt64) :
      Pushes malloc (malloc s.mallocs) (s.push malloc list el) new list' s' →
        Pushes malloc list s (new ++ [(malloc s.mallocs, el)]) list' s'

theorem eq_push_of_addElement {rec el block : UInt64} {s s' : State}
    (h : addElement malloc rec el s = some (block, s')) :
    block = malloc s.mallocs ∧ s' = s.push malloc rec el := by
  simp only [addElement] at h
  split at h
  · cases h
  · simp only [Option.some.injEq, Prod.mk.injEq] at h
    exact ⟨h.1.symm, h.2.symm⟩

theorem pushes_addingLoop {data : List UInt64} {i : Nat} {list list' : UInt64} {s s' : State}
    (h : addingLoop malloc data i list s = some (list', s')) (hi : i ≤ data.length) :
    ∃ new, Pushes malloc list s new list' s' ∧ new.map Prod.snd = data.take i := by
  induction i generalizing list s with
  | zero =>
      simp only [addingLoop, Option.some.injEq, Prod.mk.injEq] at h
      obtain ⟨rfl, rfl⟩ := h
      exact ⟨[], .done list s, rfl⟩
  | succ i ih =>
      simp only [addingLoop, Option.bind_eq_bind, Option.bind_eq_some_iff] at h
      obtain ⟨el, hel, ⟨block, s₁⟩, hadd, hloop⟩ := h
      obtain ⟨rfl, rfl⟩ := eq_push_of_addElement hadd
      obtain ⟨new, hnew, helements⟩ := ih hloop (by omega)
      refine ⟨_, .push el hnew, ?_⟩
      rw [List.map_append, helements, List.take_add_one, hel]
      rfl

/-- The induction is on the list that is read. -/
theorem pushes_f {a : UInt64} (oddList : UInt64) {ns : List (UInt64 × UInt64)} {calls : Nat}
    {s : State} (hlist : Chain s.heap a ns) (hcalls : ns.length < calls)
    (hfresh : FreshNodes malloc s.heap s.mallocs last)
    (henough : s.mallocs + ((ns.map Prod.snd).filter odd).length ≤ last) :
    ∃ new list' s', f malloc p calls a oddList s = some (list', s') ∧
      Pushes malloc oddList s new list' s' ∧
      new.map Prod.snd = ((ns.map Prod.snd).filter odd).reverse := by
  induction ns generalizing a oddList calls s with
  | nil =>
      obtain ⟨calls, rfl⟩ := Nat.exists_eq_add_one_of_ne_zero (Nat.ne_zero_of_lt hcalls)
      obtain rfl : a = 0 := hlist
      exact ⟨[], oddList, s, by simp [f], .done oddList s, rfl⟩
  | cons n ns ih =>
      obtain ⟨calls, rfl⟩ := Nat.exists_eq_add_one_of_ne_zero (Nat.ne_zero_of_lt hcalls)
      obtain ⟨b, x⟩ := n
      obtain ⟨rfl, hnonnull, prev, hnode, hrest⟩ := hlist
      have hcalls : ns.length < calls := by simpa using hcalls
      cases hx : odd x with
      | false =>
          rw [List.map_cons, List.filter_cons_of_neg (by simp [hx])] at henough ⊢
          rw [f_of_not_odd hnonnull hnode hx]
          exact ih oddList hrest hcalls hfresh henough
      | true =>
          rw [List.map_cons, List.filter_cons_of_pos (by simp [hx])] at henough ⊢
          rw [List.length_cons] at henough
          have hlast : s.mallocs < last := by omega
          have henough' : (s.push malloc oddList x).mallocs +
              ((ns.map Prod.snd).filter odd).length ≤ last := by
            dsimp only [State.push]
            omega
          rw [f_of_odd hnonnull hnode hx hfresh hlast]
          obtain ⟨new, list', s', hf, hnew, helements⟩ :=
            ih (malloc s.mallocs) (hrest.mono (keepsNodes_push hfresh hlast oddList x)) hcalls
              (hfresh.push oddList x) henough'
          refine ⟨_, list', s', hf, .push x hnew, ?_⟩
          rw [List.map_append, helements, List.reverse_cons]
          rfl

/-- What a run of pushes leaves: the list is longer by the new nodes, and the heap
without them is the one from before. -/
structure Grown (malloc : Nat → UInt64) (last : Nat) (s : State)
    (new old : List (UInt64 × UInt64)) (list' : UInt64) (s' : State) : Prop where
  list : Chain s'.heap list' (new ++ old)
  heap : without s'.heap (new.map Prod.fst) = s.heap
  mallocs : s'.mallocs = s.mallocs + new.length
  fresh : FreshNodes malloc s'.heap s'.mallocs last

theorem without_push {s : State} (hfresh : FreshNodes malloc s.heap s.mallocs last)
    (hlast : s.mallocs < last) (list el : UInt64) :
    without (s.push malloc list el).heap [malloc s.mallocs] = s.heap := by
  funext a
  by_cases ha : a = malloc s.mallocs
  · rw [without, if_pos (by simp [ha]), ha, hfresh.unused _ (Nat.le_refl _) hlast]
  · rw [without, if_neg (by simp [ha]), State.push]
    exact Function.update_of_ne ha _ _

theorem Pushes.grown {list list' : UInt64} {s s' : State} {new : List (UInt64 × UInt64)}
    (h : Pushes malloc list s new list' s') {old : List (UInt64 × UInt64)}
    (hlist : Chain s.heap list old) (hfresh : FreshNodes malloc s.heap s.mallocs last)
    (henough : s.mallocs + new.length ≤ last) : Grown malloc last s new old list' s' := by
  induction h generalizing old with
  | done list s =>
      refine ⟨hlist, ?_, rfl, hfresh⟩
      funext a
      simp [without]
  | @push list list' s s' new el _ ih =>
      rw [List.length_append, List.length_singleton] at henough
      have hlast : s.mallocs < last := by omega
      have hmallocs : (s.push malloc list el).mallocs = s.mallocs + 1 := rfl
      obtain ⟨hlist', hheap, hcount, hfresh'⟩ :=
        ih (hlist.push hfresh hlast el) (hfresh.push list el) (by rw [hmallocs]; omega)
      refine ⟨?_, ?_, ?_, hfresh'⟩
      · rwa [List.append_assoc, List.singleton_append]
      · rw [List.map_append, ← without_without, hheap]
        exact without_push hfresh hlast list el
      · rw [hcount, hmallocs, List.length_append, List.length_singleton]
        omega

theorem m_keeps {calls : Nat} {a : UInt64} {s s' : State}
    (h : m printInt calls a s = some s') :
    (putsEmpty s').heap = s.heap ∧ (putsEmpty s').mallocs = s.mallocs := by
  induction calls generalizing a s with
  | zero => cases h
  | succ calls ih =>
      rw [m] at h
      split at h
      · obtain rfl : s = s' := by simpa using h
        exact ⟨rfl, rfl⟩
      · simp only [printInt, Option.bind_eq_bind, Option.bind_some, Option.bind_eq_some_iff] at h
        obtain ⟨node, -, node', -, hrest⟩ := h
        exact ih (s := { s with out := s.out ++ [.int node.el] }) hrest

/-- Two lists, of which the second was added behind the first, are freed one after the
other. -/
theorem freeStack_freeStack {calls : Nat} {list oddList : UInt64} {s s₁ s₂ : State}
    {heap heap' : Heap} {ns new : List (UInt64 × UInt64)} (hlist : Chain heap list ns)
    (hodd : Chain s.heap oddList new) (hheap : without heap (ns.map Prod.fst) = heap')
    (hnew : without s.heap (new.map Prod.fst) = heap) (hns : ns.length < calls)
    (hcalls : new.length < calls) (hfree : freeStack calls list s = some s₁)
    (hfreeOdd : freeStack calls oddList s₁ = some s₂) :
    s₂.heap = heap' ∧ s₂.mallocs = s.mallocs := by
  rw [freeStack_eq (hlist.mono (keepsNodes_of_without hnew)) hns, Option.some.injEq] at hfree
  subst hfree
  have hapart : ∀ n ∈ new, n.1 ∉ ns.map Prod.fst := by
    intro n hn hmem
    obtain ⟨n', hn', haddr⟩ := List.mem_map.mp hmem
    exact hlist.notMem_of_without hnew n' hn' (haddr ▸ List.mem_map_of_mem hn)
  rw [freeStack_eq (s := { s with heap := without s.heap (ns.map Prod.fst) })
    (hodd.without hapart) hcalls, Option.some.injEq] at hfreeOdd
  subst hfreeOdd
  refine ⟨?_, rfl⟩
  show without (without s.heap _) _ = heap'
  rw [without_comm, hnew, hheap]

/-- `main` calls `malloc` once for each element and once for each odd one, and frees
all of these blocks: the heap is the one from before. -/
theorem main_frees {data : List UInt64} {calls : Nat} {s : State}
    (hfresh : FreshNodes malloc s.heap s.mallocs last)
    (henough : s.mallocs + (data.length + (data.filter odd).length) ≤ last)
    (hcalls : data.length < calls) :
    ∃ s', main malloc data calls s = some (0, s') ∧ s'.out = s.out ++ printedFor data ∧
      s'.heap = s.heap ∧ s'.mallocs = s.mallocs + (data.length + (data.filter odd).length) := by
  obtain ⟨s', hmain, hout⟩ := main_eq hfresh henough hcalls
  refine ⟨s', hmain, hout, ?_⟩
  simp only [main, Option.bind_eq_bind, Option.bind_eq_some_iff] at hmain
  obtain ⟨⟨list, s₁⟩, hloop, s₂, hm, ⟨oddList, s₃⟩, hf, s₄, hm', s₅, hfree, s₆, hfree', hend⟩ :=
    hmain
  obtain rfl : s₆ = s' := by simpa using hend
  -- The first list.
  obtain ⟨ns, hns, helements⟩ := pushes_addingLoop hloop (Nat.le_refl _)
  rw [List.take_length] at helements
  have hlength : ns.length = data.length := by rw [← helements, List.length_map]
  have hempty : Chain s.heap 0 [] := rfl
  obtain ⟨hlist, hheap, hmallocs, hfresh₁⟩ := hns.grown hempty hfresh (by omega)
  obtain ⟨hheap₂, hmallocs₂⟩ := m_keeps hm
  rw [List.append_nil, ← hheap₂] at hlist
  rw [← hheap₂] at hheap hfresh₁
  rw [← hmallocs₂] at hmallocs hfresh₁
  -- The list of the odd elements.
  obtain ⟨new, oddList', s₃', hf', hpushes, hodds⟩ :=
    pushes_f 0 hlist (by omega : ns.length < calls) hfresh₁ (by rw [helements]; omega)
  obtain ⟨rfl, rfl⟩ : oddList' = oddList ∧ s₃' = s₃ := by
    simpa [hf] using hf'.symm
  have hcount : new.length = (data.filter odd).length := by
    rw [← List.length_map Prod.snd, hodds, List.length_reverse, helements]
  have hfew := List.length_filter_le odd data
  have hempty₂ : Chain (putsEmpty s₂).heap 0 [] := rfl
  obtain ⟨hodd, hnew, hmallocs₃, -⟩ := hpushes.grown hempty₂ hfresh₁ (by omega)
  obtain ⟨hheap₄, hmallocs₄⟩ := m_keeps hm'
  rw [List.append_nil, ← hheap₄] at hodd
  rw [← hheap₄] at hnew
  obtain ⟨hback, hkept⟩ := freeStack_freeStack hlist hodd hheap hnew (by omega) (by omega) hfree
    hfree'
  refine ⟨hback, ?_⟩
  rw [hkept, hmallocs₄, hmallocs₃, hmallocs, hlength, hcount]
  omega

/-- The blocks lie one behind the other, on an empty heap. -/
theorem main_frees_sample :
    ∃ s', main (fun n => 16 * (n.toUInt64 + 1)) [4, 15, 23] 4 ⟨fun _ => none, 0, []⟩ =
        some (0, s') ∧
      s'.out = printedFor [4, 15, 23] ∧ s'.heap = (fun _ => none) ∧ s'.mallocs = 5 := by
  have hnonnull : ∀ n < 5, 16 * (n.toUInt64 + 1) ≠ 0 := by decide
  have hdistinct : ∀ k < 5, ∀ n < k, 16 * (n.toUInt64 + 1) ≠ 16 * (k.toUInt64 + 1) := by decide
  have hfresh : FreshNodes (fun n => 16 * (n.toUInt64 + 1)) (fun _ => none) 0 5 :=
    ⟨fun n _ hn => hnonnull n hn, fun _ _ _ => rfl, fun n k _ hnk hk => hdistinct k hk n hnk⟩
  exact main_frees (s := ⟨fun _ => none, 0, []⟩) hfresh (by decide) (by decide)

end CHomework.AsmLists.C
