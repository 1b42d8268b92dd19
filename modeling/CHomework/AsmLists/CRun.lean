import CHomework.AsmLists.CProgram
import CHomework.AsmLists.Lists

namespace CHomework.AsmLists.C

abbrev Heap := UInt64 → Option Node

/-- A list on the heap, as the addresses and the elements of its nodes. -/
def Chain (heap : Heap) : UInt64 → List (UInt64 × UInt64) → Prop
  | a, [] => a = 0
  | a, (b, x) :: ns =>
      a = b ∧ a ≠ 0 ∧ ∃ prev, heap a = some { el := x, prev } ∧ Chain heap prev ns

def IsList (heap : Heap) (a : UInt64) (xs : List UInt64) : Prop :=
  ∃ ns, Chain heap a ns ∧ ns.map Prod.snd = xs

def KeepsNodes (heap heap' : Heap) : Prop :=
  ∀ a node, heap a = some node → heap' a = some node

/-- The calls of `malloc` from `first` up to `last` return blocks that are not NULL,
not in use, and different from each other. -/
structure FreshNodes (malloc : Nat → UInt64) (heap : Heap) (first last : Nat) : Prop where
  ne_null : ∀ n, first ≤ n → n < last → malloc n ≠ 0
  unused : ∀ n, first ≤ n → n < last → heap (malloc n) = none
  distinct : ∀ n k, first ≤ n → n < k → k < last → malloc n ≠ malloc k

theorem Chain.mono {heap heap' : Heap} (hkeeps : KeepsNodes heap heap') {a : UInt64}
    {ns : List (UInt64 × UInt64)} (h : Chain heap a ns) : Chain heap' a ns := by
  induction ns generalizing a with
  | nil => exact h
  | cons n ns ih =>
      obtain ⟨haddr, hnonnull, prev, hnode, hrest⟩ := h
      exact ⟨haddr, hnonnull, prev, hkeeps _ _ hnode, ih hrest⟩

theorem KeepsNodes.eq_none {heap heap' : Heap} (hkeeps : KeepsNodes heap heap') {a : UInt64}
    (hnone : heap' a = none) : heap a = none := by
  rcases hnode : heap a with _ | node
  · rfl
  · rw [hkeeps a node hnode] at hnone
    cases hnone

theorem Chain.unique {heap : Heap} {a : UInt64} {ns ns' : List (UInt64 × UInt64)}
    (h : Chain heap a ns) (h' : Chain heap a ns') : ns = ns' := by
  induction ns generalizing a ns' with
  | nil =>
      cases ns' with
      | nil => rfl
      | cons n ns' => exact absurd h h'.2.1
  | cons n ns ih =>
      obtain ⟨haddr, hnonnull, prev, hnode, hrest⟩ := h
      cases ns' with
      | nil => exact absurd h' hnonnull
      | cons n' ns' =>
          obtain ⟨haddr', -, prev', hnode', hrest'⟩ := h'
          obtain ⟨hel, rfl⟩ : n.2 = n'.2 ∧ prev = prev' := by
            simpa [hnode] using hnode'
          rw [ih hrest hrest', Prod.ext (haddr.symm.trans haddr') hel]

theorem Chain.suffix {heap : Heap} {a b x : UInt64} {ns ns' : List (UInt64 × UInt64)}
    (h : Chain heap a (ns ++ (b, x) :: ns')) : Chain heap b ((b, x) :: ns') := by
  induction ns generalizing a with
  | nil =>
      obtain rfl : a = b := h.1
      exact h
  | cons n ns ih =>
      obtain ⟨-, -, prev, -, hrest⟩ := h
      exact ih hrest

theorem Chain.nodup {heap : Heap} {a : UInt64} {ns : List (UInt64 × UInt64)}
    (h : Chain heap a ns) : (ns.map Prod.fst).Nodup := by
  induction ns generalizing a with
  | nil => exact List.nodup_nil
  | cons n ns ih =>
      obtain ⟨b, x⟩ := n
      obtain ⟨rfl, -, prev, -, hrest⟩ := id h
      refine List.nodup_cons.mpr ⟨?_, ih hrest⟩
      intro hmem
      obtain ⟨⟨b, y⟩, hagain, rfl⟩ := List.mem_map.mp hmem
      obtain ⟨front, back, rfl⟩ := List.append_of_mem hagain
      have hlength := congrArg List.length (h.unique hrest.suffix)
      simp only [List.length_cons, List.length_append] at hlength
      omega

theorem Chain.ne_none {heap : Heap} {a : UInt64} {ns : List (UInt64 × UInt64)}
    (h : Chain heap a ns) : ∀ n ∈ ns, heap n.1 ≠ none := by
  induction ns generalizing a with
  | nil => simp
  | cons n ns ih =>
      obtain ⟨haddr, -, prev, hnode, hrest⟩ := h
      rintro n' hn'
      rcases List.mem_cons.mp hn' with rfl | hn'
      · simp [← haddr, hnode]
      · exact ih hrest n' hn'

theorem keepsNodes_update {heap : Heap} {block : UInt64} (hunused : heap block = none)
    (node : Node) : KeepsNodes heap (Function.update heap block (some node)) := by
  intro a node' hnode'
  have hne : a ≠ block := by
    rintro rfl
    rw [hunused] at hnode'
    cases hnode'
  rwa [Function.update_of_ne hne]

theorem FreshNodes.next {malloc : Nat → UInt64} {heap : Heap} {first last : Nat}
    (h : FreshNodes malloc heap first last) (node : Node) :
    FreshNodes malloc (Function.update heap (malloc first) (some node)) (first + 1) last := by
  refine ⟨fun n hn => h.ne_null n (by omega), ?_, fun n k hn => h.distinct n k (by omega)⟩
  intro n hn hlast
  rw [Function.update_of_ne (h.distinct first n (Nat.le_refl _) hn hlast).symm]
  exact h.unused n (by omega) hlast

/-- The state with a new node in front of a list. -/
def State.push (malloc : Nat → UInt64) (list el : UInt64) (s : State) : State :=
  { s with
    heap := Function.update s.heap (malloc s.mallocs) (some { el, prev := list })
    mallocs := s.mallocs + 1 }

section Functions

variable {malloc : Nat → UInt64} {last : Nat}

theorem addElement_eq {s : State} (hfresh : FreshNodes malloc s.heap s.mallocs last)
    (hlast : s.mallocs < last) (list el : UInt64) :
    addElement malloc list el s = some (malloc s.mallocs, s.push malloc list el) :=
  if_neg (hfresh.ne_null _ (Nat.le_refl _) hlast)

theorem keepsNodes_push {s : State} (hfresh : FreshNodes malloc s.heap s.mallocs last)
    (hlast : s.mallocs < last) (list el : UInt64) :
    KeepsNodes s.heap (s.push malloc list el).heap :=
  keepsNodes_update (hfresh.unused _ (Nat.le_refl _) hlast) _

theorem Chain.push {s : State} {list : UInt64} {ns : List (UInt64 × UInt64)}
    (h : Chain s.heap list ns) (hfresh : FreshNodes malloc s.heap s.mallocs last)
    (hlast : s.mallocs < last) (el : UInt64) :
    Chain (s.push malloc list el).heap (malloc s.mallocs) ((malloc s.mallocs, el) :: ns) := by
  refine ⟨rfl, hfresh.ne_null _ (Nat.le_refl _) hlast, list, ?_, ?_⟩
  · exact Function.update_self _ _ _
  · exact h.mono (keepsNodes_push hfresh hlast list el)

theorem FreshNodes.push {s : State} (hfresh : FreshNodes malloc s.heap s.mallocs last)
    (list el : UInt64) :
    FreshNodes malloc (s.push malloc list el).heap (s.push malloc list el).mallocs last :=
  hfresh.next _

/-- The induction is on the number of elements in front of the next one. -/
theorem addingLoop_eq {data : List UInt64} {i : Nat} (hi : i ≤ data.length) {list : UInt64}
    {s : State} {ns : List (UInt64 × UInt64)} (hlist : Chain s.heap list ns)
    (helements : ns.map Prod.snd = data.drop i)
    (hfresh : FreshNodes malloc s.heap s.mallocs last) (henough : s.mallocs + i ≤ last) :
    ∃ list' s' ns', addingLoop malloc data i list s = some (list', s') ∧
      Chain s'.heap list' ns' ∧ ns'.map Prod.snd = data ∧
      FreshNodes malloc s'.heap s'.mallocs last ∧ s'.mallocs = s.mallocs + i ∧
      s'.out = s.out := by
  induction i generalizing list s ns with
  | zero => exact ⟨list, s, ns, rfl, hlist, helements, hfresh, rfl, rfl⟩
  | succ i ih =>
      have hlast : s.mallocs < last := by omega
      have hdrop : data[i] :: ns.map Prod.snd = data.drop i := by
        rw [helements, ← List.drop_eq_getElem_cons]
      have hpushed : (s.push malloc list data[i]).mallocs + i = s.mallocs + (i + 1) := by
        dsimp only [State.push]
        omega
      obtain ⟨list', s', ns', hloop, hlist', helements', hfresh', hmallocs, hout⟩ :=
        ih (by omega) (hlist.push hfresh hlast data[i]) hdrop (hfresh.push list data[i])
          (hpushed ▸ henough)
      refine ⟨list', s', ns', ?_, hlist', helements', hfresh', ?_, hout⟩
      · rw [addingLoop, List.getElem?_eq_getElem hi, Option.bind_eq_bind, Option.bind_some,
          addElement_eq hfresh hlast]
        exact hloop
      · exact hmallocs.trans hpushed

theorem m_eq {a : UInt64} {ns : List (UInt64 × UInt64)} {calls : Nat} {s : State}
    (hlist : Chain s.heap a ns) (hcalls : ns.length < calls) :
    m printInt calls a s =
      some { s with out := s.out ++ (ns.map Prod.snd).map .int } := by
  induction ns generalizing a calls s with
  | nil =>
      obtain ⟨calls, rfl⟩ := Nat.exists_eq_add_one_of_ne_zero (Nat.ne_zero_of_lt hcalls)
      obtain rfl : a = 0 := hlist
      simp [m]
  | cons n ns ih =>
      obtain ⟨calls, rfl⟩ := Nat.exists_eq_add_one_of_ne_zero (Nat.ne_zero_of_lt hcalls)
      obtain ⟨-, hnonnull, prev, hnode, hrest⟩ := hlist
      have htail := ih (s := { s with out := s.out ++ [.int n.2] }) hrest
        (by simpa using hcalls)
      simp only [m, if_neg hnonnull, hnode, printInt, Option.bind_eq_bind, Option.bind_some]
      rw [htail]
      simp

/-- The chosen elements are pushed onto the accumulator one by one, as new nodes, and
what was on the heap stays. -/
structure Pushed (malloc : Nat → UInt64) (last : Nat) (xs : List UInt64)
    (acc : List (UInt64 × UInt64)) (s : State) (list : UInt64) (s' : State) : Prop where
  list : ∃ new, Chain s'.heap list (new ++ acc) ∧
    new.map Prod.snd = (xs.filter odd).reverse ∧ ∀ n ∈ new, s.heap n.1 = none
  keeps : KeepsNodes s.heap s'.heap
  fresh : FreshNodes malloc s'.heap s'.mallocs last
  out : s'.out = s.out

theorem f_of_not_odd {a x prev : UInt64} {s : State} (hnonnull : a ≠ 0)
    (hnode : s.heap a = some { el := x, prev }) (hx : odd x = false) (calls : Nat)
    (oddList : UInt64) :
    f malloc p (calls + 1) a oddList s = f malloc p calls prev oddList s := by
  have hr : ¬ x % 2 ≠ 0 := by simp [mod_two_ne_zero_iff, hx]
  simp only [f, if_neg hnonnull, hnode, p, Option.bind_eq_bind, Option.bind_some, if_neg hr]

theorem f_of_odd {a x prev : UInt64} {s : State} (hnonnull : a ≠ 0)
    (hnode : s.heap a = some { el := x, prev }) (hx : odd x = true)
    (hfresh : FreshNodes malloc s.heap s.mallocs last) (hlast : s.mallocs < last)
    (calls : Nat) (oddList : UInt64) :
    f malloc p (calls + 1) a oddList s =
      f malloc p calls prev (malloc s.mallocs) (s.push malloc oddList x) := by
  have hr : x % 2 ≠ 0 := (mod_two_ne_zero_iff x).mpr hx
  have hnode' : (s.push malloc oddList x).heap a = some { el := x, prev } :=
    keepsNodes_push hfresh hlast oddList x _ _ hnode
  simp only [f, if_neg hnonnull, hnode, p, Option.bind_eq_bind, Option.bind_some, if_pos hr,
    addElement_eq hfresh hlast, hnode']

/-- The induction is on the list, for every accumulator. -/
theorem f_eq {a oddList : UInt64} {ns acc : List (UInt64 × UInt64)} {calls : Nat} {s : State}
    (hlist : Chain s.heap a ns) (hacc : Chain s.heap oddList acc) (hcalls : ns.length < calls)
    (hfresh : FreshNodes malloc s.heap s.mallocs last)
    (henough : s.mallocs + ((ns.map Prod.snd).filter odd).length ≤ last) :
    ∃ list s', f malloc p calls a oddList s = some (list, s') ∧
      Pushed malloc last (ns.map Prod.snd) acc s list s' := by
  induction ns generalizing a oddList acc calls s with
  | nil =>
      obtain ⟨calls, rfl⟩ := Nat.exists_eq_add_one_of_ne_zero (Nat.ne_zero_of_lt hcalls)
      obtain rfl : a = 0 := hlist
      exact ⟨oddList, s, by simp [f], ⟨⟨[], hacc, rfl, by simp⟩, fun _ _ h => h, hfresh, rfl⟩⟩
  | cons n ns ih =>
      obtain ⟨calls, rfl⟩ := Nat.exists_eq_add_one_of_ne_zero (Nat.ne_zero_of_lt hcalls)
      obtain ⟨b, x⟩ := n
      obtain ⟨rfl, hnonnull, prev, hnode, hrest⟩ := hlist
      have hcalls : ns.length < calls := by simpa using hcalls
      rcases hx : odd x with _ | _
      · rw [List.map_cons, List.filter_cons_of_neg (by simp [hx])] at henough
        obtain ⟨list, s', hf, ⟨hnew, hkeeps, hfresh', hout⟩⟩ :=
          ih hrest hacc hcalls hfresh henough
        refine ⟨list, s', (f_of_not_odd hnonnull hnode hx calls oddList).trans hf,
          ⟨?_, hkeeps, hfresh', hout⟩⟩
        rwa [List.map_cons, List.filter_cons_of_neg (by simp [hx])]
      · rw [List.map_cons, List.filter_cons_of_pos (by simp [hx]), List.length_cons] at henough
        have hlast : s.mallocs < last := by omega
        have hkeeps := keepsNodes_push hfresh hlast oddList x
        have hstep := f_of_odd hnonnull hnode hx hfresh hlast calls oddList
        have henough' : (s.push malloc oddList x).mallocs +
            ((ns.map Prod.snd).filter odd).length ≤ last := by
          dsimp only [State.push]
          omega
        obtain ⟨list, s', hf, ⟨⟨new, hchain, hnew, hunused⟩, hkeeps', hfresh', hout⟩⟩ :=
          ih (hrest.mono hkeeps) (hacc.push hfresh hlast x) hcalls (hfresh.push oddList x)
            henough'
        refine ⟨list, s', hstep.trans hf, ⟨⟨new ++ [(malloc s.mallocs, x)], ?_, ?_, ?_⟩,
          fun _ _ h => hkeeps' _ _ (hkeeps _ _ h), hfresh', hout⟩⟩
        · rwa [List.append_assoc, List.singleton_append]
        · simp [hnew, hx]
        · intro n hn
          rcases List.mem_append.mp hn with hn | hn
          · exact hkeeps.eq_none (hunused n hn)
          · obtain rfl : n = (malloc s.mallocs, x) := by simpa using hn
            exact hfresh.unused _ (Nat.le_refl _) hlast

/-- The heap without the blocks at the addresses. -/
def without (heap : Heap) (blocks : List UInt64) (a : UInt64) : Option Node :=
  if a ∈ blocks then none else heap a

theorem Chain.without {heap : Heap} {a : UInt64} {ns : List (UInt64 × UInt64)}
    {blocks : List UInt64} (h : Chain heap a ns) (hdisjoint : ∀ n ∈ ns, n.1 ∉ blocks) :
    Chain (without heap blocks) a ns := by
  induction ns generalizing a with
  | nil => exact h
  | cons n ns ih =>
      obtain ⟨b, x⟩ := n
      obtain ⟨rfl, hnonnull, prev, hnode, hrest⟩ := h
      refine ⟨rfl, hnonnull, prev, ?_, ih hrest fun n hn => hdisjoint n (by simp [hn])⟩
      rw [C.without, if_neg (hdisjoint (a, x) (by simp)), hnode]

theorem freeStack_eq {a : UInt64} {ns : List (UInt64 × UInt64)} {calls : Nat} {s : State}
    (hlist : Chain s.heap a ns) (hcalls : ns.length < calls) :
    freeStack calls a s = some { s with heap := without s.heap (ns.map Prod.fst) } := by
  induction ns generalizing a calls with
  | nil =>
      obtain ⟨calls, rfl⟩ := Nat.exists_eq_add_one_of_ne_zero (Nat.ne_zero_of_lt hcalls)
      obtain rfl : a = 0 := hlist
      have hheap : without s.heap [] = s.heap := by
        funext a
        simp [without]
      simp [freeStack, hheap]
  | cons n ns ih =>
      obtain ⟨calls, rfl⟩ := Nat.exists_eq_add_one_of_ne_zero (Nat.ne_zero_of_lt hcalls)
      have hnodup := hlist.nodup
      obtain ⟨b, x⟩ := n
      obtain ⟨rfl, hnonnull, prev, hnode, hrest⟩ := hlist
      have hhead : a ∉ ns.map Prod.fst := (List.nodup_cons.mp hnodup).1
      have hstill : without s.heap (ns.map Prod.fst) a = some ⟨x, prev⟩ := by
        rw [without, if_neg hhead, hnode]
      have hheap : Function.update (without s.heap (ns.map Prod.fst)) a none =
          without s.heap (a :: ns.map Prod.fst) := by
        funext b
        by_cases hb : b = a
        · simp [without, hb]
        · rw [Function.update_of_ne hb, without, without]
          simp only [List.mem_cons, hb, false_or]
      simp only [freeStack, if_neg hnonnull, hnode, Option.bind_eq_bind, Option.bind_some,
        ih hrest (by simpa using hcalls), free, hstill, Option.map_some, hheap, List.map_cons]

theorem main_eq {data : List UInt64} {calls : Nat} {s : State}
    (hfresh : FreshNodes malloc s.heap s.mallocs last)
    (henough : s.mallocs + (data.length + (data.filter odd).length) ≤ last)
    (hcalls : data.length < calls) :
    ∃ s', main malloc data calls s = some (0, s') ∧ s'.out = s.out ++ printedFor data := by
  have hempty : Chain s.heap 0 [] := rfl
  obtain ⟨list, s₁, ns, hloop, hlist, hdata, hfresh₁, hmallocs₁, hout₁⟩ :=
    addingLoop_eq (Nat.le_refl data.length) hempty (by simp) hfresh (by omega)
  have hlength : ns.length = data.length := by rw [← hdata, List.length_map]
  have hm₁ : m printInt calls list s₁ =
      some { s₁ with out := s₁.out ++ (ns.map Prod.snd).map .int } :=
    m_eq hlist (by omega)
  generalize hs₂ : putsEmpty { s₁ with out := s₁.out ++ (ns.map Prod.snd).map .int } = s₂
  have hheap₂ : s₂.heap = s₁.heap := by rw [← hs₂, putsEmpty]
  have hmallocs₂ : s₂.mallocs = s₁.mallocs := by rw [← hs₂, putsEmpty]
  have hout₂ : s₂.out = s.out ++ (data.map .int ++ [.newline]) := by
    simp [← hs₂, putsEmpty, hdata, hout₁]
  rw [← hheap₂] at hlist hfresh₁
  have henough₂ : s₂.mallocs + ((ns.map Prod.snd).filter odd).length ≤ last := by
    rw [hdata]
    omega
  have hempty₂ : Chain s₂.heap 0 [] := rfl
  obtain ⟨oddList, s₃, hf, ⟨⟨new, hodd, hnew, hunused⟩, hkeeps, -, hout₃⟩⟩ :=
    f_eq hlist hempty₂ (by omega : ns.length < calls) (hmallocs₂ ▸ hfresh₁) henough₂
  rw [List.append_nil] at hodd
  have hnewLength : new.length ≤ ns.length := by
    calc new.length = ((ns.map Prod.snd).filter odd).length := by
          rw [← List.length_map Prod.snd, hnew, List.length_reverse]
      _ ≤ (ns.map Prod.snd).length := List.length_filter_le _ _
      _ = ns.length := List.length_map _
  have hm₃ : m printInt calls oddList s₃ =
      some { s₃ with out := s₃.out ++ (new.map Prod.snd).map .int } :=
    m_eq hodd (by omega)
  generalize hs₄ : putsEmpty { s₃ with out := s₃.out ++ (new.map Prod.snd).map .int } = s₄
  have hheap₄ : s₄.heap = s₃.heap := by rw [← hs₄, putsEmpty]
  have hout₄ : s₄.out = s.out ++ printedFor data := by
    simp [← hs₄, putsEmpty, hout₃, hout₂, hnew, hdata, printedFor]
  have hlist₄ : Chain s₄.heap list ns := hheap₄ ▸ hlist.mono hkeeps
  have hfree := freeStack_eq hlist₄ (by omega : ns.length < calls)
  -- The nodes of the second list were not on the heap when the first one was.
  have hapart : ∀ n ∈ new, n.1 ∉ ns.map Prod.fst := by
    intro n hn hmem
    obtain ⟨n', hn', haddr⟩ := List.mem_map.mp hmem
    exact hlist.ne_none n' hn' (haddr ▸ hunused n hn)
  have hodd₄ : Chain (without s₄.heap (ns.map Prod.fst)) oddList new :=
    (hheap₄ ▸ hodd).without hapart
  have hfreeOdd := freeStack_eq (s := { s₄ with heap := without s₄.heap (ns.map Prod.fst) })
    hodd₄ (by omega : new.length < calls)
  refine ⟨{ s₄ with heap := without (without s₄.heap (ns.map Prod.fst)) (new.map Prod.fst) },
    ?_, hout₄⟩
  simp only [main, hloop, hm₁, hs₂, hf, hm₃, hs₄, hfree, hfreeOdd, Option.bind_eq_bind,
    Option.bind_some]

end Functions

end CHomework.AsmLists.C
