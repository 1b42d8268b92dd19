import Mathlib.Data.List.Basic

/-!
Codes that write a symbol as a word, and a sequence of symbols as the words one
after another.
-/

namespace CHomework.PrefixCode

variable {α β : Type*}

/-- No word is empty, and none begins with the word of another symbol. The
symbols that the code is used on are those with `p`. -/
structure PrefixFree (f : α → List β) (p : α → Prop) : Prop where
  ne_nil : ∀ a, p a → f a ≠ []
  eq_of_isPrefix : ∀ a b, p a → p b → f a <+: f b → a = b

namespace PrefixFree

variable {f : α → List β} {p : α → Prop}

/-- Of two words that begin the same sequence, the shorter one begins the
longer one. -/
theorem eq_of_append_eq (h : PrefixFree f p) {a b : α} (ha : p a) (hb : p b)
    {s t : List β} (heq : f a ++ s = f b ++ t) : a = b := by
  have hfa : f a <+: f b ++ t := ⟨s, heq⟩
  have hfb : f b <+: f b ++ t := List.prefix_append _ _
  rcases List.prefix_or_prefix_of_prefix hfa hfb with hab | hba
  · exact h.eq_of_isPrefix a b ha hb hab
  · exact (h.eq_of_isPrefix b a hb ha hba).symm

/-- A sequence of words can be read back in one way only. -/
theorem eq_of_flatMap_eq (h : PrefixFree f p) {l m : List α}
    (hl : ∀ a ∈ l, p a) (hm : ∀ a ∈ m, p a) (heq : l.flatMap f = m.flatMap f) :
    l = m := by
  induction l generalizing m with
  | nil =>
      cases m with
      | nil => rfl
      | cons b m =>
          have hb : p b := hm b List.mem_cons_self
          rw [List.flatMap_nil, List.flatMap_cons] at heq
          exact absurd (List.append_eq_nil_iff.mp heq.symm).1 (h.ne_nil b hb)
  | cons a l ih =>
      rcases List.forall_mem_cons.mp hl with ⟨ha, hl⟩
      cases m with
      | nil =>
          rw [List.flatMap_nil, List.flatMap_cons] at heq
          exact absurd (List.append_eq_nil_iff.mp heq).1 (h.ne_nil a ha)
      | cons b m =>
          rcases List.forall_mem_cons.mp hm with ⟨hb, hrest⟩
          rw [List.flatMap_cons, List.flatMap_cons] at heq
          have hab : a = b := h.eq_of_append_eq ha hb heq
          subst hab
          have hlm : l = m := ih hl hrest (List.append_cancel_left heq)
          rw [hlm]

end PrefixFree

end CHomework.PrefixCode
