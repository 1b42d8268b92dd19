import CHomework.CJson.Printer

/-!
The buffer of the printer: what the room that it ensures is good for, and how its stores
and its offset go on. A result that is reached is either there, with what was printed in
front of the offset, or the printing function has failed for lack of memory.
-/

namespace CHomework.CJson

open CHomework.Buffer CHomework.CString

namespace PrintBuffer

def capacity (p : PrintBuffer) : Nat := if p.noalloc then p.length else intMax

/-- What is printed stands in front of the offset, and `ahead` behind it. -/
structure Holds (p : PrintBuffer) (done ahead : List UInt8) : Prop where
  buffer : ∃ rest, p.buffer = (done ++ ahead).map some ++ rest
  offset : p.offset = done.length
  length_eq : p.buffer.length = p.length
  room : done = [] ∨ done.length < p.length
  length_le : p.length ≤ intMax

/-- A buffer that another one has become. -/
structure Leaves (p : PrintBuffer) (depth : Nat) (done ahead : List UInt8) (p' : PrintBuffer) :
    Prop where
  holds : p'.Holds done ahead
  capacity_eq : p'.capacity = p.capacity
  format_eq : p'.format = p.format
  depth_eq : p'.depth = depth

/-- The result of a printing function that needs at most so much memory, counted from the
start of the buffer. -/
structure Reaches (p : PrintBuffer) (need depth : Nat) (done ahead : List UInt8)
    (result : Except Stop PrintBuffer) : Prop where
  ok_of_le : need ≤ p.capacity → ∃ p', result = .ok p' ∧ p.Leaves depth done ahead p'
  ok_or_fails : (∃ p', result = .ok p' ∧ p.Leaves depth done ahead p') ∨ result = .error .fails

variable {p p' : PrintBuffer} {done done' ahead ahead' : List UInt8} {need need' depth depth' : Nat}
  {result : Except Stop PrintBuffer} {f : PrintBuffer → Except Stop PrintBuffer}

theorem Holds.forget (h : p.Holds done (ahead ++ ahead')) : p.Holds done ahead := by
  obtain ⟨rest, hbuffer⟩ := h.buffer
  refine { h with buffer := ⟨ahead'.map some ++ rest, ?_⟩ }
  rw [hbuffer]
  simp

theorem Holds.nil (h : p.Holds done ahead) : p.Holds done [] := by
  rw [← List.nil_append ahead] at h
  exact h.forget

theorem Holds.length_le_length (h : p.Holds done ahead) :
    done.length + ahead.length ≤ p.length := by
  obtain ⟨rest, hbuffer⟩ := h.buffer
  have hlength := congrArg List.length hbuffer
  rw [h.length_eq, List.length_append, List.length_map, List.length_append] at hlength
  omega

theorem Holds.setDepth (h : p.Holds done ahead) (depth : Nat) :
    Holds { p with depth := depth } done ahead := { h with }

theorem Leaves.trans {p₁ p₂ : PrintBuffer} (h₁ : p.Leaves depth done ahead p₁)
    (h₂ : p₁.Leaves p₁.depth done' ahead' p₂) : p.Leaves depth done' ahead' p₂ where
  holds := h₂.holds
  capacity_eq := h₂.capacity_eq.trans h₁.capacity_eq
  format_eq := h₂.format_eq.trans h₁.format_eq
  depth_eq := h₂.depth_eq.trans h₁.depth_eq

theorem Reaches.ok (h : p.Leaves depth done ahead p') (need : Nat) :
    p.Reaches need depth done ahead (.ok p') :=
  ⟨fun _ => ⟨p', rfl, h⟩, Or.inl ⟨p', rfl, h⟩⟩

/-- There is the room that is needed, or there is not. -/
theorem Reaches.of_room
    (hok : need ≤ p.capacity → ∃ p', result = .ok p' ∧ p.Leaves depth done ahead p')
    (hfails : p.capacity < need → result = .error .fails) :
    p.Reaches need depth done ahead result ∧ (p.capacity < need → result = .error .fails) := by
  refine ⟨⟨hok, ?_⟩, hfails⟩
  rcases Nat.lt_or_ge p.capacity need with hlt | hge
  · exact Or.inr (hfails hlt)
  · exact Or.inl (hok hge)

theorem Reaches.weaken (h : p.Reaches need depth done ahead result) (hle : need ≤ need') :
    p.Reaches need' depth done ahead result :=
  ⟨fun hneed => h.ok_of_le (Nat.le_trans hle hneed), h.ok_or_fails⟩

theorem Reaches.bind (h : p.Reaches need depth done ahead result) (hle : need ≤ need')
    (hf : ∀ p', p.Leaves depth done ahead p' → p'.Reaches need' depth' done' ahead' (f p')) :
    p.Reaches need' depth' done' ahead' (result >>= f) := by
  have hleaves : ∀ p₁ p₂, p.Leaves depth done ahead p₁ → p₁.Leaves depth' done' ahead' p₂ →
      p.Leaves depth' done' ahead' p₂ := fun p₁ p₂ h₁ h₂ =>
    ⟨h₂.holds, h₂.capacity_eq.trans h₁.capacity_eq, h₂.format_eq.trans h₁.format_eq, h₂.depth_eq⟩
  refine ⟨fun hneed => ?_, ?_⟩
  · obtain ⟨p₁, rfl, h₁⟩ := h.ok_of_le (Nat.le_trans hle hneed)
    obtain ⟨p₂, hp₂, h₂⟩ := (hf p₁ h₁).ok_of_le (h₁.capacity_eq ▸ hneed)
    exact ⟨p₂, hp₂, hleaves p₁ p₂ h₁ h₂⟩
  · rcases h.ok_or_fails with ⟨p₁, rfl, h₁⟩ | rfl
    · rcases (hf p₁ h₁).ok_or_fails with ⟨p₂, hp₂, h₂⟩ | hfails
      · exact Or.inl ⟨p₂, hp₂, hleaves p₁ p₂ h₁ h₂⟩
      · exact Or.inr hfails
    · exact Or.inr rfl

theorem Reaches.bind_bind {g : PrintBuffer → Except Stop PrintBuffer}
    (h : p.Reaches need depth done ahead (result >>= g)) (hle : need ≤ need')
    (hf : ∀ p', p.Leaves depth done ahead p' → p'.Reaches need' depth' done' ahead' (f p')) :
    p.Reaches need' depth' done' ahead' (result >>= fun p' => g p' >>= f) := by
  rw [← bind_assoc]
  exact h.bind hle hf

theorem Reaches.nil (h : p.Reaches need depth done ahead result) :
    p.Reaches need depth done [] result := by
  have hnil : ∀ p', p.Leaves depth done ahead p' → p.Leaves depth done [] p' :=
    fun p' h => { h with holds := h.holds.nil }
  refine ⟨fun hneed => ?_, ?_⟩
  · obtain ⟨p', hp', h'⟩ := h.ok_of_le hneed
    exact ⟨p', hp', hnil p' h'⟩
  · rcases h.ok_or_fails with ⟨p', hp', h'⟩ | hfails
    · exact Or.inl ⟨p', hp', hnil p' h'⟩
    · exact Or.inr hfails

/-- A function fails that ends with one that does. -/
theorem Reaches.bind_fails (h : p.Reaches need depth done ahead result)
    (hf : ∀ p', p.Leaves depth done ahead p' → f p' = .error .fails) :
    result >>= f = .error .fails := by
  rcases h.ok_or_fails with ⟨p₁, rfl, h₁⟩ | rfl
  · exact hf p₁ h₁
  · rfl

theorem reallocate_holds (h : p.Holds done ahead) {newsize : Nat} (hle : p.length ≤ newsize)
    (hlt : done.length < newsize) (hmax : newsize ≤ intMax) :
    (p.reallocate newsize).Holds done ahead := by
  obtain ⟨rest, hbuffer⟩ := h.buffer
  refine ⟨⟨rest ++ List.replicate (newsize - p.buffer.length) none, ?_⟩, h.offset,
    length_realloc _ _ _, Or.inr hlt, hmax⟩
  rw [reallocate, realloc_of_le none (h.length_eq.trans_le hle), hbuffer, List.append_assoc]

/-- The buffer has room for so many bytes and one more, or the function fails. -/
theorem ensure_reaches (h : p.Holds done ahead) (needed : Nat) :
    (done.length + needed + 1 ≤ p.capacity → ∃ p', p.ensure needed = .ok p' ∧
      p.Leaves p.depth done ahead p' ∧ done.length + needed + 1 ≤ p'.length) ∧
    (p.capacity < done.length + needed + 1 → p.ensure needed = .error .fails) := by
  have hvalid : ¬ (0 < p.length ∧ p.length ≤ p.offset) := by
    rw [h.offset]
    rcases h.room with rfl | hlt
    · simp only [List.length_nil]
      omega
    · omega
  have hlength := h.length_le
  have hmax : intMax = 2147483647 := rfl
  rw [ensure, if_neg hvalid, h.offset, capacity]
  by_cases hlong : intMax < needed
  · rw [if_pos hlong]
    refine ⟨fun hfits => ?_, fun _ => rfl⟩
    split at hfits <;> omega
  rw [if_neg hlong]
  simp only
  by_cases hfits : needed + (done.length + 1) ≤ p.length
  · rw [if_pos hfits]
    refine ⟨fun _ => ⟨p, rfl, ⟨h, rfl, rfl, rfl⟩, by omega⟩, fun hsmall => ?_⟩
    split at hsmall <;> omega
  rw [if_neg hfits]
  cases hnoalloc : p.noalloc with
  | true =>
      refine ⟨fun hroom => ?_, fun _ => rfl⟩
      simp only [if_true] at hroom
      omega
  | false =>
      have hcapacity : ∀ newsize, (p.reallocate newsize).capacity = p.capacity := by
        intro newsize
        simp [capacity, reallocate, hnoalloc]
      simp only [Bool.false_eq_true, if_false]
      by_cases hhalf : intMax / 2 < needed + (done.length + 1)
      · rw [if_pos hhalf]
        by_cases hroom : needed + (done.length + 1) ≤ intMax
        · rw [if_pos hroom]
          refine ⟨fun _ => ⟨_, rfl, ⟨reallocate_holds h hlength (by omega) (Nat.le_refl _),
            hcapacity _, rfl, rfl⟩, ?_⟩, fun hsmall => by omega⟩
          show _ ≤ intMax
          omega
        · rw [if_neg hroom]
          exact ⟨fun hfits => by omega, fun _ => rfl⟩
      · rw [if_neg hhalf]
        refine ⟨fun _ => ⟨_, rfl, ⟨reallocate_holds h (by omega) (by omega) (by omega),
          hcapacity _, rfl, rfl⟩, ?_⟩, fun hsmall => by omega⟩
        show _ ≤ (needed + (done.length + 1)) * 2
        omega

theorem write_holds (h : p.Holds done ahead) (bytes : List UInt8)
    (hfits : done.length + ahead.length + bytes.length ≤ p.length) :
    ∃ p', p.write (done.length + ahead.length) bytes = .ok p' ∧
      p.Leaves p.depth done (ahead ++ bytes) p' ∧ p'.length = p.length ∧ p'.offset = p.offset := by
  obtain ⟨rest, hbuffer⟩ := h.buffer
  have hinside : done.length + ahead.length + bytes.length ≤ p.buffer.length := by
    rw [h.length_eq]
    exact hfits
  have hfront : done.length + ahead.length = ((done ++ ahead).map some).length := by
    rw [List.length_map, List.length_append]
  refine ⟨{ p with buffer := overwrite p.buffer (done.length + ahead.length) (bytes.map some) },
    by rw [write, if_pos hinside], ⟨⟨⟨rest.drop bytes.length, ?_⟩, h.offset, ?_, h.room,
    h.length_le⟩, rfl, rfl, rfl⟩, rfl, rfl⟩
  · show overwrite _ _ _ = _
    rw [overwrite, hbuffer, hfront, List.take_left, List.length_map, List.drop_append]
    simp
  · show (overwrite _ _ _).length = p.length
    rw [length_overwrite (by rw [List.length_map]; exact hinside), h.length_eq]

theorem emit_reaches (h : p.Holds done ahead) {needed advance : Nat} {bytes : List UInt8}
    (hbytes : bytes.length ≤ needed + 1) (hadvance : advance ≤ bytes.length)
    (hneeded : advance ≤ needed) :
    p.Reaches (done.length + needed + 1) p.depth (done ++ bytes.take advance)
      (bytes.drop advance) (p.emit needed bytes advance) ∧
    (p.capacity < done.length + needed + 1 → p.emit needed bytes advance = .error .fails) := by
  obtain ⟨hok, hfails⟩ := ensure_reaches h.nil needed
  refine Reaches.of_room (fun hneed => ?_) fun hsmall => ?_
  · obtain ⟨p₁, hp₁, h₁, hroom⟩ := hok hneed
    obtain ⟨p₂, hp₂, h₂, hlength, hoffset⟩ := write_holds h₁.holds bytes
      (by rw [List.length_nil]; omega)
    rw [List.length_nil, Nat.add_zero, ← h₁.holds.offset] at hp₂
    obtain ⟨rest, hbuffer⟩ := h₂.holds.buffer
    refine ⟨{ p₂ with offset := p₂.offset + advance }, ?_, ⟨⟨⟨rest, ?_⟩, ?_, h₂.holds.length_eq, ?_,
      h₂.holds.length_le⟩, h₂.capacity_eq.trans h₁.capacity_eq,
      h₂.format_eq.trans h₁.format_eq, h₂.depth_eq.trans h₁.depth_eq⟩⟩
    · rw [emit, hp₁]
      show (p₁.write p₁.offset bytes >>= _) = _
      rw [hp₂]
      rfl
    · rw [hbuffer, List.append_assoc, List.take_append_drop, List.nil_append]
    · rw [List.length_append, List.length_take, Nat.min_eq_left hadvance, ← h₂.holds.offset]
    · refine Or.inr ?_
      rw [List.length_append, List.length_take, Nat.min_eq_left hadvance]
      show _ < p₂.length
      omega
  · rw [emit, hfails hsmall]
    rfl

theorem strlenIn_eq {text : List UInt8} (hnul : (0 : UInt8) ∉ text) (rest : List (Option UInt8)) :
    strlenIn (text.map some ++ (some 0 :: rest)) = some text.length := by
  induction text with
  | nil => rfl
  | cons byte text ih =>
      have hbyte : byte ≠ 0 := fun h => hnul (by simp [h])
      rw [List.map_cons, List.cons_append, strlenIn, if_neg hbyte,
        ih fun h => hnul (List.mem_cons_of_mem _ h)]
      rfl

/-- The offset moves behind the string that is there. -/
theorem updateOffset_reaches {text : List UInt8} (h : p.Holds done (text ++ [0]))
    (hnul : (0 : UInt8) ∉ text) (need : Nat) :
    p.Reaches need p.depth (done ++ text) [0] p.updateOffset := by
  obtain ⟨rest, hbuffer⟩ := h.buffer
  have hlength := h.length_le_length
  rw [List.length_append, List.length_singleton] at hlength
  have hdrop : p.buffer.drop p.offset = text.map some ++ (some 0 :: rest) := by
    have hoffset : p.offset = (done.map some).length := by rw [h.offset, List.length_map]
    rw [hbuffer, hoffset, List.map_append, List.append_assoc, List.drop_left]
    simp
  rw [updateOffset, hdrop, strlenIn_eq hnul]
  have hleaves :
      p.Leaves p.depth (done ++ text) [0] { p with offset := p.offset + text.length } := by
    refine ⟨⟨⟨rest, ?_⟩, ?_, h.length_eq, Or.inr ?_, h.length_le⟩, rfl, rfl, rfl⟩
    · rw [hbuffer, List.append_assoc]
    · rw [h.offset, List.length_append]
    · show _ < p.length
      rw [List.length_append]
      omega
  exact .ok hleaves need

end PrintBuffer

end CHomework.CJson
