import CHomework.CJson.Complete
import CHomework.CJson.Escapes

/-!
The text of an item, and that the printing functions print it or fail: they never leave
their buffer, and they fail only for lack of memory.
-/

namespace CHomework.CJson

open CHomework.Buffer CHomework.CString CHomework.Json

section Values

variable {D : Type} (num : Numbers D) (fmt : Formats D)

def numberText (x : Number D) : List UInt8 :=
  if fmt.isNanOrInf x.valuedouble then word ['n', 'u', 'l', 'l']
  else if fmt.eqInt x.valuedouble x.valueint then decimal x.valueint
  else if (num.strtod (fmt.g15 x.valuedouble).bytes).2 = 0 ∨
      fmt.compareDouble (num.strtod (fmt.g15 x.valuedouble).bytes).1 x.valuedouble = false then
    (fmt.g17 x.valuedouble).bytes
  else (fmt.g15 x.valuedouble).bytes

theorem digit_of_mem_toDigits {n : Nat} {c : Char} (h : c ∈ Nat.toDigits 10 n) :
    '0'.toUInt8 ≤ c.toUInt8 ∧ c.toUInt8 ≤ '9'.toUInt8 := by
  have hdigit := Nat.isDigit_of_mem_toDigits (by decide) (by decide) h
  simp only [Char.isDigit, Bool.and_eq_true, decide_eq_true_eq] at hdigit
  have hge : 48 ≤ c.toNat := hdigit.1
  have hle : c.toNat ≤ 57 := hdigit.2
  have htoNat : c.toUInt8.toNat = c.toNat := by
    rw [Char.toUInt8, UInt32.toNat_toUInt8]
    exact Nat.mod_eq_of_lt (show c.toNat < 256 by omega)
  rw [UInt8.le_iff_toNat_le, UInt8.le_iff_toNat_le, htoNat]
  exact ⟨hge, hle⟩

theorem zero_notMem_decimal (n : Int32) : (0 : UInt8) ∉ decimal n := by
  rw [decimal, List.mem_append]
  rintro (hsign | hdigits)
  · split at hsign
    · exact absurd hsign (by decide)
    · cases hsign
  · obtain ⟨c, hc, hzero⟩ := List.mem_map.mp hdigits
    have hlow := (digit_of_mem_toDigits hc).1
    rw [hzero] at hlow
    exact absurd hlow (by decide)

theorem length_decimal_le (n : Int32) : (decimal n).length ≤ 11 := by
  have hlt := n.toInt_lt
  have hge := n.le_toInt
  have hdigits : (Nat.toDigits 10 n.toInt.natAbs).length ≤ 10 :=
    (Nat.length_toDigits_le_iff (by decide) (by decide)).mpr (by omega)
  rw [decimal, List.length_append, List.length_map]
  split
  · rw [List.length_singleton]
    omega
  · rw [List.length_nil]
    omega

theorem numberText_cases (x : Number D) :
    (numberText num fmt x).length ≤ 25 ∧ (0 : UInt8) ∉ numberText num fmt x := by
  have hdecimal := length_decimal_le x.valueint
  rw [numberText]
  split
  · decide
  · split
    · exact ⟨by omega, zero_notMem_decimal _⟩
    · split
      · exact ⟨fmt.g17_le _, (fmt.g17 _).noNul⟩
      · exact ⟨fmt.g15_le _, (fmt.g15 _).noNul⟩

/-- `number_buffer` is large enough. -/
theorem printNumber_eq (x : Number D) (p : PrintBuffer) :
    printNumber num fmt x p = p.emit ((numberText num fmt x).length + 1)
      (numberText num fmt x ++ [0]) (numberText num fmt x).length := by
  have hsprintf : ∀ text : List UInt8, text.length ≤ 25 → sprintf text = .ok text := by
    intro text htext
    rw [sprintf, if_pos (by omega)]
  have hlength := (numberText_cases num fmt x).1
  have hdecimal := length_decimal_le x.valueint
  have hg15 := hsprintf _ (fmt.g15_le x.valuedouble)
  have hg17 := hsprintf _ (fmt.g17_le x.valuedouble)
  have hemit : ∀ text : List UInt8, text.length ≤ 25 →
      (if 25 < text.length then do
        throw Stop.fails
        p.emit (text.length + 1) (text ++ [0]) text.length
      else p.emit (text.length + 1) (text ++ [0]) text.length) =
        p.emit (text.length + 1) (text ++ [0]) text.length := by
    intro text htext
    exact if_neg (by omega)
  simp only [printNumber, hg15, hg17, hsprintf _ (Nat.le_trans hdecimal (by decide)),
    hsprintf [0x6e, 0x75, 0x6c, 0x6c] (by decide)]
  rw [numberText] at hlength ⊢
  by_cases hnan : fmt.isNanOrInf x.valuedouble = true
  · simp only [if_pos hnan] at hlength ⊢
    exact hemit _ hlength
  simp only [if_neg hnan] at hlength ⊢
  by_cases hint : fmt.eqInt x.valuedouble x.valueint = true
  · simp only [if_pos hint] at hlength ⊢
    exact hemit _ hlength
  simp only [if_neg hint] at hlength ⊢
  split at hlength
  · rename_i hlost
    simp only [if_pos hlost]
    exact hemit _ hlength
  · rename_i hkept
    simp only [if_neg hkept]
    exact hemit _ hlength

section Texts

variable (format : Bool)

/-- What is printed only with `format`. -/
def formatted (text : List UInt8) : List UInt8 := if format then text else []

mutual

/-- The text of an item inside of so many arrays and objects. -/
def valueText : Json.Tree (List UInt8) (Number D) → Nat → List UInt8
  | .null, _ => word ['n', 'u', 'l', 'l']
  | .false, _ => word ['f', 'a', 'l', 's', 'e']
  | .true, _ => word ['t', 'r', 'u', 'e']
  | .number x, _ => numberText num fmt x
  | .string s, _ => quoted (escapeText (ofBuffer s).bytes)
  | .array child, depth => bracketed '['.toUInt8 ']'.toUInt8 (elementsText child (depth + 1))
  | .object child, depth =>
      bracketed '\x7b'.toUInt8 '\x7d'.toUInt8 (formatted format ['\n'.toUInt8] ++
        (membersText child (depth + 1) ++ formatted format (tabs depth)))

def elementsText : List (Json.Tree (List UInt8) (Number D)) → Nat → List UInt8
  | [], _ => []
  | item :: next, depth =>
      valueText item depth ++
        ((if next.isEmpty then [] else ','.toUInt8 :: formatted format [' '.toUInt8]) ++
          elementsText next depth)

def membersText : List (List UInt8 × Json.Tree (List UInt8) (Number D)) → Nat → List UInt8
  | [], _ => []
  | (string, item) :: next, depth =>
      formatted format (tabs depth) ++
        (quoted (escapeText (ofBuffer string).bytes) ++
          (':'.toUInt8 :: formatted format ['\t'.toUInt8] ++
            (valueText item depth ++
              ((if next.isEmpty then [] else [','.toUInt8]) ++ formatted format ['\n'.toUInt8] ++
                membersText next depth))))

end

theorem zero_notMem_formatted {text : List UInt8} (h : (0 : UInt8) ∉ text) :
    (0 : UInt8) ∉ formatted format text := by
  rw [formatted]
  split
  · exact h
  · simp

theorem zero_notMem_tabs (depth : Nat) : (0 : UInt8) ∉ tabs depth := by
  intro hmem
  exact absurd (List.eq_of_mem_replicate hmem) (by decide)

mutual

theorem zero_notMem_valueText : ∀ (item : Json.Tree (List UInt8) (Number D)) (depth : Nat),
    (0 : UInt8) ∉ valueText num fmt format item depth
  | .null, _ => (by decide : (0 : UInt8) ∉ word ['n', 'u', 'l', 'l'])
  | .false, _ => (by decide : (0 : UInt8) ∉ word ['f', 'a', 'l', 's', 'e'])
  | .true, _ => (by decide : (0 : UInt8) ∉ word ['t', 'r', 'u', 'e'])
  | .number x, _ => (numberText_cases num fmt x).2
  | .string s, _ => zero_notMem_quoted (zero_notMem_escapeText _)
  | .array child, depth => by
      have hchild := zero_notMem_elementsText child (depth + 1)
      have hbrackets : (0 : UInt8) ≠ '['.toUInt8 ∧ (0 : UInt8) ≠ ']'.toUInt8 := by decide
      simp [valueText, bracketed, hchild, hbrackets]
  | .object child, depth => by
      have hchild := zero_notMem_membersText child (depth + 1)
      have hline : (0 : UInt8) ∉ formatted format ['\n'.toUInt8] :=
        zero_notMem_formatted format (by decide)
      have htabs := zero_notMem_formatted format (zero_notMem_tabs depth)
      have hbrackets : (0 : UInt8) ≠ '\x7b'.toUInt8 ∧ (0 : UInt8) ≠ '\x7d'.toUInt8 := by decide
      simp [valueText, bracketed, hchild, hline, htabs, hbrackets]

theorem zero_notMem_elementsText : ∀ (items : List (Json.Tree (List UInt8) (Number D)))
    (depth : Nat), (0 : UInt8) ∉ elementsText num fmt format items depth
  | [], _ => by simp [elementsText]
  | item :: next, depth => by
      have hitem := zero_notMem_valueText item depth
      have hnext := zero_notMem_elementsText next depth
      have hblank : (0 : UInt8) ∉ formatted format [' '.toUInt8] :=
        zero_notMem_formatted format (by decide)
      have hcomma : (0 : UInt8) ≠ ','.toUInt8 := by decide
      rw [elementsText, List.mem_append, List.mem_append]
      split
      · simp [hitem, hnext]
      · simp [hitem, hnext, hblank, hcomma]

theorem zero_notMem_membersText :
    ∀ (members : List (List UInt8 × Json.Tree (List UInt8) (Number D))) (depth : Nat),
      (0 : UInt8) ∉ membersText num fmt format members depth
  | [], _ => by simp [membersText]
  | (string, item) :: next, depth => by
      have hitem := zero_notMem_valueText item depth
      have hnext := zero_notMem_membersText next depth
      have hname := zero_notMem_quoted (zero_notMem_escapeText (ofBuffer string))
      have htabs := zero_notMem_formatted format (zero_notMem_tabs depth)
      have htab : (0 : UInt8) ∉ formatted format ['\t'.toUInt8] :=
        zero_notMem_formatted format (by decide)
      have hline : (0 : UInt8) ∉ formatted format ['\n'.toUInt8] :=
        zero_notMem_formatted format (by decide)
      have hcolon : (0 : UInt8) ≠ ':'.toUInt8 := by decide
      have hcomma : (0 : UInt8) ≠ ','.toUInt8 := by decide
      rw [membersText]
      split
      · simp [hitem, hnext, hname, htabs, htab, hline, hcolon]
      · simp [hitem, hnext, hname, htabs, htab, hline, hcolon, hcomma]

end

end Texts

section Reaches

open PrintBuffer

variable {num fmt} {p : PrintBuffer} {done ahead : List UInt8}

/-- Some text whose last bytes the offset is not moved over yet. -/
theorem emit_updateOffset_reaches (h : p.Holds done ahead) {advance : Nat} {text : List UInt8}
    (hadvance : advance ≤ text.length) (hnul : (0 : UInt8) ∉ text) :
    p.Reaches (done.length + text.length + 2) p.depth (done ++ text) [0]
        (p.emit (text.length + 1) (text ++ [0]) advance >>= updateOffset) ∧
      (p.capacity < done.length + text.length + 2 →
        p.emit (text.length + 1) (text ++ [0]) advance = .error .fails) := by
  have hbytes : (text ++ [0]).length = text.length + 1 := by simp
  obtain ⟨hemit, hfails⟩ := emit_reaches h (by omega : (text ++ [0]).length ≤ text.length + 1 + 1)
    (by omega : advance ≤ (text ++ [0]).length) (by omega)
  rw [List.take_append_of_le_length hadvance, List.drop_append_of_le_length hadvance] at hemit
  refine ⟨hemit.bind (Nat.le_refl _) fun p' h' => ?_, hfails⟩
  have hupdate := updateOffset_reaches h'.holds (fun hmem => hnul (List.mem_of_mem_drop hmem))
    (done.length + text.length + 2)
  rwa [h'.depth_eq, List.append_assoc, List.take_append_drop] at hupdate

theorem emit_text_reaches (h : p.Holds done ahead) (text : List UInt8) {n : Nat}
    (hn : n = text.length) :
    p.Reaches (done.length + text.length + 1) p.depth (done ++ text) [] (p.emit n text n) := by
  subst hn
  have hemit := (emit_reaches h (Nat.le_succ text.length) (Nat.le_refl _) (Nat.le_refl _)).1
  rwa [List.take_length, List.drop_length] at hemit

theorem emit_separator_reaches (h : p.Holds done ahead) (text : List UInt8) {n : Nat}
    (hn : n = text.length) :
    p.Reaches (done.length + text.length + 2) p.depth (done ++ text) []
      (p.emit (n + 1) (text ++ [0]) n) := by
  subst hn
  have hbytes : (text ++ [0]).length = text.length + 1 := by simp
  have hemit := (emit_reaches h (by omega : (text ++ [0]).length ≤ text.length + 1 + 1)
    (by omega : text.length ≤ (text ++ [0]).length) (Nat.le_succ _)).1
  rw [List.take_left] at hemit
  exact hemit.nil

/-- Only the depth is another one. -/
theorem setDepth_reaches {need depth depth' : Nat} {result : Except Stop PrintBuffer}
    (h : ({ p with depth := depth' } : PrintBuffer).Reaches need depth done ahead result) :
    p.Reaches need depth done ahead result :=
  ⟨fun hneed => (h.ok_of_le hneed).imp fun _ h' => ⟨h'.1, { h'.2 with }⟩,
    h.ok_or_fails.imp (Exists.imp fun _ h' => ⟨h'.1, { h'.2 with }⟩) id⟩

/-- An opening text, a body at the next depth, and a closing text. -/
theorem brackets_reaches (h : p.Holds done ahead) (body : PrintBuffer → Except Stop PrintBuffer)
    (needed : PrintBuffer → Nat) (bytes : PrintBuffer → List UInt8) {opening inner : List UInt8}
    (closing : List UInt8) {n m : Nat}
    (hm : m = opening.length) (hmn : m ≤ n) (hn : n ≤ m + 1)
    (hbody : ∀ p' : PrintBuffer, p'.Holds (done ++ opening) [] → p'.format = p.format →
      p'.depth = p.depth + 1 →
        p'.Reaches ((done ++ opening).length + inner.length + 2) (p.depth + 1)
          ((done ++ opening) ++ inner) [] (body p'))
    (hneeded : ∀ p' : PrintBuffer, p'.format = p.format → p'.depth = p.depth + 1 →
      needed p' = closing.length + 1 ∧ bytes p' = closing ++ [0])
    (hnul : (0 : UInt8) ∉ closing) :
    let result := do
      let p ← p.emit n opening m
      let p ← body { p with depth := p.depth + 1 }
      let p ← p.emit (needed p) (bytes p) 0
      (.ok { p with depth := p.depth - 1 } : Except Stop PrintBuffer)
    p.Reaches (done.length + (opening ++ (inner ++ closing)).length + 2) p.depth
        (done ++ (opening ++ (inner ++ closing))) [0] (result >>= updateOffset) ∧
      (p.capacity < done.length + (opening ++ (inner ++ closing)).length + 2 →
        result = .error .fails) := by
  intro result
  subst hm
  have hlength : (opening ++ (inner ++ closing)).length =
      opening.length + (inner.length + closing.length) := by simp
  have hopen := (emit_reaches h (by omega : opening.length ≤ n + 1) (Nat.le_refl _) hmn).1
  rw [List.take_length, List.drop_length] at hopen
  have hinner : ∀ p₁, p.Leaves p.depth (done ++ opening) [] p₁ →
      p₁.Reaches (done.length + opening.length + inner.length + 2) (p.depth + 1)
        (done ++ opening ++ inner) [] (body { p₁ with depth := p₁.depth + 1 }) := by
    intro p₁ h₁
    have hreaches := hbody { p₁ with depth := p₁.depth + 1 } (h₁.holds.setDepth _) h₁.format_eq
      (congrArg (· + 1) h₁.depth_eq)
    rw [List.length_append] at hreaches
    exact setDepth_reaches hreaches
  have hbodies := hopen.bind (by omega :
    done.length + n + 1 ≤ done.length + opening.length + inner.length + 2) hinner
  have hclose : ∀ p₂, p.Leaves (p.depth + 1) (done ++ opening ++ inner) [] p₂ →
      p₂.Reaches (done.length + (opening ++ (inner ++ closing)).length + 2) (p.depth + 1)
          (done ++ opening ++ inner) (closing ++ [0]) (p₂.emit (needed p₂) (bytes p₂) 0) ∧
        (p₂.capacity < done.length + (opening ++ (inner ++ closing)).length + 2 →
          p₂.emit (needed p₂) (bytes p₂) 0 = .error .fails) := by
    intro p₂ h₂
    obtain ⟨hneeds, hbytes⟩ := hneeded p₂ h₂.format_eq h₂.depth_eq
    have hfits : (bytes p₂).length ≤ needed p₂ + 1 := by
      rw [hneeds, hbytes, List.length_append, List.length_singleton]
      exact Nat.le_succ _
    have hemit := emit_reaches h₂.holds hfits (Nat.zero_le (bytes p₂).length) (Nat.zero_le _)
    have hneed : (done ++ opening ++ inner).length + needed p₂ + 1 =
        done.length + (opening ++ (inner ++ closing)).length + 2 := by
      rw [hneeds, hlength]
      simp
      omega
    rw [hneed, List.take_zero, List.drop_zero, List.append_nil, h₂.depth_eq] at hemit
    rwa [hbytes] at hemit ⊢
  have hresult : result = (p.emit n opening opening.length >>= fun p₁ =>
      body { p₁ with depth := p₁.depth + 1 }) >>= fun p₂ => p₂.emit (needed p₂) (bytes p₂) 0 >>=
        fun p₃ => .ok { p₃ with depth := p₃.depth - 1 } := by
    rw [bind_assoc]
  rw [hresult]
  refine ⟨?_, fun hsmall => ?_⟩
  · rw [bind_assoc]
    refine hbodies.bind (by omega) fun p₂ h₂ => ?_
    rw [bind_assoc]
    refine (hclose p₂ h₂).1.bind (Nat.le_refl _) fun p₃ h₃ => ?_
    have hupdate := updateOffset_reaches (h₃.holds.setDepth (p₃.depth - 1)) hnul
      (done.length + (opening ++ (inner ++ closing)).length + 2)
    have hdepth : ({ p₃ with depth := p₃.depth - 1 } : PrintBuffer).depth = p.depth := by
      show p₃.depth - 1 = p.depth
      rw [h₃.depth_eq, Nat.add_sub_cancel]
    rw [hdepth, List.append_assoc, List.append_assoc] at hupdate
    exact setDepth_reaches hupdate
  · refine hbodies.bind_fails fun p₂ h₂ => ?_
    rw [(hclose p₂ h₂).2 (h₂.capacity_eq ▸ hsmall)]
    rfl

theorem printStringPtr_updateOffset_reaches (h : p.Holds done ahead) (input : CStr) :
    p.Reaches (done.length + (quoted (escapeText input.bytes)).length + 2) p.depth
      (done ++ quoted (escapeText input.bytes)) [0] (printStringPtr input p >>= updateOffset) := by
  refine (printStringPtr_reaches h input).1.bind (Nat.le_refl _) fun p' h' => ?_
  have hupdate := updateOffset_reaches h'.holds (zero_notMem_quoted (zero_notMem_escapeText input))
    (done.length + (quoted (escapeText input.bytes)).length + 2)
  rwa [h'.depth_eq] at hupdate

theorem printArray_reaches {elements : PrintBuffer → Except Stop PrintBuffer} {inner : List UInt8}
    (h : p.Holds done ahead)
    (helements : ∀ p' : PrintBuffer, p'.Holds (done ++ ['['.toUInt8]) [] → p'.format = p.format →
      p'.depth = p.depth + 1 →
        p'.Reaches ((done ++ ['['.toUInt8]).length + inner.length + 2) (p.depth + 1)
          ((done ++ ['['.toUInt8]) ++ inner) [] (elements p')) :
    p.Reaches (done.length + (bracketed '['.toUInt8 ']'.toUInt8 inner).length + 2) p.depth
        (done ++ bracketed '['.toUInt8 ']'.toUInt8 inner) [0]
        (printArray elements p >>= updateOffset) ∧
      (p.capacity < done.length + (bracketed '['.toUInt8 ']'.toUInt8 inner).length + 2 →
        printArray elements p = .error .fails) :=
  brackets_reaches h elements (fun _ => 2) (fun _ => [']'.toUInt8, 0]) [']'.toUInt8] rfl
    (Nat.le_refl _) (Nat.le_succ _) helements (fun _ _ _ => ⟨rfl, rfl⟩) (by decide)

theorem printObject_reaches {members : PrintBuffer → Except Stop PrintBuffer} {inner : List UInt8}
    (h : p.Holds done ahead)
    (hmembers : ∀ p' : PrintBuffer,
      p'.Holds (done ++ '\x7b'.toUInt8 :: formatted p.format ['\n'.toUInt8]) [] →
      p'.format = p.format → p'.depth = p.depth + 1 →
        p'.Reaches ((done ++ '\x7b'.toUInt8 :: formatted p.format ['\n'.toUInt8]).length +
            inner.length + 2) (p.depth + 1)
          ((done ++ '\x7b'.toUInt8 :: formatted p.format ['\n'.toUInt8]) ++ inner) []
          (members p')) :
    let text := bracketed '\x7b'.toUInt8 '\x7d'.toUInt8 (formatted p.format ['\n'.toUInt8] ++
      (inner ++ formatted p.format (tabs p.depth)))
    p.Reaches (done.length + text.length + 2) p.depth (done ++ text) [0]
        (printObject members p >>= updateOffset) ∧
      (p.capacity < done.length + text.length + 2 → printObject members p = .error .fails) := by
  intro text
  have htext : text = '\x7b'.toUInt8 :: formatted p.format ['\n'.toUInt8] ++
      (inner ++ (formatted p.format (tabs p.depth) ++ ['\x7d'.toUInt8])) := by
    simp [text, bracketed]
  have hclosing : ∀ p' : PrintBuffer, p'.format = p.format → p'.depth = p.depth + 1 →
      (if p'.format then p'.depth + 1 else 2) =
          (formatted p.format (tabs p.depth) ++ ['\x7d'.toUInt8]).length + 1 ∧
        (if p'.format then tabs (p'.depth - 1) else []) ++ ['\x7d'.toUInt8, 0] =
          formatted p.format (tabs p.depth) ++ ['\x7d'.toUInt8] ++ [0] := by
    intro p' hformat hdepth
    rw [hformat, hdepth, Nat.add_sub_cancel]
    cases p.format <;> simp [formatted, tabs]
  have hnul : (0 : UInt8) ∉ formatted p.format (tabs p.depth) ++ ['\x7d'.toUInt8] := by
    have hbrace : (0 : UInt8) ≠ '\x7d'.toUInt8 := by decide
    simp [zero_notMem_formatted _ (zero_notMem_tabs _), hbrace]
  have hopening : (if p.format then 2 else 1) =
      ('\x7b'.toUInt8 :: formatted p.format ['\n'.toUInt8]).length := by
    cases p.format <;> rfl
  rw [htext]
  exact brackets_reaches h members (fun p => if p.format then p.depth + 1 else 2)
    (fun p => (if p.format then tabs (p.depth - 1) else []) ++ ['\x7d'.toUInt8, 0]) _ hopening
    (Nat.le_succ _) (Nat.le_refl _) hmembers hclosing hnul

theorem separator_reaches (h : p.Holds done ahead) (last : Bool) (text : List UInt8) {n : Nat}
    (hn : n = text.length) :
    p.Reaches (done.length + (if last then [] else text).length + 2) p.depth
      (done ++ if last then [] else text) []
      (if last then pure p else p.emit (n + 1) (text ++ [0]) n) := by
  cases last with
  | true =>
      simp only [if_true, List.append_nil]
      exact .ok ⟨h.nil, rfl, rfl, rfl⟩ _
  | false => exact emit_separator_reaches h text hn

variable (num fmt)

mutual

/-- One case for each kind of item. -/
theorem printValue_reaches : ∀ (item : Json.Tree (List UInt8) (Number D)) {p : PrintBuffer}
    {done ahead : List UInt8}, p.Holds done ahead →
    p.Reaches (done.length + (valueText num fmt p.format item p.depth).length + 2) p.depth
        (done ++ valueText num fmt p.format item p.depth) [0]
        (printValue num fmt item p >>= updateOffset) ∧
      (p.capacity < done.length + (valueText num fmt p.format item p.depth).length + 2 →
        printValue num fmt item p = .error .fails)
  | .null, _, _, _, h => emit_updateOffset_reaches h (Nat.zero_le _)
      (by decide : (0 : UInt8) ∉ word ['n', 'u', 'l', 'l'])
  | .false, _, _, _, h => emit_updateOffset_reaches h (Nat.zero_le _)
      (by decide : (0 : UInt8) ∉ word ['f', 'a', 'l', 's', 'e'])
  | .true, _, _, _, h => emit_updateOffset_reaches h (Nat.zero_le _)
      (by decide : (0 : UInt8) ∉ word ['t', 'r', 'u', 'e'])
  | .number x, p, _, _, h => by
      rw [valueText, printValue, printNumber_eq]
      exact emit_updateOffset_reaches h (Nat.le_refl _) (numberText_cases num fmt x).2
  | .string s, _, _, _, h =>
      ⟨printStringPtr_updateOffset_reaches h (ofBuffer s),
        (printStringPtr_reaches h (ofBuffer s)).2⟩
  | .array child, p, done, _, h => by
      rw [valueText, printValue]
      refine printArray_reaches h fun p' h' hformat hdepth => ?_
      have hchild := printElements_reaches child h'
      rwa [hformat, hdepth] at hchild
  | .object child, p, done, _, h => by
      rw [valueText, printValue]
      refine printObject_reaches h fun p' h' hformat hdepth => ?_
      have hchild := printMembers_reaches child h'
      rwa [hformat, hdepth] at hchild

theorem printElements_reaches : ∀ (items : List (Json.Tree (List UInt8) (Number D)))
    {p : PrintBuffer} {done : List UInt8}, p.Holds done [] →
    p.Reaches (done.length + (elementsText num fmt p.format items p.depth).length + 2) p.depth
      (done ++ elementsText num fmt p.format items p.depth) [] (printElements num fmt items p)
  | [], p, done, h => by
      rw [elementsText, printElements, List.append_nil]
      exact .ok ⟨h, rfl, rfl, rfl⟩ _
  | item :: next, p, done, h => by
      rw [elementsText, printElements]
      refine (printValue_reaches item h).1.bind_bind ?_ fun p₁ h₁ => ?_
      · simp only [List.length_append]
        omega
      have hseparator := separator_reaches h₁.holds next.isEmpty
        (','.toUInt8 :: formatted p.format [' '.toUInt8]) (n := if p.format then 2 else 1)
        (by cases p.format <;> rfl)
      rw [h₁.depth_eq] at hseparator
      rw [h₁.format_eq]
      refine hseparator.bind ?_ fun p₂ h₂ => ?_
      · simp only [List.length_append]
        omega
      have hnext := printElements_reaches next h₂.holds
      rw [h₂.depth_eq, h₂.format_eq.trans h₁.format_eq] at hnext
      simpa only [List.append_assoc, List.length_append, Nat.add_assoc] using hnext

theorem printMembers_reaches :
    ∀ (members : List (List UInt8 × Json.Tree (List UInt8) (Number D))) {p : PrintBuffer}
      {done : List UInt8}, p.Holds done [] →
    p.Reaches (done.length + (membersText num fmt p.format members p.depth).length + 2) p.depth
      (done ++ membersText num fmt p.format members p.depth) [] (printMembers num fmt members p)
  | [], p, done, h => by
      rw [membersText, printMembers, List.append_nil]
      exact .ok ⟨h, rfl, rfl, rfl⟩ _
  | (string, item) :: next, p, done, h => by
      rw [membersText, printMembers]
      have hindent : p.Reaches (done.length + (formatted p.format (tabs p.depth)).length + 2)
          p.depth (done ++ formatted p.format (tabs p.depth)) []
          (if p.format then p.emit p.depth (tabs p.depth) p.depth else pure p) := by
        cases hformat : p.format with
        | false => exact .ok ⟨by simpa [formatted] using h, rfl, rfl, rfl⟩ _
        | true =>
            have hemit := emit_text_reaches h (tabs p.depth) List.length_replicate.symm
            exact hemit.weaken (Nat.le_succ _)
      refine hindent.bind ?_ fun p₁ h₁ => ?_
      · simp only [List.length_append]
        omega
      have hname := printStringPtr_updateOffset_reaches h₁.holds (ofBuffer string)
      rw [h₁.depth_eq] at hname
      refine hname.bind_bind ?_ fun p₂ h₂ => ?_
      · simp only [List.length_append]
        omega
      have hformat₂ : p₂.format = p.format := h₂.format_eq.trans h₁.format_eq
      have hcolon := emit_text_reaches h₂.holds
        (':'.toUInt8 :: formatted p.format ['\t'.toUInt8]) (n := if p.format then 2 else 1)
        (by cases p.format <;> rfl)
      rw [h₂.depth_eq] at hcolon
      rw [hformat₂]
      refine hcolon.bind ?_ fun p₃ h₃ => ?_
      · simp only [List.length_append]
        omega
      have hformat₃ : p₃.format = p.format := h₃.format_eq.trans hformat₂
      have hvalue := (printValue_reaches item h₃.holds).1
      rw [h₃.depth_eq, hformat₃] at hvalue
      refine hvalue.bind_bind ?_ fun p₄ h₄ => ?_
      · simp only [List.length_append]
        omega
      have hformat₄ : p₄.format = p.format := h₄.format_eq.trans hformat₃
      have hend := emit_separator_reaches h₄.holds
        ((if next.isEmpty then [] else [','.toUInt8]) ++ formatted p.format ['\n'.toUInt8])
        (n := (if p.format then 1 else 0) + if next.isEmpty then 0 else 1)
        (by cases p.format <;> cases next <;> rfl)
      rw [h₄.depth_eq] at hend
      rw [hformat₄]
      refine hend.bind ?_ fun p₅ h₅ => ?_
      · simp only [List.length_append]
        omega
      have hnext := printMembers_reaches next h₅.holds
      rw [h₅.depth_eq, h₅.format_eq.trans hformat₄] at hnext
      simpa only [List.append_assoc, List.length_append, Nat.add_assoc] using hnext

end

end Reaches

end Values

variable {D : Type} (num : Numbers D) (fmt : Formats D)

theorem updateOffset_buffer {p p' : PrintBuffer} (h : p.updateOffset = .ok p') :
    p'.buffer = p.buffer := by
  rw [PrintBuffer.updateOffset] at h
  split at h
  · cases h
  · cases h
    rfl

/-- A print from the start of a buffer: the block holds the text as a C string, or there
is no room for the text and two bytes more. -/
theorem printValue_start (item : Item D) {p : PrintBuffer} (h : p.Holds [] [])
    (hdepth : p.depth = 0) :
    ((valueText num fmt p.format item 0).length + 2 ≤ p.capacity → ∃ p' rest,
      printValue num fmt item p = .ok p' ∧
        p'.buffer = (valueText num fmt p.format item 0 ++ [0]).map some ++ rest) ∧
    (p.capacity < (valueText num fmt p.format item 0).length + 2 →
      printValue num fmt item p = .error .fails) := by
  obtain ⟨hreaches, hfails⟩ := printValue_reaches num fmt item h
  rw [hdepth, List.length_nil, Nat.zero_add, List.nil_append] at hreaches
  rw [hdepth, List.length_nil, Nat.zero_add] at hfails
  refine ⟨fun hroom => ?_, hfails⟩
  obtain ⟨p₂, hprint, hleaves⟩ := hreaches.ok_of_le hroom
  obtain ⟨rest, hbuffer⟩ := hleaves.holds.buffer
  cases hvalue : printValue num fmt item p with
  | error stop =>
      rw [hvalue] at hprint
      cases hprint
  | ok p₁ =>
      rw [hvalue] at hprint
      exact ⟨p₁, rest, rfl, by rw [← updateOffset_buffer hprint, hbuffer]⟩

theorem holds_start {buffer : List (Option UInt8)} {length : Nat} (hlength : buffer.length = length)
    (hle : length ≤ intMax) (noalloc format : Bool) :
    ({ buffer := buffer, length := length, offset := 0, depth := 0, noalloc := noalloc,
       format := format } : PrintBuffer).Holds [] [] :=
  ⟨⟨buffer, rfl⟩, rfl, hlength, Or.inl rfl, hle⟩

/-- `cJSON_Print` returns the text of the item in a block of just its size, unless the text
does not fit into `INT_MAX` bytes. The allocations succeed. -/
theorem print_eq (format : Bool) (item : Item D) :
    print num fmt format item =
      if (valueText num fmt format item 0).length + 2 ≤ intMax then
        .ok ((valueText num fmt format item 0 ++ [0]).map some)
      else .error .fails := by
  have hstart := holds_start (List.length_replicate (n := 256) (a := none)) (by decide) false format
  obtain ⟨hreaches, hfails⟩ := printValue_reaches num fmt item hstart
  rw [List.length_nil, Nat.zero_add, List.nil_append] at hreaches
  rw [List.length_nil, Nat.zero_add] at hfails
  split
  · rename_i hroom
    obtain ⟨p₂, hprint, hleaves⟩ := hreaches.ok_of_le hroom
    obtain ⟨rest, hbuffer⟩ := hleaves.holds.buffer
    have hblock : realloc none (p₂.offset + 1) p₂.buffer =
        (valueText num fmt format item 0 ++ [0]).map some := by
      have hlength :
          p₂.offset + 1 = ((valueText num fmt format item 0 ++ [0]).map some).length := by
        rw [hleaves.holds.offset, List.length_map, List.length_append]
        rfl
      rw [realloc, hbuffer, hlength, List.take_left, List.length_append, Nat.sub_eq_zero_of_le
        (Nat.le_add_right _ _), List.replicate_zero, List.append_nil]
    rw [print, ← bind_assoc]
    have hprint : (printValue num fmt item _ >>= PrintBuffer.updateOffset) = .ok p₂ := hprint
    rw [hprint, ← hblock]
    rfl
  · rename_i hroom
    rw [print]
    have hfails : printValue num fmt item _ = .error .fails := hfails (Nat.lt_of_not_le hroom)
    rw [hfails]
    rfl

/-- Numbers that are their own texts are printed as these. A text that is no integer stands
for NaN. -/
def textFormats : Formats (List UInt8) where
  isNanOrInf text := decide (text ≠ decimal (saturate (textNumbers.trunc text)))
  eqInt text n := decide (text = decimal n)
  g15 text := ofBuffer (text.take 25)
  g17 text := ofBuffer (text.take 25)
  compareDouble a b := decide (a = b)
  g15_le _ := (List.takeWhile_prefix _).length_le.trans (List.length_take_le _ _)
  g17_le _ := (List.takeWhile_prefix _).length_le.trans (List.length_take_le _ _)

end CHomework.CJson
