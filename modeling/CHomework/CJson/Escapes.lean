import CHomework.CJson.Output

/-!
The strings of the printer. The number of escapes that the first pass counts is the room
that the second pass takes.
-/

namespace CHomework.CJson

open CHomework.Buffer CHomework.CString CHomework.Json

/-- What is printed for a byte of a string. -/
def escapeByte (byte : UInt8) : List UInt8 :=
  if 31 < byte ∧ byte ≠ '"'.toUInt8 ∧ byte ≠ '\\'.toUInt8 then [byte]
  else
    match escapeLetter byte with
    | some letter => escaped letter []
    | none => '\\'.toUInt8 :: codePointText byte

def escapeText (input : List UInt8) : List UInt8 := input.flatMap escapeByte

theorem forall_byte {P : UInt8 → Prop} (h : ∀ n < 256, P (UInt8.ofNat n)) (byte : UInt8) :
    P byte := by
  rw [← UInt8.ofNat_toNat (x := byte)]
  exact h _ byte.toNat_lt

theorem length_escapeByte (byte : UInt8) : (escapeByte byte).length = escapeLength byte + 1 :=
  forall_byte (P := fun byte => (escapeByte byte).length = escapeLength byte + 1)
    (by decide +kernel) byte

theorem escapeByte_of_escapeLength {byte : UInt8} (h : escapeLength byte = 0) :
    escapeByte byte = [byte] :=
  forall_byte (P := fun byte => escapeLength byte = 0 → escapeByte byte = [byte])
    (by decide +kernel) byte h

theorem zero_notMem_escapeByte {byte : UInt8} (h : byte ≠ 0) : (0 : UInt8) ∉ escapeByte byte :=
  forall_byte (P := fun byte => byte ≠ 0 → (0 : UInt8) ∉ escapeByte byte)
    (by decide +kernel) byte h

theorem length_escapeText (input : List UInt8) :
    (escapeText input).length = input.length + escapeCharacters input := by
  induction input with
  | nil => rfl
  | cons byte input ih =>
      rw [escapeText, List.flatMap_cons, List.length_append, length_escapeByte, ← escapeText, ih,
        List.length_cons, escapeCharacters]
      omega

/-- Without an escape the string is copied at once, which comes to the same. -/
theorem escapeText_of_escapeCharacters {input : List UInt8} (h : escapeCharacters input = 0) :
    escapeText input = input := by
  induction input with
  | nil => rfl
  | cons byte input ih =>
      rw [escapeCharacters] at h
      rw [escapeText, List.flatMap_cons, ← escapeText, ih (by omega),
        escapeByte_of_escapeLength (by omega)]
      rfl

theorem zero_notMem_escapeText (s : CStr) : (0 : UInt8) ∉ escapeText s.bytes := by
  rw [escapeText, List.mem_flatMap]
  rintro ⟨byte, hbyte, hmem⟩
  refine zero_notMem_escapeByte ?_ hmem
  rintro rfl
  exact s.noNul hbyte

theorem zero_notMem_quoted {text : List UInt8} (h : (0 : UInt8) ∉ text) :
    (0 : UInt8) ∉ quoted text := by
  have hquote : (0 : UInt8) ≠ '"'.toUInt8 := by decide
  simp [quoted, h, hquote]

section Buffer

open PrintBuffer

variable {p : PrintBuffer} {done ahead : List UInt8}

/-- The induction is on the string that is left. -/
theorem escapeLoop_holds (input : List UInt8) (h : p.Holds done ahead)
    (hfits : done.length + ahead.length + (escapeText input).length + 1 ≤ p.length) :
    ∃ p', escapeLoop input (done.length + ahead.length) p = .ok p' ∧
      p.Leaves p.depth done (ahead ++ escapeText input) p' ∧ p'.length = p.length := by
  induction input generalizing p ahead with
  | nil =>
      rw [escapeText, List.flatMap_nil, List.append_nil]
      exact ⟨p, rfl, ⟨h, rfl, rfl, rfl⟩, rfl⟩
  | cons byte input ih =>
      rw [escapeText, List.flatMap_cons, ← escapeText, List.length_append] at hfits
      rw [escapeText, List.flatMap_cons, ← escapeText]
      -- A loop that goes on from a buffer with the bytes of this escape.
      have hrest : ∀ p₁, p.Leaves p.depth done (ahead ++ escapeByte byte) p₁ →
          p₁.length = p.length → ∃ p',
            escapeLoop input (done.length + ahead.length + (escapeByte byte).length) p₁ = .ok p' ∧
              p.Leaves p.depth done (ahead ++ (escapeByte byte ++ escapeText input)) p' ∧
              p'.length = p.length := by
        intro p₁ h₁ hlength
        obtain ⟨p₂, hloop, h₂, hlength₂⟩ :=
          ih h₁.holds (by rw [List.length_append, hlength]; omega)
        rw [List.length_append, ← Nat.add_assoc] at hloop
        rw [List.append_assoc] at h₂
        exact ⟨p₂, hloop, h₁.trans h₂, hlength₂.trans hlength⟩
      by_cases hplain : 31 < byte ∧ byte ≠ '"'.toUInt8 ∧ byte ≠ '\\'.toUInt8
      · have hbyte : escapeByte byte = [byte] := if_pos hplain
        rw [hbyte] at hfits hrest ⊢
        obtain ⟨p₁, hwrite, h₁, hlength, -⟩ := write_holds h [byte]
          (by rw [List.length_singleton] at *; omega)
        obtain ⟨p₂, hloop, h₂⟩ := hrest p₁ h₁ hlength
        refine ⟨p₂, ?_, h₂⟩
        rw [escapeLoop, if_pos hplain, hwrite]
        exact hloop
      · have hback : ∀ bytes, ahead ++ '\\'.toUInt8 :: bytes =
            ahead ++ ['\\'.toUInt8] ++ bytes := by simp
        have hfirst : done.length + ahead.length + ['\\'.toUInt8].length ≤ p.length := by
          have hpos : 0 < (escapeByte byte).length := by
            rw [length_escapeByte]
            exact Nat.succ_pos _
          rw [List.length_singleton]
          omega
        obtain ⟨p₁, hwrite, h₁, hlength, -⟩ := write_holds h _ hfirst
        rw [escapeLoop, if_neg hplain, hwrite]
        have hindex : done.length + ahead.length + 1 =
            done.length + (ahead ++ ['\\'.toUInt8]).length := by
          rw [List.length_append, List.length_singleton, Nat.add_assoc]
        cases hletter : escapeLetter byte with
        | some letter =>
            have hbyte : escapeByte byte = ['\\'.toUInt8, letter] := by
              rw [escapeByte, if_neg hplain, hletter]
              rfl
            rw [hbyte] at hfits hrest ⊢
            obtain ⟨p₂, hwrite₂, h₂, hlength₂, -⟩ := write_holds h₁.holds [letter]
              (by rw [← hindex, hlength, List.length_singleton]; simp at hfits; omega)
            rw [← hindex] at hwrite₂
            have hleaves : p.Leaves p.depth done (ahead ++ ['\\'.toUInt8, letter]) p₂ := by
              rw [hback]
              exact h₁.trans h₂
            obtain ⟨p₃, hloop, h₃⟩ := hrest p₂ hleaves (hlength₂.trans hlength)
            refine ⟨p₃, ?_, h₃⟩
            show (p₁.write _ [letter] >>= _) = _
            rw [hwrite₂]
            exact hloop
        | none =>
            have hbyte : escapeByte byte = '\\'.toUInt8 :: codePointText byte := by
              rw [escapeByte, if_neg hplain, hletter]
            rw [hbyte] at hfits hrest ⊢
            obtain ⟨p₂, hwrite₂, h₂, hlength₂, -⟩ :=
              write_holds h₁.holds (codePointText byte ++ [0])
                (by rw [← hindex, hlength]; simp [codePointText] at hfits ⊢; omega)
            rw [← hindex] at hwrite₂
            have hstored := h₂.holds
            rw [← List.append_assoc] at hstored
            have hleaves :
                p.Leaves p.depth done (ahead ++ '\\'.toUInt8 :: codePointText byte) p₂ := by
              rw [hback]
              exact { h₁.trans h₂ with holds := hstored.forget }
            obtain ⟨p₃, hloop, h₃⟩ := hrest p₂ hleaves (hlength₂.trans hlength)
            refine ⟨p₃, ?_, h₃⟩
            show (p₁.write _ (codePointText byte ++ [0]) >>= _) = _
            rw [hwrite₂]
            exact hloop

/-- A string is printed between quotes, with a terminator, or there is no room for it. -/
theorem printStringPtr_reaches (h : p.Holds done ahead) (input : CStr) :
    p.Reaches (done.length + (quoted (escapeText input.bytes)).length + 2) p.depth done
      (quoted (escapeText input.bytes) ++ [0]) (printStringPtr input p) ∧
    (p.capacity < done.length + (quoted (escapeText input.bytes)).length + 2 →
      printStringPtr input p = .error .fails) := by
  have hlength : (quoted (escapeText input.bytes)).length =
      strlen input + escapeCharacters input.bytes + 2 := by
    simp [quoted, length_escapeText, strlen]
  obtain ⟨hok, hfails⟩ :=
    ensure_reaches h.nil (strlen input + escapeCharacters input.bytes + 3)
  refine Reaches.of_room (fun hneed => ?_) fun hsmall => ?_
  · obtain ⟨p₁, hensure, h₁, hroom⟩ := hok (by omega)
    rw [printStringPtr, hensure]
    show ∃ p', (if escapeCharacters input.bytes = 0 then _ else _) = Except.ok p' ∧ _
    rw [h₁.holds.offset]
    by_cases hnone : escapeCharacters input.bytes = 0
    · have hplain := escapeText_of_escapeCharacters hnone
      rw [if_pos hnone]
      obtain ⟨p₂, hwrite, h₂, -⟩ :=
        write_holds h₁.holds ('"'.toUInt8 :: (input.bytes ++ ['"'.toUInt8, 0]))
          (by simp [strlen] at hroom ⊢; omega)
      have hquoted : quoted (escapeText input.bytes) ++ [0] =
          [] ++ '"'.toUInt8 :: (input.bytes ++ ['"'.toUInt8, 0]) := by
        simp [quoted, hplain]
      rw [hquoted]
      exact ⟨p₂, hwrite, h₁.trans h₂⟩
    · rw [if_neg hnone]
      obtain ⟨p₂, hopening, h₂, hlength₂, -⟩ := write_holds h₁.holds ['"'.toUInt8]
        (by simp; omega)
      obtain ⟨p₃, hloop, h₃, hlength₃⟩ := escapeLoop_holds input.bytes h₂.holds
        (by rw [length_escapeText]; simp [strlen] at hroom ⊢; omega)
      obtain ⟨p₄, hclosing, h₄, -⟩ := write_holds h₃.holds ['"'.toUInt8, 0]
        (by rw [List.length_append, length_escapeText]; simp [strlen] at hroom ⊢; omega)
      have hindex : done.length + (strlen input + escapeCharacters input.bytes) + 1 =
          done.length + (([] ++ ['"'.toUInt8]) ++ escapeText input.bytes).length := by
        rw [List.length_append, length_escapeText, strlen]
        simp
        omega
      have hquoted : quoted (escapeText input.bytes) ++ [0] =
          ([] ++ ['"'.toUInt8]) ++ escapeText input.bytes ++ ['"'.toUInt8, 0] := by
        simp [quoted]
      rw [hquoted]
      refine ⟨p₄, ?_, h₁.trans (h₂.trans (h₃.trans h₄))⟩
      · show (p₁.write done.length ['"'.toUInt8] >>= _) = _
        have hopening : p₁.write done.length ['"'.toUInt8] = .ok p₂ := hopening
        have hloop : escapeLoop input.bytes (done.length + 1) p₂ = .ok p₃ := hloop
        rw [hopening]
        show (escapeLoop input.bytes (done.length + 1) p₂ >>= _) = _
        rw [hloop]
        show p₃.write _ _ = _
        rw [hindex]
        exact hclosing
  · rw [printStringPtr, hfails (by omega)]
    rfl

end Buffer

end CHomework.CJson
