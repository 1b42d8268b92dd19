import Mathlib.Data.List.TakeWhile

/-!
C strings and the comparison functions of `string.h`. A string is the list of
its bytes before the terminator, so the end of a list reads as a NUL.
-/

namespace CHomework.CString

/-- A C string. No byte before the terminator is NUL. -/
structure CStr where
  bytes : List UInt8
  noNul : (0 : UInt8) ∉ bytes
  deriving DecidableEq

/-- The string that a buffer holds ends at its first NUL. -/
def ofBuffer (buffer : List UInt8) : CStr where
  bytes := buffer.takeWhile (· != 0)
  noNul := by
    intro hmem
    have hne := List.mem_takeWhile_imp hmem
    simp at hne

/-- Read a string out of a buffer. Without a terminator the reader leaves it. -/
def readString (buffer : List UInt8) : Option CStr :=
  if 0 ∈ buffer then some (ofBuffer buffer) else none

theorem CStr.ext_bytes {s t : CStr} (h : s.bytes = t.bytes) : s = t := by
  cases s
  cases t
  simpa using h

theorem ofBuffer_bytes (s : CStr) : ofBuffer s.bytes = s := by
  apply CStr.ext_bytes
  apply List.takeWhile_eq_self_iff.mpr
  intro byte hbyte
  have hne : byte ≠ 0 := by
    rintro rfl
    exact s.noNul hbyte
  simpa using hne

theorem ofBuffer_append_replicate (bytes : List UInt8) (n : Nat) :
    ofBuffer (bytes ++ List.replicate n 0) = ofBuffer bytes := by
  apply CStr.ext_bytes
  show (bytes ++ List.replicate n 0).takeWhile (· != 0) = bytes.takeWhile (· != 0)
  have hzeros : (List.replicate n (0 : UInt8)).takeWhile (· != 0) = [] := by
    cases n with
    | zero => rfl
    | succ n => simp [List.replicate_succ]
  rw [List.takeWhile_append, hzeros, List.append_nil]
  split
  · rename_i hlen
    exact ((List.takeWhile_prefix _).eq_of_length hlen).symm
  · rfl

/-- Bytes at the start of a zeroed buffer are read up to their first NUL. Without
one the reader stays inside only when they leave room. -/
theorem readString_append_replicate_eq (bytes : List UInt8) (n : Nat) :
    readString (bytes ++ List.replicate n 0) =
      if n = 0 ∧ 0 ∉ bytes then none else some (ofBuffer bytes) := by
  have hmem : 0 ∈ bytes ++ List.replicate n 0 ↔ ¬ (n = 0 ∧ 0 ∉ bytes) := by
    rw [List.mem_append, List.mem_replicate]
    by_cases hnul : (0 : UInt8) ∈ bytes
    · simp [hnul]
    · simp [hnul]
  rw [readString, ofBuffer_append_replicate]
  split
  · rename_i hfits
    rw [if_neg (hmem.mp hfits)]
  · rename_i hfull
    rw [if_pos (Classical.not_not.mp fun h => hfull (hmem.mpr h))]

theorem readString_zeroed_eq {bytes : List UInt8} {size : Nat} (h : bytes.length ≤ size) :
    readString (bytes ++ List.replicate (size - bytes.length) 0) =
      if bytes.length = size ∧ 0 ∉ bytes then none else some (ofBuffer bytes) := by
  have hfull : size - bytes.length = 0 ↔ bytes.length = size := by
    omega
  simp only [readString_append_replicate_eq, hfull]

theorem readString_append_replicate (s : CStr) {n : Nat} (hn : 0 < n) :
    readString (s.bytes ++ List.replicate n 0) = some s := by
  rw [readString_append_replicate_eq, if_neg (by omega), ofBuffer_bytes]

def strlen (s : CStr) : Nat := s.bytes.length

/-- Compare at most `n` bytes. The comparison stops at the first difference
and at a common terminator. -/
def strncmpBytes : List UInt8 → List UInt8 → Nat → Int
  | _, _, 0 => 0
  | [], [], _ + 1 => 0
  | [], b :: _, _ + 1 => -(b.toNat : Int)
  | a :: _, [], _ + 1 => a.toNat
  | a :: s, b :: t, n + 1 =>
      if a = b then strncmpBytes s t n else (a.toNat : Int) - b.toNat

def strncmp (s t : CStr) (n : Nat) : Int := strncmpBytes s.bytes t.bytes n

def strcmpBytes : List UInt8 → List UInt8 → Int
  | [], [] => 0
  | [], b :: _ => -(b.toNat : Int)
  | a :: _, [] => a.toNat
  | a :: s, b :: t => if a = b then strcmpBytes s t else (a.toNat : Int) - b.toNat

def strcmp (s t : CStr) : Int := strcmpBytes s.bytes t.bytes

/-- `strcmp` of what starts this memory with a string. It reads up to the first
difference, and has no result when it leaves the memory before. -/
def strcmpIn : List UInt8 → List UInt8 → Option Int
  | [], _ => none
  | a :: _, [] => some a.toNat
  | a :: memory, b :: t =>
      if a = b then strcmpIn memory t else some ((a.toNat : Int) - b.toNat)

theorem toNat_sub_ne_zero {a b : UInt8} (h : a ≠ b) :
    (a.toNat : Int) - b.toNat ≠ 0 := by
  intro hzero
  apply h
  apply UInt8.toNat_inj.mp
  omega

theorem neg_toNat_ne_zero {b : UInt8} (h : b ≠ 0) : -(b.toNat : Int) ≠ 0 := by
  have := toNat_sub_ne_zero h
  simp only [UInt8.toNat_zero] at this
  omega

theorem strncmpBytes_eq_zero_iff {s t : List UInt8} (ht : (0 : UInt8) ∉ t) :
    strncmpBytes s t t.length = 0 ↔ t <+: s := by
  induction t generalizing s with
  | nil => simp [strncmpBytes]
  | cons b t ih =>
      obtain ⟨hb, ht⟩ : b ≠ 0 ∧ (0 : UInt8) ∉ t := by
        simpa [eq_comm] using ht
      cases s with
      | nil => simpa [strncmpBytes] using neg_toNat_ne_zero hb
      | cons a s =>
          simp only [List.length_cons, strncmpBytes, List.cons_prefix_cons]
          split
          · rename_i hab
            simp [ih ht, hab]
          · rename_i hab
            constructor
            · intro hzero
              exact absurd hzero (toNat_sub_ne_zero hab)
            · rintro ⟨rfl, -⟩
              exact absurd rfl hab

/-- A comparison bounded by the length of the second string only decides
whether that string is a prefix of the first one. -/
theorem strncmp_strlen_eq_zero_iff (s t : CStr) :
    strncmp s t (strlen t) = 0 ↔ t.bytes <+: s.bytes :=
  strncmpBytes_eq_zero_iff t.noNul

theorem strcmpBytes_eq_zero_iff {s t : List UInt8}
    (hs : (0 : UInt8) ∉ s) (ht : (0 : UInt8) ∉ t) :
    strcmpBytes s t = 0 ↔ s = t := by
  induction s generalizing t with
  | nil =>
      cases t with
      | nil => simp [strcmpBytes]
      | cons b t =>
          have hb : b ≠ 0 := fun h => ht (by simp [h])
          simpa [strcmpBytes] using neg_toNat_ne_zero hb
  | cons a s ih =>
      have ha : a ≠ 0 := fun h => hs (by simp [h])
      cases t with
      | nil =>
          have := neg_toNat_ne_zero ha
          simp only [strcmpBytes]
          constructor
          · intro hzero
            omega
          · intro hcons
            simp at hcons
      | cons b t =>
          have hs' : (0 : UInt8) ∉ s := fun h => hs (List.mem_cons_of_mem _ h)
          have ht' : (0 : UInt8) ∉ t := fun h => ht (List.mem_cons_of_mem _ h)
          simp only [strcmpBytes, List.cons.injEq]
          split
          · rename_i hab
            simp [ih hs' ht', hab]
          · rename_i hab
            simp [hab, toNat_sub_ne_zero hab]

theorem strcmpIn_eq_none_iff {memory s : List UInt8} :
    strcmpIn memory s = none ↔ memory <+: s := by
  induction memory generalizing s with
  | nil => simp [strcmpIn]
  | cons a memory ih =>
      cases s with
      | nil => simp [strcmpIn]
      | cons b s =>
          rw [strcmpIn, List.cons_prefix_cons]
          split
          · rename_i hab
            simp [ih, hab]
          · rename_i hab
            simp [hab]

theorem strcmpIn_eq_zero_iff {memory s : List UInt8} (hs : (0 : UInt8) ∉ s) :
    strcmpIn memory s = some 0 ↔ s ++ [0] <+: memory := by
  induction memory generalizing s with
  | nil => simp [strcmpIn]
  | cons a memory ih =>
      cases s with
      | nil =>
          have hzero : (a.toNat : Int) = 0 ↔ 0 = a := by
            rw [eq_comm (a := (0 : UInt8)), ← UInt8.toNat_inj, UInt8.toNat_zero]
            omega
          rw [strcmpIn, Option.some.injEq, hzero, List.nil_append, List.cons_prefix_cons]
          simp
      | cons b s =>
          have hs' : (0 : UInt8) ∉ s := fun h => hs (List.mem_cons_of_mem _ h)
          rw [strcmpIn, List.cons_append, List.cons_prefix_cons]
          split
          · rename_i hab
            simp [ih hs', hab]
          · rename_i hab
            simp [toNat_sub_ne_zero hab, Ne.symm hab]

theorem ofBuffer_of_terminated {s : CStr} {buffer : List UInt8} (h : s.bytes ++ [0] <+: buffer) :
    ofBuffer buffer = s := by
  obtain ⟨rest, rfl⟩ := h
  apply CStr.ext_bytes
  have hself : s.bytes.takeWhile (· != 0) = s.bytes := congrArg CStr.bytes (ofBuffer_bytes s)
  show (s.bytes ++ [0] ++ rest).takeWhile (· != 0) = s.bytes
  rw [List.append_assoc, List.takeWhile_append, if_pos (by rw [hself])]
  simp

theorem readString_of_terminated {s : CStr} {buffer : List UInt8} (h : s.bytes ++ [0] <+: buffer) :
    readString buffer = some s := by
  have hmem : (0 : UInt8) ∈ buffer := h.subset (by simp)
  rw [readString, if_pos hmem, ofBuffer_of_terminated h]

theorem strcmp_eq_zero_iff (s t : CStr) : strcmp s t = 0 ↔ s = t := by
  rw [strcmp, strcmpBytes_eq_zero_iff s.noNul t.noNul]
  exact ⟨CStr.ext_bytes, congrArg CStr.bytes⟩

end CHomework.CString
