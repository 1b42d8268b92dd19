import CHomework.WordCounter.Calls

/-!
The word counter of `wcounter.c`: splitting the text with `fscanf` and counting
each word in the hash map.
-/

namespace CHomework.WordCounter

open CHomework.CellArray
open CHomework.CString
open CHomework.Runs

/-- `isspace` in the C locale. -/
def isSpace (byte : UInt8) : Bool := byte == 32 || (9 ≤ byte && byte ≤ 13)

/-- `fscanf` with `"%99s"`: the bytes stored to the buffer and the rest of the
file, or `EOF` when only white space is left. -/
def fscanfWord (file : List UInt8) : Option (List UInt8 × List UInt8) :=
  match file.dropWhile isSpace with
  | [] => none
  | rest =>
      let word := (rest.takeWhile fun byte => !isSpace byte).take 99
      some (word, rest.drop word.length)

def countWord (stray : Nat → Item) (stats : HashMap) (word : CStr) : HashMap :=
  let wordActualCount : UInt64 := (hmGet stats word).toUInt64
  let wordActualCount := wordActualCount + 1
  hmSet stray stats word wordActualCount.toInt64

/-- The loop in `get_word_stat`. Each word takes at least one byte from the
file, so the length of the file bounds the number of rounds. -/
def wordStatLoop (stray : Nat → Item) : Nat → List UInt8 → HashMap → HashMap
  | 0, _, stats => stats
  | rounds + 1, file, stats =>
      match fscanfWord file with
      | none => stats
      | some (word, rest) =>
          wordStatLoop stray rounds rest (countWord stray stats (ofBuffer word))

def getWordStat (stray : Nat → Item) (file : List UInt8) : HashMap :=
  wordStatLoop stray file.length file hmInit

structure IsWord (word : CStr) : Prop where
  ne_nil : word.bytes ≠ []
  length_le : word.bytes.length ≤ 99
  not_space : ∀ byte ∈ word.bytes, isSpace byte = false

def renderWords (pieces : List (List UInt8 × CStr)) (tail : List UInt8) : List UInt8 :=
  (pieces.flatMap fun piece => piece.1 ++ piece.2.bytes) ++ tail

/-- A text: words separated by white space. -/
structure Text where
  pieces : List (List UInt8 × CStr)
  tail : List UInt8
  words_ok : ∀ piece ∈ pieces, IsWord piece.2
  gaps_space : ∀ piece ∈ pieces, ∀ byte ∈ piece.1, isSpace byte = true
  gaps_ne_nil : ∀ piece ∈ pieces.tail, piece.1 ≠ []
  tail_space : ∀ byte ∈ tail, isSpace byte = true

def Text.bytes (text : Text) : List UInt8 := renderWords text.pieces text.tail

def Text.words (text : Text) : List CStr := text.pieces.map Prod.snd

theorem dropWhile_isSpace_append {gap rest : List UInt8}
    (hgap : ∀ byte ∈ gap, isSpace byte = true) :
    (gap ++ rest).dropWhile isSpace = rest.dropWhile isSpace := by
  induction gap with
  | nil => rfl
  | cons byte gap ih =>
      rw [List.cons_append, List.dropWhile_cons_of_pos (hgap byte (by simp))]
      exact ih fun b hb => hgap b (List.mem_cons_of_mem _ hb)

theorem fscanfWord_word {gap rest : List UInt8} {word : CStr} (hword : IsWord word)
    (hgap : ∀ byte ∈ gap, isSpace byte = true)
    (hrest : rest.takeWhile (fun byte => !isSpace byte) = []) :
    fscanfWord (gap ++ word.bytes ++ rest) = some (word.bytes, rest) := by
  have hkeep : (word.bytes ++ rest).dropWhile isSpace = word.bytes ++ rest := by
    obtain ⟨byte, bytes, hbytes⟩ := List.exists_cons_of_ne_nil hword.ne_nil
    rw [hbytes, List.cons_append, List.dropWhile_cons_of_neg]
    simp [hword.not_space byte (by simp [hbytes])]
  have htake : (word.bytes ++ rest).takeWhile (fun byte => !isSpace byte) = word.bytes := by
    rw [List.takeWhile_append_of_pos, hrest, List.append_nil]
    intro byte hbyte
    simp [hword.not_space byte hbyte]
  have hne : word.bytes ++ rest ≠ [] := by
    simp [hword.ne_nil]
  rw [fscanfWord, List.append_assoc, dropWhile_isSpace_append hgap, hkeep]
  split
  · rename_i hnil
    exact absurd hnil hne
  · rw [htake, List.take_of_length_le hword.length_le]
    dsimp only
    rw [List.drop_left]

theorem fscanfWord_space {file : List UInt8} (hfile : ∀ byte ∈ file, isSpace byte = true) :
    fscanfWord file = none := by
  rw [fscanfWord, List.dropWhile_eq_nil_iff.mpr hfile]

theorem takeWhile_renderWords {pieces : List (List UInt8 × CStr)} {tail : List UInt8}
    (hspace : ∀ piece ∈ pieces, ∀ byte ∈ piece.1, isSpace byte = true)
    (hne : ∀ piece ∈ pieces, piece.1 ≠ [])
    (htail : ∀ byte ∈ tail, isSpace byte = true) :
    (renderWords pieces tail).takeWhile (fun byte => !isSpace byte) = [] := by
  have hhead : ∀ byte rest, isSpace byte = true →
      (byte :: rest).takeWhile (fun byte => !isSpace byte) = [] := by
    intro byte rest hbyte
    rw [List.takeWhile_cons_of_neg]
    simp [hbyte]
  rcases pieces with _ | ⟨⟨gap, word⟩, pieces⟩
  · rcases tail with _ | ⟨byte, tail⟩
    · rfl
    · exact hhead byte tail (htail byte (by simp))
  · obtain ⟨byte, gap', rfl⟩ := List.exists_cons_of_ne_nil (hne (gap, word) (by simp))
    exact hhead byte _ (hspace (byte :: gap', word) (by simp) byte (by simp))

theorem wordStatLoop_renderWords (stray : Nat → Item) (tail : List UInt8)
    (htail : ∀ byte ∈ tail, isSpace byte = true) (pieces : List (List UInt8 × CStr))
    (hwords : ∀ piece ∈ pieces, IsWord piece.2)
    (hspace : ∀ piece ∈ pieces, ∀ byte ∈ piece.1, isSpace byte = true)
    (hne : ∀ piece ∈ pieces.tail, piece.1 ≠ [])
    (rounds : Nat) (hrounds : pieces.length ≤ rounds) (stats : HashMap) :
    wordStatLoop stray rounds (renderWords pieces tail) stats =
      (pieces.map Prod.snd).foldl (countWord stray) stats := by
  induction pieces generalizing rounds stats with
  | nil =>
      rcases rounds with _ | rounds
      · rfl
      · rw [wordStatLoop, renderWords, List.flatMap_nil, List.nil_append,
          fscanfWord_space htail]
        rfl
  | cons piece pieces ih =>
      obtain ⟨rounds, rfl⟩ : ∃ r, rounds = r + 1 :=
        ⟨rounds - 1, by simp only [List.length_cons] at hrounds; omega⟩
      have hlater : ∀ p ∈ pieces, p ∈ piece :: pieces := fun p hp =>
        List.mem_cons_of_mem _ hp
      have hstop := takeWhile_renderWords (fun p hp => hspace p (hlater p hp)) hne htail
      have hsplit : renderWords (piece :: pieces) tail =
          piece.1 ++ piece.2.bytes ++ renderWords pieces tail := by
        simp [renderWords]
      rw [hsplit, wordStatLoop, fscanfWord_word (hwords piece (by simp))
        (hspace piece (by simp)) hstop]
      dsimp only
      rw [ofBuffer_bytes, List.map_cons, List.foldl_cons]
      exact ih (fun p hp => hwords p (hlater p hp)) (fun p hp => hspace p (hlater p hp))
        (fun p hp => hne p (List.mem_of_mem_tail hp)) rounds
        (by simpa using hrounds) (countWord stray stats piece.2)

theorem length_le_length_renderWords {pieces : List (List UInt8 × CStr)}
    (hwords : ∀ piece ∈ pieces, IsWord piece.2) (tail : List UInt8) :
    pieces.length ≤ (renderWords pieces tail).length := by
  induction pieces with
  | nil => simp
  | cons piece pieces ih =>
      have hpos := List.length_pos_iff.mpr (hwords piece (by simp)).ne_nil
      have hrest := ih fun p hp => hwords p (List.mem_cons_of_mem _ hp)
      simp only [renderWords, List.flatMap_cons, List.length_append, List.length_cons]
        at hrest ⊢
      omega

theorem getWordStat_eq (stray : Nat → Item) (text : Text) :
    getWordStat stray text.bytes = text.words.foldl (countWord stray) hmInit :=
  wordStatLoop_renderWords stray text.tail text.tail_space text.pieces text.words_ok
    text.gaps_space text.gaps_ne_nil _ (length_le_length_renderWords text.words_ok _) _

namespace HashMap

def target (m : HashMap) (key : CStr) : Nat := (m.find key).getD (m.freeCell key)

/-- The search for the word ends at its own record, or nowhere if it has none. -/
def FindsOwn (m : HashMap) (word : CStr) : Prop :=
  (∀ i item, m.cell i = some item → m.find word = some i → item.key = word) ∧
    (m.find word = none → ¬ m.Stored word)

instance (m : HashMap) (word : CStr) : Decidable (m.FindsOwn word) := by
  unfold FindsOwn
  infer_instance

/-- The word has the count `n`: no record at all for 0, and else one record with
that value. -/
def Tally (m : HashMap) (word : CStr) (n : Nat) : Prop :=
  (n = 0 ∧ ¬ m.Stored word) ∨
    (0 < n ∧ ∃ i, m.cell i = some { key := word, value := Int64.ofNat n } ∧
      ∀ j item, m.cell j = some item → item.key = word → j = i)

variable {m : HashMap} {word : CStr} {n : Nat}

theorem cell_put_of_ne_target {key : CStr} {j : Nat} (h : m.target key ≠ j) (val : Int64) :
    (m.put key val).cell j = m.cell j := by
  rw [target] at h
  rcases hfind : m.find key with _ | i
  · rw [hfind, Option.getD_none] at h
    rw [cell_put_of_find_none hfind, if_neg h]
  · rw [hfind, Option.getD_some] at h
    rw [cell_put_of_find hfind, if_neg h]

theorem key_target_put {key : CStr} {val : Int64} {item : Item}
    (h : (m.put key val).cell (m.target key) = some item) :
    item.key = key ∨ ∃ old, m.cell (m.target key) = some old ∧ item.key = old.key := by
  rw [target] at h ⊢
  rcases hfind : m.find key with _ | i
  · rw [hfind, Option.getD_none, cell_put_of_find_none hfind, if_pos rfl] at h
    cases h
    exact Or.inl rfl
  · rw [hfind, Option.getD_some, cell_put_of_find hfind, if_pos rfl,
      Option.map_eq_some_iff] at h
    obtain ⟨old, hold, rfl⟩ := h
    exact Or.inr ⟨old, hold, rfl⟩

theorem tally_settled (key : CStr) : (m.settled key).Tally word n ↔ m.Tally word n := by
  simp only [Tally, stored_settled, cell_settled]

theorem Tally.hmGet_eq (h : m.Tally word n) (hown : m.FindsOwn word) :
    hmGet m word = Int64.ofNat n := by
  rcases hfind : m.find word with _ | i
  · rw [hmGet_of_find_none hfind]
    rcases h with ⟨rfl, -⟩ | ⟨-, j, hj, -⟩
    · rfl
    · exact absurd (stored_of_cell hj) (hown.2 hfind)
  · obtain ⟨item, hitem, -⟩ := cell_of_find hfind
    have hkey := hown.1 i item hitem hfind
    rw [hmGet_of_find hfind hitem]
    rcases h with ⟨-, hnone⟩ | ⟨-, j, hj, honly⟩
    · exact absurd (stored_iff.mpr ⟨i, item, hitem, hkey⟩) hnone
    · obtain rfl : i = j := honly i item hitem hkey
      rw [hj] at hitem
      cases hitem
      rfl

theorem Tally.put_self (h : m.Tally word n) (hown : m.FindsOwn word) :
    (m.put word (Int64.ofNat (n + 1))).Tally word (n + 1) := by
  refine Or.inr ⟨Nat.succ_pos n, m.target word, ?_, ?_⟩
  · rw [target]
    rcases hfind : m.find word with _ | i
    · rw [Option.getD_none, cell_put_of_find_none hfind, if_pos rfl]
    · obtain ⟨item, hitem, -⟩ := cell_of_find hfind
      rw [Option.getD_some, cell_put_of_find hfind, if_pos rfl, hitem, Option.map_some,
        ← hown.1 i item hitem hfind]
  · intro j item hitem hkey
    by_contra hne
    rw [cell_put_of_ne_target (Ne.symm hne)] at hitem
    have hstored : m.Stored word := stored_iff.mpr ⟨j, item, hitem, hkey⟩
    rcases h with ⟨-, hnone⟩ | ⟨-, i, hi, honly⟩
    · exact hnone hstored
    · rcases hfind : m.find word with _ | t
      · exact hown.2 hfind hstored
      · obtain ⟨found, hfound, -⟩ := cell_of_find hfind
        have ht := honly t found hfound (hown.1 t found hfound hfind)
        have hj := honly j item hitem hkey
        rw [target, hfind, Option.getD_some] at hne
        omega

theorem Tally.put_of_ne {key : CStr} (h : m.Tally word n) (hne : key ≠ word)
    (hspared : ∀ i item, m.cell i = some item → m.target key = i → item.key ≠ word)
    (val : Int64) : (m.put key val).Tally word n := by
  have hback : ∀ j item, (m.put key val).cell j = some item → item.key = word →
      m.cell j = some item := by
    intro j item hitem hkey
    by_cases htarget : m.target key = j
    · subst htarget
      rcases key_target_put hitem with hself | ⟨old, hold, holdKey⟩
      · exact absurd (hself.symm.trans hkey) hne
      · exact absurd (holdKey.symm.trans hkey) (hspared _ old hold rfl)
    · rwa [cell_put_of_ne_target htarget] at hitem
  rcases h with ⟨rfl, hnone⟩ | ⟨hpos, i, hi, honly⟩
  · refine Or.inl ⟨rfl, fun hstored => hnone ?_⟩
    obtain ⟨j, item, hitem, hkey⟩ := stored_iff.mp hstored
    exact stored_iff.mpr ⟨j, item, hback j item hitem hkey, hkey⟩
  · refine Or.inr ⟨hpos, i, ?_, fun j item hitem hkey =>
      honly j item (hback j item hitem hkey) hkey⟩
    rw [cell_put_of_ne_target, hi]
    rintro rfl
    exact hspared _ _ hi rfl rfl

end HashMap

/-- Counting `key` does not disturb the count of `word`. For the word itself,
`hm_get` and `hm_set` find its own record, or none if it has none, also in the
doubled table; for another word, `hm_set` does not write to the word's cell. -/
def SparesCount (word : CStr) (m : HashMap) (key : CStr) : Prop :=
  (key = word → m.FindsOwn word ∧ (m.settled word).FindsOwn word) ∧
    (key ≠ word → ∀ i item, m.cell i = some item → (m.settled key).target key = i →
      item.key ≠ word)

instance (word : CStr) (m : HashMap) (key : CStr) : Decidable (SparesCount word m key) := by
  unfold SparesCount
  infer_instance

theorem tally_countWord {stray : Nat → Item} {m : HashMap} {word key : CStr} {n : Nat}
    (h : m.Tally word n) (hspares : SparesCount word m key) :
    (countWord stray m key).Tally word (n + if key = word then 1 else 0) := by
  rw [countWord, hmSet_eq]
  split
  · rename_i hkey
    subst hkey
    obtain ⟨hown, hown'⟩ := hspares.1 rfl
    have hval : ((hmGet m key).toUInt64 + 1).toInt64 = Int64.ofNat (n + 1) := by
      rw [h.hmGet_eq hown]
      simp [Int64.ofNat_add]
    rw [hval]
    exact ((HashMap.tally_settled key).mpr h).put_self hown'
  · rename_i hkey
    refine ((HashMap.tally_settled key).mpr h).put_of_ne hkey ?_ _
    intro i item hitem
    rw [HashMap.cell_settled] at hitem
    exact hspares.2 hkey i item hitem

theorem tally_of_guardedRun {stray : Nat → Item} {words : List CStr} {word : CStr}
    {m : HashMap}
    (hrun : GuardedRun (fun m key => some (countWord stray m key)) (SparesCount word)
      hmInit words m) : m.Tally word (words.count word) := by
  induction hrun with
  | nil =>
      refine Or.inl ⟨rfl, fun hstored => ?_⟩
      obtain ⟨i, item, hitem, -⟩ := HashMap.stored_iff.mp hstored
      simp [cell_hmInit] at hitem
  | @snoc words m m' key _ hspares hstep ih =>
      obtain rfl : countWord stray m key = m' := by simpa using hstep
      rw [List.count_append, List.count_singleton]
      simpa using tally_countWord ih hspares

/-- The count of a word in a text is exact, when no call on the way disturbs it,
the last lookup finds the word's own record or it has none, and the word occurs
fewer than `2 ^ 63` times. -/
theorem hmGet_getWordStat (stray : Nat → Item) (text : Text) (word : CStr)
    (hrun : GuardedRun (fun m key => some (countWord stray m key)) (SparesCount word)
      hmInit text.words (getWordStat stray text.bytes))
    (hlast : (getWordStat stray text.bytes).FindsOwn word)
    (hfew : text.words.count word < 2 ^ 63) :
    (hmGet (getWordStat stray text.bytes) word).toInt = text.words.count word := by
  rw [(tally_of_guardedRun hrun).hmGet_eq hlast]
  exact Int64.toInt_ofNat_of_lt hfew

def sampleText : Text where
  pieces := [([], ofBuffer [97]), ([32], ofBuffer [99]), ([32], ofBuffer [97])]
  tail := []
  words_ok := by
    intro piece hpiece
    simp only [List.mem_cons, List.not_mem_nil, or_false] at hpiece
    rcases hpiece with rfl | rfl | rfl
    all_goals exact ⟨by decide, by decide, by simp [ofBuffer, isSpace]⟩
  gaps_space := by simp [isSpace]
  gaps_ne_nil := by simp
  tail_space := by simp

theorem hmGet_getWordStat_sample :
    (hmGet (getWordStat blankStray sampleText.bytes) (ofBuffer [97])).toInt =
      sampleText.words.count (ofBuffer [97]) :=
  hmGet_getWordStat blankStray sampleText (ofBuffer [97])
    (by rw [getWordStat_eq]; exact guardedRun_iff.mpr rfl) (by decide) (by decide)

def prefixText : Text where
  pieces := [([], ofBuffer [102, 111, 111]), ([32], ofBuffer [102])]
  tail := []
  words_ok := by
    intro piece hpiece
    simp only [List.mem_cons, List.not_mem_nil, or_false] at hpiece
    rcases hpiece with rfl | rfl
    all_goals exact ⟨by decide, by decide, by simp [ofBuffer, isSpace]⟩
  gaps_space := by simp [isSpace]
  gaps_ne_nil := by simp
  tail_space := by simp

/-- In the text `foo f` the word `foo` occurs once and is counted twice. -/
theorem hmGet_getWordStat_ne_count :
    prefixText.words.count (ofBuffer [102, 111, 111]) = 1 ∧
      (hmGet (getWordStat blankStray prefixText.bytes) (ofBuffer [102, 111, 111])).toInt =
        2 := by
  refine ⟨by decide, ?_⟩
  rw [getWordStat_eq]
  decide

end CHomework.WordCounter
