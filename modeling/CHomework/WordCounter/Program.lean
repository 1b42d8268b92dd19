import CHomework.WordCounter.Counter
import CHomework.WordCounter.Ownership
import CHomework.WordCounter.UniqueKeys
import CHomework.WordCounter.WordCount

/-!
The whole program of `main.c`: what it prints and what it leaves in memory. The cells that
`realloc` adds to the table are taken as empty.
-/

namespace CHomework.WordCounter

open CHomework.Allocation
open CHomework.CellArray
open CHomework.CString
open CHomework.Runs

def ascii (text : String) : List UInt8 := text.toUTF8.toList

/-- `"\t%s: %" PRId64 "\n"`. -/
def statLine (key : CStr) (value : Int) : List UInt8 :=
  ascii "\t" ++ key.bytes ++ ascii ": " ++ ascii (toString value) ++ ascii "\n"

def wordsStats : List UInt8 := ascii "Words stats:\n"

/-- A round of the loop over the records in `main`, behind what is printed already. A read
behind the array has no result. -/
def printRecord (records : List Item) (stdout : List UInt8) (i : Nat) : Option (List UInt8) := do
  let record ← records[i]?
  return stdout ++ statLine record.key record.value.toInt

def printRecords (stray : Nat → Item) (hm : HashMap) (stdout : List UInt8) :
    Option (List UInt8) :=
  (List.range (hmLen hm)).foldlM (printRecord (hmIter stray hm)) stdout

namespace Ownership

def countWord (stray : Nat → Item) (stats : OwnedMap) (word : CStr) (h : Heap) :
    Option (OwnedMap × Heap) :=
  let wordActualCount : UInt64 := (hmGet stats.map word).toUInt64
  let wordActualCount := wordActualCount + 1
  hmSet stray stats word wordActualCount.toInt64 h

def wordStatLoop (stray : Nat → Item) :
    Nat → List UInt8 → OwnedMap → Heap → Option (OwnedMap × Heap)
  | 0, _, stats, h => some (stats, h)
  | rounds + 1, file, stats, h =>
      match fscanfWord file with
      | none => some (stats, h)
      | some (word, rest) => do
          let (stats, h) ← countWord stray stats (ofBuffer word) h
          wordStatLoop stray rounds rest stats h

end Ownership

open Ownership (OwnedMap)

structure Exit where
  stdout : List UInt8
  status : Nat
  heap : Heap

/-- The program from a file system, in which `fopen` gives the content of a file. There is
no result when a block is freed that is not live, or a record is read that is not there. -/
def main (stray : Nat → Item) (fopen : CStr → Option (List UInt8)) (argv : List CStr)
    (h : Heap) : Option Exit :=
  match argv with
  | _ :: path :: _ =>
      let (stats, h) := Ownership.hmInit h
      match fopen path with
      | none => some { stdout := [], status := 1, heap := h }
      | some file => do
          let (hm, h) ← Ownership.wordStatLoop stray file.length file stats h
          let (_, h) ← Ownership.hmIter hm h
          let stdout ← printRecords stray hm.map wordsStats
          let h ← Ownership.hmClear hm h
          return { stdout := stdout, status := 0, heap := h }
  | _ => some { stdout := ascii "Output file is required", status := 0, heap := h }

/-- The words the loop in `get_word_stat` reads from a file. -/
def fscanfWords : Nat → List UInt8 → List CStr
  | 0, _ => []
  | rounds + 1, file =>
      match fscanfWord file with
      | none => []
      | some (word, rest) => ofBuffer word :: fscanfWords rounds rest

def wordsOf (file : List UInt8) : List CStr := fscanfWords file.length file

/-- The call of `hm_set` that counts a word. -/
def countOp (stats : HashMap) (word : CStr) : Op :=
  .set word ((hmGet stats word).toUInt64 + 1).toInt64

def countOps (stray : Nat → Item) : HashMap → List CStr → List Op
  | _, [] => []
  | stats, word :: words => countOp stats word :: countOps stray (countWord stray stats word) words

section Heap

variable {stray : Nat → Item}

theorem wordStatLoop_eq (rounds : Nat) (file : List UInt8) (stats : HashMap) :
    wordStatLoop stray rounds file stats =
      (fscanfWords rounds file).foldl (countWord stray) stats := by
  induction rounds generalizing file stats with
  | zero => rfl
  | succ rounds ih =>
      rw [wordStatLoop, fscanfWords]
      rcases fscanfWord file with _ | ⟨word, rest⟩
      · rfl
      · exact ih rest _

theorem getWordStat_eq_foldl (file : List UInt8) :
    getWordStat stray file = (wordsOf file).foldl (countWord stray) hmInit :=
  wordStatLoop_eq _ _ _

theorem length_countOps (stats : HashMap) (words : List CStr) :
    (countOps stray stats words).length = words.length := by
  induction words generalizing stats with
  | nil => rfl
  | cons word words ih => exact congrArg Nat.succ (ih _)

theorem run_countOps (stats : HashMap) (words : List CStr) :
    run (step stray) stats (countOps stray stats words) =
      some (words.foldl (countWord stray) stats) := by
  induction words generalizing stats with
  | nil => rfl
  | cons word words ih => exact ih (countWord stray stats word)

theorem countOps_snoc (stats : HashMap) (words : List CStr) (word : CStr) :
    countOps stray stats (words ++ [word]) =
      countOps stray stats words ++ [countOp (words.foldl (countWord stray) stats) word] := by
  induction words generalizing stats with
  | nil => rfl
  | cons first words ih => exact congrArg (List.cons _) (ih _)

/-- The calls stay inside the arrays of `hm_iter`. -/
def CountsInside (stray : Nat → Item) (file : List UInt8) : Prop :=
  GuardedRun (fun m word => some (countWord stray m word))
    (fun m word => (countOp m word).StaysInside stray m) hmInit (wordsOf file)
    (getWordStat stray file)

theorem guardedRun_countOps_iff (words : List CStr) :
    GuardedRun (step stray) (fun m op => op.StaysInside stray m) hmInit
        (countOps stray hmInit words) (words.foldl (countWord stray) hmInit) ↔
      GuardedRun (fun m word => some (countWord stray m word))
        (fun m word => (countOp m word).StaysInside stray m) hmInit words
        (words.foldl (countWord stray) hmInit) := by
  induction words using List.reverseRecOn with
  | nil => exact iff_of_true .nil .nil
  | append_singleton words word ih =>
      have hwords : run (fun m word => some (countWord stray m word)) hmInit words =
          some (words.foldl (countWord stray) hmInit) := List.foldlM_pure
      rw [countOps_snoc, List.foldl_append, List.foldl_cons, List.foldl_nil,
        GuardedRun.snoc_iff_of_run (run_countOps _ _) rfl,
        GuardedRun.snoc_iff_of_run hwords rfl, ih]

/-- The loop makes the calls one after the other. -/
theorem wordStatLoop_eq_run (rounds : Nat) (file : List UInt8) {h₀ : Heap} {stats : HashMap}
    {s : OwnedMap × Heap} (htracks : Ownership.Tracks h₀ stats s) :
    Ownership.wordStatLoop stray rounds file s.1 s.2 =
      run (Ownership.step stray) s (countOps stray stats (fscanfWords rounds file)) := by
  induction rounds generalizing file stats s with
  | zero => rfl
  | succ rounds ih =>
      rw [fscanfWords, Ownership.wordStatLoop]
      rcases fscanfWord file with _ | ⟨word, rest⟩
      · rfl
      have hstep : step stray stats (countOp stats (ofBuffer word)) =
          some (countWord stray stats (ofBuffer word)) := rfl
      have hcount : Ownership.countWord stray s.1 (ofBuffer word) s.2 =
          Ownership.step stray s (countOp stats (ofBuffer word)) := by
        rw [Ownership.countWord, htracks.1]
        rfl
      dsimp only
      rw [countOps, run, List.foldlM_cons, hcount]
      rcases hset : Ownership.step stray s (countOp stats (ofBuffer word)) with _ | s₁
      · rfl
      · exact ih rest ((htracks.step hstep).2 s₁ hset).1

theorem printRecords_eq (m : HashMap) (stdout : List UInt8) :
    printRecords stray m stdout =
      if hmLen m ≤ (hmIter stray m).length then
        some (stdout ++ ((hmIter stray m).take (hmLen m)).flatMap fun item =>
          statLine item.key item.value.toInt)
      else none := by
  rw [printRecords]
  induction hmLen m with
  | zero => simp
  | succ k ih =>
      rw [List.range_succ, List.foldlM_append, ih]
      rcases Nat.lt_or_ge k (hmIter stray m).length with hlt | hge
      · have htake : (hmIter stray m).take (k + 1) =
            (hmIter stray m).take k ++ [(hmIter stray m)[k]] :=
          List.take_succ_eq_append_getElem hlt
        rw [if_pos hlt.le, if_pos (Nat.succ_le_of_lt hlt), htake, List.flatMap_append]
        simp [printRecord, List.getElem?_eq_getElem hlt]
      · rw [if_neg (Nat.not_le.mpr (Nat.lt_succ_of_le hge))]
        split
        · simp [printRecord, List.getElem?_eq_none hge]
        · rfl

end Heap

section Main

variable {stray : Nat → Item} {fopen : CStr → Option (List UInt8)} {name path : CStr}
  {more : List CStr} {file : List UInt8}

/-- The array of `hm_iter` is freed nowhere, and neither is what the calls lost. -/
theorem main_spec (stray : Nat → Item) (name : CStr) (more : List CStr)
    (hfile : fopen path = some file) :
    ((main stray fopen (name :: path :: more) Heap.empty).isSome ↔ CountsInside stray file ∧
      hmLen (getWordStat stray file) ≤ (hmIter stray (getWordStat stray file)).length) ∧
    ∀ e, main stray fopen (name :: path :: more) Heap.empty = some e → e.status = 0 ∧
      printRecords stray (getWordStat stray file) wordsStats = some e.stdout ∧
      ∃ lost : Finset Nat, e.heap.live.card = lost.card + 1 ∧
        (lost = ∅ ↔ (wordsOf file).length ≤ 1) := by
  have htracks := Ownership.tracks_hmInit Heap.empty
  have hplain : run (step stray) hmInit (countOps stray hmInit (wordsOf file)) =
      some (getWordStat stray file) := by
    rw [getWordStat_eq_foldl]
    exact run_countOps _ _
  obtain ⟨hiff, hruns⟩ := Ownership.run_isSome_iff htracks hplain
  have hinside : CountsInside stray file ↔
      (run (Ownership.step stray) (Ownership.hmInit Heap.empty)
        (countOps stray hmInit (wordsOf file))).isSome := by
    rw [hiff, CountsInside, getWordStat_eq_foldl, guardedRun_countOps_iff]
  have hmain : main stray fopen (name :: path :: more) Heap.empty =
      (run (Ownership.step stray) (Ownership.hmInit Heap.empty)
        (countOps stray hmInit (wordsOf file))).bind fun s =>
          (Ownership.hmIter s.1 s.2).bind fun records =>
            (printRecords stray s.1.map wordsStats).bind fun stdout =>
              (Ownership.hmClear s.1 records.2).map fun h =>
                { stdout := stdout, status := 0, heap := h } := by
    rw [main]
    simp only [hfile, wordsOf, ← wordStatLoop_eq_run _ _ htracks, Option.map_eq_bind]
    rfl
  rw [hmain, hinside]
  rcases hloop : run (Ownership.step stray) (Ownership.hmInit Heap.empty)
      (countOps stray hmInit (wordsOf file)) with _ | ⟨hm, h₁⟩
  · simp
  obtain ⟨hmap, hkeeps⟩ := hruns _ hloop
  obtain ⟨records, h₂, hiter, hown₂, hrest₂⟩ := Ownership.hmIter_spec hm hkeeps.owns
  obtain ⟨h₃, hclear, hlive⟩ := Ownership.hmClear_spec hown₂.forget
  have hlost := (Ownership.rest_run_eq_iff htracks hplain hloop).2
  rw [Ownership.guardedRun_not_leaks_iff hplain, length_countOps] at hlost
  rw [Option.bind_some, hiter, Option.bind_some, hclear,
    show (hm, h₁).1.map = getWordStat stray file from hmap, printRecords_eq]
  split
  · rename_i hprints
    rw [Option.bind_some, Option.map_some]
    refine ⟨iff_of_true rfl ⟨rfl, hprints⟩, ?_⟩
    rintro e ⟨⟩
    refine ⟨rfl, rfl, h₁.rest hm.blocks, ?_, hlost⟩
    rw [hlive, hown₂.card_rest, hrest₂]
  · rename_i hprints
    simp [hprints]

end Main

/-- The text `e c b g`: the last word has taken the cell of the first one, and `records[3]` is
not there. -/
example : (main blankStray (fun _ => some [101, 32, 99, 32, 98, 32, 103])
    [ofBuffer [], ofBuffer []] Heap.empty).isSome = false := by decide +kernel

section Output

variable {stray : Nat → Item} {words : List CStr} {m : HashMap}

/-- Counting `key` disturbs the count of none of the words. -/
def SparesAll (words : List CStr) (m : HashMap) (key : CStr) : Prop :=
  ∀ word ∈ words, SparesCount word m key

instance (words : List CStr) (m : HashMap) (key : CStr) :
    Decidable (SparesAll words m key) := by
  unfold SparesAll
  infer_instance

/-- A call that spares the counts of all stored keys overwrites no record. -/
theorem not_overwrites_of_sparesAll {key : CStr} (hspares : SparesAll words m key)
    (hwords : ∀ word, m.Stored word → word ∈ words) : ¬ m.Overwrites key := by
  rintro ⟨hfind, hfull⟩
  obtain ⟨item, hitem⟩ := Option.ne_none_iff_exists'.mp hfull
  have htarget : (m.settled key).target key = (m.settled key).freeCell key := by
    rw [HashMap.target, hfind, Option.getD_none]
  have hcell := hitem
  rw [HashMap.cell_settled] at hcell
  obtain ⟨hself, hother⟩ := hspares item.key (hwords _ (HashMap.stored_of_cell hcell))
  by_cases hkey : key = item.key
  · have hown := (hself hkey).2
    rw [← hkey] at hown
    exact hown.2 hfind (HashMap.stored_iff.mpr ⟨_, item, hitem, hkey.symm⟩)
  · exact hother hkey _ item hcell htarget rfl

theorem counted_of_guardedRun {ops : List CStr}
    (hrun : GuardedRun (fun m key => some (countWord stray m key)) (SparesAll words)
      hmInit ops m) (hops : ∀ key ∈ ops, key ∈ words) :
    m.numOfRecs = occupied m.data ∧ ∀ word, m.Stored word → word ∈ words := by
  induction hrun with
  | nil =>
      refine ⟨rfl, fun word hstored => ?_⟩
      obtain ⟨i, item, hitem, -⟩ := HashMap.stored_iff.mp hstored
      rw [cell_hmInit] at hitem
      cases hitem
  | @snoc ops m m' key _ hspares hstep ih =>
      obtain rfl : countWord stray m key = m' := by simpa using hstep
      obtain ⟨hcount, hwords⟩ := ih fun key hkey => hops key (List.mem_append_left _ hkey)
      refine ⟨?_, fun word hstored => ?_⟩
      · have hset : step stray m (.set key ((hmGet m key).toUInt64 + 1).toInt64) =
            some (countWord stray m key) := rfl
        exact ((drift_step hcount.symm.le hset).2).mpr
          ⟨hcount, not_overwrites_of_sparesAll hspares hwords⟩
      · rw [countWord, hmSet_eq] at hstored
        rcases HashMap.stored_put hstored with rfl | hold
        · exact hops word (by simp)
        · exact hwords word ((HashMap.stored_settled key word).mp hold)

section Counted

variable (hrun : GuardedRun (fun m key => some (countWord stray m key)) (SparesAll words)
  hmInit words m)
include hrun

theorem tally_of_sparesAll {word : CStr} (hword : word ∈ words) :
    m.Tally word (words.count word) :=
  tally_of_guardedRun (hrun.mono fun _ _ hspares => hspares word hword)

/-- The map has one record for each word of the file. -/
theorem keys_perm_dedup : ((contents m.data).map Item.key).Perm words.dedup := by
  obtain ⟨-, hwords⟩ := counted_of_guardedRun hrun fun _ hkey => hkey
  have honly : ∀ i j item item', m.cell i = some item → m.cell j = some item' →
      item.key = item'.key → i = j := by
    intro i j item item' hi hj hkey
    have hmem := hwords _ (HashMap.stored_of_cell hi)
    rcases tally_of_sparesAll hrun hmem with ⟨-, hnone⟩ | ⟨-, k, -, honly⟩
    · exact absurd (HashMap.stored_of_cell hi) hnone
    · exact (honly i item hi rfl).trans (honly j item' hj hkey.symm).symm
  refine (List.perm_ext_iff_of_nodup (nodup_map_contents honly) words.nodup_dedup).mpr ?_
  intro word
  rw [List.mem_dedup, List.mem_map]
  constructor
  · rintro ⟨item, hitem, rfl⟩
    exact hwords _ ⟨item, hitem, rfl⟩
  · intro hword
    rcases tally_of_sparesAll hrun hword with ⟨hzero, -⟩ | ⟨-, i, hi, -⟩
    · exact absurd (List.count_pos_iff.mpr hword) (by omega)
    · exact ⟨_, mem_contents_iff.mpr ⟨i, hi⟩, rfl⟩

theorem value_eq_count {item : Item} (hitem : item ∈ contents m.data)
    (hfew : words.length < 2 ^ 32) : item.value.toInt = words.count item.key := by
  obtain ⟨-, hwords⟩ := counted_of_guardedRun hrun fun _ hkey => hkey
  obtain ⟨i, hi⟩ := mem_contents_iff.mp hitem
  have hstored : m.Stored item.key := ⟨item, hitem, rfl⟩
  rcases tally_of_sparesAll hrun (hwords _ hstored) with ⟨-, hnone⟩ | ⟨-, j, hj, honly⟩
  · exact absurd hstored hnone
  · obtain rfl : i = j := honly i item hi rfl
    have hvalue : item.value = Int64.ofNat (words.count item.key) := by
      have hcell := hi.symm.trans hj
      rw [Option.some.injEq] at hcell
      exact congrArg Item.value hcell
    have hle := List.count_le_length (a := item.key) (l := words)
    rw [hvalue]
    exact Int64.toInt_ofNat_of_lt (by omega)

theorem printRecords_of_sparesAll (hfew : words.length < 2 ^ 32) (stdout : List UInt8) :
    printRecords stray m stdout =
      some (stdout ++ ((contents m.data).map Item.key).flatMap fun word =>
        statLine word (words.count word)) := by
  obtain ⟨hcount, -⟩ := counted_of_guardedRun hrun fun _ hkey => hkey
  have hlength : (contents m.data).length ≤ words.length := by
    have hperm := (keys_perm_dedup hrun).length_eq
    rw [List.length_map] at hperm
    rw [hperm]
    exact words.dedup_sublist.length_le
  rw [length_contents] at hlength
  have hiter : hmIter stray m = contents m.data := hmIter_eq_contents stray (by omega)
  have hall : hmLen m = (contents m.data).length := by
    rw [hmLen, hcount, length_contents]
  rw [printRecords_eq, hiter, hall, if_pos (Nat.le_refl _), List.take_length, List.flatMap_map]
  congr 2
  refine List.flatMap_congr fun item hitem => ?_
  rw [value_eq_count hrun hitem hfew]

end Counted

end Output

end CHomework.WordCounter
