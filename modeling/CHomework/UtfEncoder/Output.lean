import CHomework.UtfEncoder.Conversion

namespace CHomework.UtfEncoder

open CHomework.CString

/-- A terminated string of the stated size that is written throughout, as the
caller and the tests take it. -/
structure UtfFile.IsString (f : UtfFile) (bytes : List UInt8) : Prop where
  size : f.size = bytes.length + 1
  bytes : f.content.take (f.size - 1) = bytes.map some
  terminator : f.content[f.size - 1]? = some (some 0)
  initialised : ∀ i < f.size, ∃ b, f.content[i]? = some (some b)

theorem size_and_content {page : CodePage} {input : List UInt8} {f : UtfFile}
    (h : encodingToUtf8 page.name input = .ok f) :
    f.content = (emission page input).map some ++ [none, some 0] ∧
      f.size = (emission page input).length + 1 := by
  rcases eq_of_encodingToUtf8 h with ⟨hreach, -⟩
  rw [encodingToUtf8_of_le hreach, Except.ok.injEq] at h
  rw [← h, terminate_filled]
  exact ⟨rfl, rfl⟩

theorem content_size_sub_one {page : CodePage} {input : List UInt8} {f : UtfFile}
    (h : encodingToUtf8 page.name input = .ok f) : f.content[f.size - 1]? = some none := by
  rcases size_and_content h with ⟨hcontent, hsize⟩
  rw [hcontent, hsize, Nat.add_sub_cancel, List.getElem?_append_right (by simp)]
  simp

/-- No accepted input comes back as a terminated string of its size. -/
theorem not_isString {page : CodePage} {input : List UInt8} {f : UtfFile}
    (h : encodingToUtf8 page.name input = .ok f) : ¬ f.IsString (emission page input) := by
  intro hstring
  have hterminator := hstring.terminator
  rw [content_size_sub_one h] at hterminator
  cases hterminator

theorem not_isString_letter :
    encodingToUtf8 CodePage.koi8.name [0xc4] =
        .ok { content := [some 0xd0, some 0xb4, none, some 0], size := 3 } ∧
      ¬ UtfFile.IsString { content := [some 0xd0, some 0xb4, none, some 0], size := 3 }
        (emission .koi8 [0xc4]) := by
  have hf : encodingToUtf8 CodePage.koi8.name [0xc4] =
      .ok { content := [some 0xd0, some 0xb4, none, some 0], size := 3 } := by
    decide +kernel
  exact ⟨hf, not_isString hf⟩

theorem not_isString_of_empty : ¬ ∀ (page : CodePage) (input : List UInt8) (f : UtfFile),
    encodingToUtf8 page.name input = .ok f → f.IsString (emission page input) := by
  intro h
  have hf : encodingToUtf8 CodePage.cp1251.name [] =
      .ok { content := [none, some 0], size := 1 } := by
    decide +kernel
  have hterminator := (h .cp1251 [] _ hf).terminator
  revert hterminator
  decide

structure Files where
  content : CStr → Option (List UInt8)
  opens : CStr → Bool

structure Outcome where
  status : Nat
  printed : String
  output : Option (List (Option UInt8))
  deriving DecidableEq

/-- `fwrite` to a file that takes every byte: the number of items written, and
the bytes. -/
def fwrite (content : List (Option UInt8)) (size nmemb : Nat) : Nat × List (Option UInt8) :=
  (if size = 0 then 0 else nmemb, content.take (size * nmemb))

def encodeFile (files : Files) (encoding inputFile : CStr) : Except String UtfFile :=
  match files.content inputFile with
  | none => .error "open input file failed"
  | some input => encodingToUtf8 encoding input

def writeOutput (files : Files) (outputFile : CStr) (f : UtfFile) : Outcome :=
  if files.opens outputFile then
    let written := fwrite f.content (f.size - 1) 1
    if written.1 ≠ 1 then
      { status := 1, printed := "write output file error: ", output := some written.2 }
    else { status := 0, printed := "", output := some written.2 }
  else { status := 1, printed := "open output file error: ", output := none }

/-- `main` on its arguments, without the name of the program. -/
def main (files : Files) : List CStr → Outcome
  | [] =>
      { status := 0
        printed := "Usage: ./utf-encoder <encoding> <input_file> <output_file>"
        output := none }
  | [_] => { status := 0, printed := "Input file is required", output := none }
  | [_, _] => { status := 0, printed := "Output file is required", output := none }
  | encoding :: inputFile :: outputFile :: _ =>
      match encodeFile files encoding inputFile with
      | .error text => { status := 1, printed := text, output := none }
      | .ok f => writeOutput files outputFile f

def Delivers (page : CodePage) (files : Files) (inputFile outputFile : CStr)
    (arguments : List CStr) (f : UtfFile) : Prop :=
  main files (page.name :: inputFile :: outputFile :: arguments) =
    { status := 0, printed := "", output := some f.emitted }

theorem writeOutput_of_opens {files : Files} {outputFile : CStr}
    (h : files.opens outputFile = true) (f : UtfFile) :
    writeOutput files outputFile f =
      if f.size - 1 = 0 then
        { status := 1, printed := "write output file error: ", output := some f.emitted }
      else { status := 0, printed := "", output := some f.emitted } := by
  simp only [writeOutput, fwrite, h, if_true, Nat.mul_one, UtfFile.emitted]
  split <;> simp

theorem main_of_accepted {page : CodePage} {files : Files} {inputFile outputFile : CStr}
    {input : List UInt8} {f : UtfFile} (hread : files.content inputFile = some input)
    (hf : encodingToUtf8 page.name input = .ok f) (arguments : List CStr) :
    main files (page.name :: inputFile :: outputFile :: arguments) =
      writeOutput files outputFile f := by
  have hencode : encodeFile files page.name inputFile = .ok f := by
    rw [encodeFile, hread]
    exact hf
  simp only [main, hencode]

/-- An accepted file is converted unless it is empty. Of the empty file there
is nothing to write, and the count of zero items is taken for a failure. -/
theorem delivers_iff {page : CodePage} {files : Files} {inputFile outputFile : CStr}
    {input : List UInt8} {f : UtfFile} (hread : files.content inputFile = some input)
    (hopens : files.opens outputFile = true) (hf : encodingToUtf8 page.name input = .ok f)
    (arguments : List CStr) :
    Delivers page files inputFile outputFile arguments f ↔ input ≠ [] := by
  have hsize : f.size - 1 = 0 ↔ input = [] := by
    rw [(size_and_content hf).2, Nat.add_sub_cancel, List.length_eq_zero_iff,
      emission_eq_nil_iff]
  rw [Delivers, main_of_accepted hread hf, writeOutput_of_opens hopens]
  by_cases hempty : input = []
  · rw [if_pos (hsize.mpr hempty)]
    simp [hempty]
  · rw [if_neg fun h => hempty (hsize.mp h)]
    simp [hempty]

theorem delivers_iff_letter :
    Delivers .cp1251 ⟨fun _ => some [0xe4], fun _ => true⟩ (ofBuffer [0x61]) (ofBuffer [0x62]) []
        { content := [some 0xd0, some 0xb4, none, some 0], size := 3 } ↔
      ([0xe4] : List UInt8) ≠ [] := by
  exact delivers_iff rfl rfl (by decide +kernel) []

theorem not_delivers_of_empty : ¬ ∀ (page : CodePage) (files : Files)
    (inputFile outputFile : CStr) (input : List UInt8) (f : UtfFile) (arguments : List CStr),
    files.content inputFile = some input → files.opens outputFile = true →
      encodingToUtf8 page.name input = .ok f →
        Delivers page files inputFile outputFile arguments f := by
  intro h
  have hdelivers := h .cp1251 ⟨fun _ => some [], fun _ => true⟩ (ofBuffer [0x61])
    (ofBuffer [0x62]) [] { content := [none, some 0], size := 1 } [] rfl rfl (by decide +kernel)
  rw [Delivers] at hdelivers
  revert hdelivers
  decide +kernel

end CHomework.UtfEncoder
