import DocComment.CommandLine.Run
import DocComment.Proofs.WithoutOutput

/-!
# The command that may be left out

A first word that is neither an option nor the name of a command cannot be read at the top, whatever
comes behind it. All arguments are then read at the conversion, just as they are behind its name, so
leaving the name out changes nothing about a run, be it in order or not.
-/

namespace DocComment.CommandLine

/-- The request of a conversion with its arguments. -/
def conversion (arguments : List String) : Except Stop Request := do
  let given ← readCommand .convert arguments
  let task ← taskOf .convert given
  return requestOfCommand {} given task

theorem readExactly_convert (arguments : List String) :
    readExactly (Command.convert.name :: arguments) = conversion arguments :=
  readTop_convert (by decide) arguments

/-- Behind the name of the command, arguments that are not in order stay so. -/
theorem read_convert (arguments : List String) :
    read (Command.convert.name :: arguments) = conversion arguments := by
  rw [read, readExactly_convert]
  cases conversion arguments with
  | ok request => rfl
  | error stop => rfl

theorem mayLeaveOutCommand_iff (first : String) :
    mayLeaveOutCommand first = true ↔
      first.toList.head? ≠ some '-' ∧ first ∉ ["inspect", "convert", "help"] := by
  have hname : Command.ofName? first = none ↔ "inspect" ≠ first ∧ "convert" ≠ first := by
    simp [Command.ofName?, Command.name]
  rw [mayLeaveOutCommand, Bool.and_eq_true, Bool.and_eq_true, bne_iff_ne, bne_iff_ne,
    Option.isNone_iff_eq_none, hname, helpWord]
  simp only [List.mem_cons, List.not_mem_nil, or_false, not_or]
  constructor
  · rintro ⟨⟨hdash, hhelp⟩, hinspect, hconvert⟩
    exact ⟨hdash, hinspect.symm, hconvert.symm, hhelp⟩
  · rintro ⟨hdash, hinspect, hconvert, hhelp⟩
    exact ⟨⟨hdash, hhelp⟩, Ne.symm hinspect, Ne.symm hconvert⟩

/-- Without the name of the command, the first reading fails and the second is that of a
conversion. -/
theorem read_word {first : String} (h : mayLeaveOutCommand first = true) (rest : List String) :
    read (first :: rest) = conversion (first :: rest) := by
  rw [read, readExactly_word h]
  exact (if_pos h).trans (readExactly_convert (first :: rest))

section SameReading

variable {left right : List String} (h : read left = read right)
include h

/-- Arguments that ask for the same have the same run. -/
theorem run_eq_of_read (readFile : String → Except FileError String) :
    run readFile left = run readFile right := by
  rw [run, run, h]

theorem readPaths_eq_of_read : readPaths left = readPaths right := by
  rw [readPaths, readPaths, h]

theorem runOn_eq_of_read {Files : Type} (system : FileSystem Files) (before : Files) :
    runOn system before left = runOn system before right := by
  rw [runOn, runOn, run_eq_of_read h]

end SameReading

/-- Before a first word that is no option and no other name, the name of a conversion may be left
out. The arguments as they stand are not in order. The run is that of the arguments with the name,
whatever the files hold; it may read the same files, and on any files it does the same. -/
theorem command_left_out {first : String} (hdash : first.toList.head? ≠ some '-')
    (hname : first ∉ ["inspect", "convert", "help"]) (rest : List String) :
    readExactly (first :: rest) = .error .usage ∧
      (∀ readFile, run readFile (first :: rest) = run readFile ("convert" :: first :: rest)) ∧
      readPaths (first :: rest) = readPaths ("convert" :: first :: rest) ∧
      ∀ {Files : Type} (system : FileSystem Files) (before : Files),
        runOn system before (first :: rest) = runOn system before ("convert" :: first :: rest) := by
  have hfirst : mayLeaveOutCommand first = true := (mayLeaveOutCommand_iff first).2 ⟨hdash, hname⟩
  have hread : read (first :: rest) = read ("convert" :: first :: rest) :=
    (read_word hfirst rest).trans (read_convert (first :: rest)).symm
  exact ⟨readExactly_word hfirst rest, run_eq_of_read hread, readPaths_eq_of_read hread,
    runOn_eq_of_read hread⟩

/-- Help is asked for behind a flag that is given twice, and the flag comes first. -/
theorem command_left_out_repeatedFlag :
    "in.json".toList.head? ≠ some '-' ∧ "in.json" ∉ ["inspect", "convert", "help"] ∧
      readExactly ["in.json", "--list-tags", "--list-tags", "--help", "--", "more"] =
        .error .usage ∧
      runIn [("in.json", "[]")] ["in.json", "--list-tags", "--list-tags", "--help", "--", "more"] =
        runIn [("in.json", "[]")]
          ["convert", "in.json", "--list-tags", "--list-tags", "--help", "--", "more"] ∧
      runIn [("in.json", "[]")] ["in.json", "--list-tags", "--list-tags", "--help", "--", "more"] =
        (.usage, [("in.json", "[]")]) := by
  have hdash : "in.json".toList.head? ≠ some '-' := by decide
  have hname : "in.json" ∉ ["inspect", "convert", "help"] := by decide
  obtain ⟨hexactly, -, -, hrun⟩ :=
    command_left_out hdash hname ["--list-tags", "--list-tags", "--help", "--", "more"]
  refine ⟨hdash, hname, hexactly, hrun Directory.system [("in.json", "[]")], ?_⟩
  decide +kernel

end DocComment.CommandLine
