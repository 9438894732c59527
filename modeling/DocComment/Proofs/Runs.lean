import DocComment.CommandLine.Run
import DocComment.Proofs.Files
import DocComment.Proofs.WithoutOutput

/-!
# Whole runs

On any files, a run either fails and leaves everything as it was, or does what it was asked for. A
conversion writes to its output what it would print without one, and what it writes depends on the
files before the run only, so the output may be a file that was read.
-/

namespace DocComment.CommandLine

/-! ## Answers -/

namespace Outcome

/-- What is printed goes to a file instead. -/
def toFile (path : String) : Outcome → Outcome
  | .printed text warnings => .written path text warnings
  | outcome => outcome

/-- Nothing is to be written and no help is given. -/
inductive Plain : Outcome → Prop
  | failed (failure : Failure) : Plain (.failed failure [])
  | printed (text : String) (warnings : List Diagnostic) : Plain (.printed text warnings)

theorem Plain.eq_printed {outcome : Outcome} (hplain : outcome.Plain) {path other text : String}
    {warnings : List Diagnostic} (h : outcome.toFile path = .written other text warnings) :
    path = other ∧ outcome = .printed text warnings := by
  cases hplain with
  | failed => contradiction
  | printed =>
    obtain ⟨rfl, rfl, rfl⟩ := Outcome.written.inj h
    exact ⟨rfl, rfl⟩

theorem printout_of_exitCode {outcome : Outcome} (h : outcome.exitCode ≠ 0) :
    outcome.printout = .nothing := by
  cases outcome <;> first | rfl | exact absurd rfl h

end Outcome

section Answers

variable (readFile : String → Except FileError String) {request : Request}

theorem runTask_toFile (settings : Settings) (input path : String) :
    runTask readFile settings (.convert input (some path)) =
      (runTask readFile settings (.convert input none)).toFile path := by
  simp only [runTask]
  cases readDeclarations readFile input <;> rfl

theorem plain_runTask (settings : Settings) {task : Task} (h : task.outputPath? = none) :
    (runTask readFile settings task).Plain := by
  cases task with
  | inspect path transform =>
    simp only [runTask]
    split
    · exact .failed _
    · split
      · exact .failed _
      · exact .printed _ _
  | convert input output =>
    obtain rfl : output = none := h
    simp only [runTask]
    split
    · exact .failed _
    · exact .printed _ _

/-- A request for a listing, or for nothing to be written, fails or prints. -/
theorem plain_answer
    (h : request.listTransforms = true ∨ request.listTags = true ∨ request.outputPath? = none) :
    (answer readFile request).Plain := by
  unfold answer
  split
  · exact .failed _
  · split
    · exact .printed _ _
    · split
      · exact .printed _ _
      · split
        · exact .failed _
        next task htask =>
          refine plain_runTask readFile _ ?_
          simp_all [Request.outputPath?]

/-- The output takes what would be printed without it. -/
theorem answer_toFile {path : String} (htransforms : request.listTransforms = false)
    (htags : request.listTags = false) (hpath : request.outputPath? = some path) :
    answer readFile request = (answer readFile request.withoutOutput).toFile path := by
  obtain ⟨input, htask⟩ := request.task_of_outputPath? hpath
  simp only [answer, Request.withoutOutput, htransforms, htags, htask, Option.map_some,
    Task.withoutOutput]
  cases loadSettings readFile request.config with
  | error => rfl
  | ok settings => exact runTask_toFile readFile _ input path

theorem plain_withoutOutput (request : Request) : (answer readFile request.withoutOutput).Plain :=
  plain_answer readFile (.inr (.inr request.outputPath?_withoutOutput))

/-- Nothing but the output of a conversion is written. -/
theorem outputPath?_of_written {path text : String} {warnings : List Diagnostic}
    (h : answer readFile request = .written path text warnings) :
    request.outputPath? = some path := by
  by_cases hplain : request.listTransforms = true ∨ request.listTags = true ∨
    request.outputPath? = none
  · have hanswer := plain_answer readFile hplain
    rw [h] at hanswer
    contradiction
  · simp only [not_or, Bool.not_eq_true, ← ne_eq, Option.ne_none_iff_exists'] at hplain
    obtain ⟨htransforms, htags, output, houtput⟩ := hplain
    rw [answer_toFile readFile htransforms htags houtput] at h
    obtain ⟨rfl, -⟩ := (plain_withoutOutput readFile request).eq_printed h
    exact houtput

end Answers

/-! ## Runs -/

section Runs

variable {Files File : Type} {system : FileSystem Files} {before : Files} {arguments : List String}
  {request : Request}

theorem run_of_read {readFile : String → Except FileError String}
    (h : read arguments = .ok request) :
    run readFile arguments = answer readFile request := by
  rw [run, h]

theorem runOn_plain (h : (run (system.readFile before) arguments).Plain) :
    runOn system before arguments = (run (system.readFile before) arguments, before) := by
  unfold runOn
  split
  next hrun =>
    rw [hrun] at h
    contradiction
  next => rfl

/-- The files stay as they are, or what a run writes is written. -/
theorem runOn_files (system : FileSystem Files) (before : Files) (arguments : List String) :
    (runOn system before arguments).2 = before ∨
      ∃ path text warnings, run (system.readFile before) arguments = .written path text warnings ∧
        (runOn system before arguments).1 = .written path text warnings ∧
        system.writeFile before path text = .ok (runOn system before arguments).2 := by
  unfold runOn
  split
  next path text warnings hrun =>
    split
    next after hafter => exact .inr ⟨path, text, warnings, hrun, rfl, hafter⟩
    next => exact .inl rfl
  next => exact .inl rfl

/-- A run that does not fail comes to what it said it would before it wrote anything. -/
theorem runOn_of_success (h : (runOn system before arguments).1.exitCode = 0) :
    (runOn system before arguments).1 = run (system.readFile before) arguments := by
  unfold runOn at h ⊢
  split
  next path text warnings hrun =>
    rw [hrun] at h
    dsimp only at h
    split
    next => rw [hrun]
    next error hwrite =>
      rw [hwrite] at h
      contradiction
  next => rfl

/-- A run that fails prints nothing and changes nothing. One that does not fail makes at most one
change, which is to write the output of a conversion: other files keep what they hold, and there is
then in the output what is printed without it. A conversion with an output that can be written fails
only if it fails without it. -/
structure AllOrNothing (system : FileSystem Files) (fileAt? : Files → String → Option File)
    (before : Files) (arguments : List String) : Prop where
  of_failure : (runOn system before arguments).1.exitCode ≠ 0 →
    (runOn system before arguments).1.printout = .nothing ∧
      (runOn system before arguments).2 = before
  of_change : (runOn system before arguments).2 ≠ before →
    ∃ request path text, read arguments = .ok request ∧ request.outputPath? = some path ∧
      system.writeFile before path text = .ok (runOn system before arguments).2
  of_otherText (other : String) :
    system.text? (runOn system before arguments).2 other ≠ system.text? before other →
      ∃ request path file, read arguments = .ok request ∧ request.outputPath? = some path ∧
        fileAt? before path = some file ∧ fileAt? before other = some file
  of_output (request : Request) (path : String) :
    read arguments = .ok request → request.outputPath? = some path →
    request.listTransforms = false → request.listTags = false →
    (runOn system before arguments).1.exitCode = 0 →
      (runOn system before arguments).1.printout = .nothing ∧
      read (withoutOutput arguments) = .ok request.withoutOutput ∧
      ∃ text warnings,
        runOn system before (withoutOutput arguments) = (.printed text warnings, before) ∧
        system.writeFile before path text = .ok (runOn system before arguments).2 ∧
        ∀ file, fileAt? before path = some file →
          system.readFile (runOn system before arguments).2 path = .ok text
  of_printed (request : Request) (path text : String) (warnings : List Diagnostic) (after : Files) :
    read arguments = .ok request → request.outputPath? = some path →
    request.listTransforms = false → request.listTags = false →
    runOn system before (withoutOutput arguments) = (.printed text warnings, before) →
    system.writeFile before path text = .ok after →
      runOn system before arguments = (.written path text warnings, after)

theorem runOn_of_failure (h : (runOn system before arguments).1.exitCode ≠ 0) :
    (runOn system before arguments).1.printout = .nothing ∧
      (runOn system before arguments).2 = before := by
  refine ⟨Outcome.printout_of_exitCode h, ?_⟩
  obtain hsame | ⟨path, text, warnings, -, hwritten, -⟩ := runOn_files system before arguments
  · exact hsame
  · rw [hwritten] at h
    contradiction

theorem runOn_of_change (h : (runOn system before arguments).2 ≠ before) :
    ∃ request path text, read arguments = .ok request ∧ request.outputPath? = some path ∧
      system.writeFile before path text = .ok (runOn system before arguments).2 := by
  obtain ⟨path, text, warnings, hrun, -, hafter⟩ :=
    (runOn_files system before arguments).resolve_left h
  unfold run at hrun
  split at hrun
  case h_4 request hread =>
    exact ⟨request, path, text, hread, outputPath?_of_written (system.readFile before) hrun, hafter⟩
  all_goals contradiction

theorem runOn_of_otherText {fileAt? : Files → String → Option File}
    (hlawful : system.Lawful fileAt?) {other : String}
    (h : system.text? (runOn system before arguments).2 other ≠ system.text? before other) :
    ∃ request path file, read arguments = .ok request ∧ request.outputPath? = some path ∧
      fileAt? before path = some file ∧ fileAt? before other = some file := by
  have hchange : (runOn system before arguments).2 ≠ before := fun hsame => h (by rw [hsame])
  obtain ⟨request, path, text, hread, hpath, hafter⟩ := runOn_of_change hchange
  by_contra hapart
  refine h (hlawful.text?_of_writeFile hafter fun file hfile hother => hapart ?_)
  exact ⟨request, path, file, hread, hpath, hfile, hother⟩

section Output

variable {path : String} (hread : read arguments = .ok request)
  (hpath : request.outputPath? = some path)
include hread hpath

theorem runOn_withoutOutput (system : FileSystem Files) (before : Files) :
    runOn system before (withoutOutput arguments) =
      (answer (system.readFile before) request.withoutOutput, before) := by
  obtain ⟨input, htask⟩ := request.task_of_outputPath? hpath
  have hrun : run (system.readFile before) (withoutOutput arguments) =
      answer (system.readFile before) request.withoutOutput :=
    run_of_read (read_withoutOutput hread htask)
  have hplain := plain_withoutOutput (system.readFile before) request
  rw [← hrun] at hplain
  rw [runOn_plain hplain, hrun]

variable (htransforms : request.listTransforms = false) (htags : request.listTags = false)
include htransforms htags

theorem run_toFile (readFile : String → Except FileError String) :
    run readFile arguments = (answer readFile request.withoutOutput).toFile path := by
  rw [run_of_read hread, answer_toFile _ htransforms htags hpath]

theorem runOn_of_output (hexit : (runOn system before arguments).1.exitCode = 0) :
    (runOn system before arguments).1.printout = .nothing ∧
      read (withoutOutput arguments) = .ok request.withoutOutput ∧
      ∃ text warnings,
        runOn system before (withoutOutput arguments) = (.printed text warnings, before) ∧
        system.writeFile before path text = .ok (runOn system before arguments).2 := by
  obtain ⟨input, htask⟩ := request.task_of_outputPath? hpath
  have hother : read (withoutOutput arguments) = .ok request.withoutOutput :=
    read_withoutOutput hread htask
  have hrun := run_toFile hread hpath htransforms htags (system.readFile before)
  have hplain := plain_withoutOutput (system.readFile before) request
  rw [runOn_withoutOutput hread hpath system before]
  generalize answer (system.readFile before) request.withoutOutput = outcome at hrun hplain ⊢
  cases hplain with
  | failed failure => simp [runOn, hrun, Outcome.toFile, Outcome.exitCode] at hexit
  | printed text warnings =>
    have hwritten : run (system.readFile before) arguments = .written path text warnings := hrun
    cases hwrite : system.writeFile before path text with
    | error error => simp [runOn, hwritten, hwrite, Outcome.exitCode] at hexit
    | ok after =>
      have hafter : runOn system before arguments = (.written path text warnings, after) := by
        simp [runOn, hwritten, hwrite]
      rw [hafter]
      exact ⟨rfl, hother, text, warnings, rfl, hwrite⟩

theorem runOn_of_printed {text : String} {warnings : List Diagnostic} {after : Files}
    (hprinted : runOn system before (withoutOutput arguments) = (.printed text warnings, before))
    (hafter : system.writeFile before path text = .ok after) :
    runOn system before arguments = (.written path text warnings, after) := by
  rw [runOn_withoutOutput hread hpath system before, Prod.mk.injEq] at hprinted
  have hrun := run_toFile hread hpath htransforms htags (system.readFile before)
  rw [hprinted.1] at hrun
  unfold runOn
  rw [hrun]
  simp only [Outcome.toFile, hafter]

end Output

/-- A record with a comment that is written as it is. -/
def oneRecord : Directory := [("in.json", "[\"f\", [], \" Adds. \", [true]]")]

end Runs

/-! ## Files read ahead -/

section ReadAhead

variable {readFile other : String → Except FileError String}

theorem settingsText?_congr {path : String} (hpath : readFile path = other path)
    (hending : ∀ ended, Path.withEnding? path settingsEnding = some ended →
      readFile ended = other ended) :
    settingsText? readFile path = settingsText? other path := by
  unfold settingsText?
  rw [hpath]
  cases hended : Path.withEnding? path settingsEnding with
  | none => rfl
  | some ended => simp only [Option.bind_some, hending ended hended]

theorem loadSettings_congr {config : Option String}
    (h : ∀ path ∈ settingsPath :: config.toList,
      settingsText? readFile path = settingsText? other path) :
    loadSettings readFile config = loadSettings other config := by
  simp only [loadSettings]
  rw [h settingsPath List.mem_cons_self, List.map_congr_left fun path hpath => ?_]
  rw [h path (List.mem_cons_of_mem _ hpath)]

/-- The file that a task reads. -/
def Task.inputPath : Task → String
  | .inspect path _ => path
  | .convert input _ => input

theorem runTask_congr (settings : Settings) {task : Task}
    (h : readFile task.inputPath = other task.inputPath) :
    runTask readFile settings task = runTask other settings task := by
  have hread : readDeclarations readFile task.inputPath =
      readDeclarations other task.inputPath := by
    rw [readDeclarations, readDeclarations, h]
  cases task <;> simp only [Task.inputPath] at hread <;> simp only [runTask, hread]

theorem mem_readPaths_input {arguments : List String} {request : Request} {task : Task}
    (hread : read arguments = .ok request) (htask : request.task = some task) :
    task.inputPath ∈ readPaths arguments := by
  cases task <;> simp [readPaths, hread, htask, Task.inputPath]

theorem mem_readPaths_settings {arguments : List String} {request : Request} {path : String}
    (hread : read arguments = .ok request) (hpath : path ∈ settingsPath :: request.config.toList) :
    path ∈ readPaths arguments := by
  simp only [readPaths, hread, List.mem_append]
  exact .inl (.inl hpath)

theorem mem_readPaths_ending {arguments : List String} {request : Request} {path ended : String}
    (hread : read arguments = .ok request) (hpath : path ∈ settingsPath :: request.config.toList)
    (hended : Path.withEnding? path settingsEnding = some ended) : ended ∈ readPaths arguments := by
  simp only [readPaths, hread, List.mem_append, List.mem_filterMap]
  exact .inl (.inr ⟨path, hpath, hended⟩)

/-- A run may have its files read ahead, since it reads no others. -/
theorem run_congr {arguments : List String}
    (h : ∀ path ∈ readPaths arguments, readFile path = other path) :
    run readFile arguments = run other arguments := by
  unfold run
  cases hread : read arguments with
  | error stop => cases stop <;> rfl
  | ok request =>
    have hsettings : loadSettings readFile request.config = loadSettings other request.config :=
      loadSettings_congr fun path hpath =>
        settingsText?_congr (h path (mem_readPaths_settings hread hpath)) fun ended hended =>
          h ended (mem_readPaths_ending hread hpath hended)
    simp only [answer, hsettings]
    cases htask : request.task with
    | none => rfl
    | some task => simp only [runTask_congr _ (h task.inputPath (mem_readPaths_input hread htask))]

end ReadAhead

end DocComment.CommandLine
