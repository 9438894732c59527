import DocComment.Proofs.DebugFlags
import DocComment.Proofs.Runs

/-!
# Warnings on their way

Warnings are recorded with a tree, and reported one after the other when the tree is read. The walks
here report to a sink while they write or prepare the trees of declarations, and leave a declaration
as early as its comment lets them. They come to the same as without a sink, and the sink gets the
warnings of the declarations whose trees are read, each of them once and in order. These are the
warnings that a run tells.
-/

namespace DocComment

section Reporting

/-! ## Walks with a sink -/

variable {σ : Type} (report : σ → Diagnostic → σ)

/-- A walk comes to a value and reports these warnings, whatever has been told before. -/
def Reports {α : Type} (walk : StateM σ α) (value : α) (warnings : List Diagnostic) : Prop :=
  ∀ told, walk.run told = (value, warnings.foldl report told)

namespace Reports

variable {report} {α β : Type} {walk : StateM σ α} {value : α} {warnings more : List Diagnostic}

theorem pure (value : α) : Reports report (Pure.pure value) value [] := fun _ => rfl

theorem bind {next : α → StateM σ β} {result : β} (h : Reports report walk value warnings)
    (h' : Reports report (next value) result more) :
    Reports report (walk >>= next) result (warnings ++ more) := by
  intro told
  rw [StateT.run_bind, h told, List.foldl_append]
  exact h' _

/-- What a walk comes to can be worked on without a word to the sink. -/
theorem andThen (h : Reports report walk value warnings) (f : α → β) :
    Reports report (walk >>= fun value => Pure.pure (f value)) (f value) warnings := by
  rw [← List.append_nil warnings]
  exact h.bind (.pure (f value))

theorem mapM {visit : α → StateM σ β} {value : α → β} {warnings : α → List Diagnostic}
    (h : ∀ a, Reports report (visit a) (value a) (warnings a)) (l : List α) :
    Reports report (l.mapM visit) (l.map value) (l.flatMap warnings) := by
  induction l with
  | nil => exact .pure []
  | cons a l ih =>
    rw [List.mapM_cons]
    exact (h a).bind (ih.andThen (value a :: ·))

end Reports

namespace Declaration

/-- Reports the recorded warnings and hands out the tree. -/
def readTree (declaration : Declaration) : StateM σ (List Node) := do
  declaration.diagnostics.forM fun diagnostic => modify fun told => report told diagnostic
  return declaration.tree

theorem reports_readTree (declaration : Declaration) :
    Reports report (declaration.readTree report) declaration.tree declaration.diagnostics := by
  have hreported (diagnostics : List Diagnostic) :
      Reports report
        (diagnostics.forM fun diagnostic => modify fun told => report told diagnostic) ()
        diagnostics := by
    induction diagnostics with
    | nil => exact .pure ()
    | cons diagnostic rest ih => exact fun told => ih (report told diagnostic)
  exact (hreported declaration.diagnostics).andThen fun _ => declaration.tree

variable (table : HandlerTable) (options : Options)

/-- Writes the comment block; the tree is read only to be translated. -/
def writeReporting (declaration : Declaration) : StateM σ Text :=
  match declaration.comment with
  | none => return []
  | some raw =>
    if declaration.isVerbatim options then return BlockComment.frame raw.toList
    else do
      let nodes ← declaration.readTree report
      let scope := declaration.scope options
      return (Node.atStage table scope nodes .shifted).renderBody table scope ++ ['\n']

/-- Prepares the tree up to a stage, be it to be translated or not. -/
def prepareReporting (stage : Stage) (declaration : Declaration) : StateM σ (Option Node) :=
  match declaration.comment with
  | none => return none
  | some _ => do
    let nodes ← declaration.readTree report
    return some (Node.atStage table (declaration.scope options) nodes stage)

theorem reports_writeReporting (declaration : Declaration) :
    Reports report (declaration.writeReporting report table options)
      (declaration.write table options)
      (declaration.writeWarnings options) := by
  rw [writeReporting, write, writeWarnings, treeWarnings]
  cases declaration.comment with
  | none => cases declaration.isVerbatim options <;> exact .pure []
  | some raw =>
    cases hverbatim : declaration.isVerbatim options with
    | true => exact .pure _
    | false => exact (reports_readTree report declaration).andThen _

theorem reports_prepareReporting (stage : Stage) (declaration : Declaration) :
    Reports report (declaration.prepareReporting report table options stage)
      (declaration.treeAt? table options stage) declaration.treeWarnings := by
  rw [prepareReporting, treeAt?, treeWarnings]
  cases declaration.comment with
  | none => exact .pure none
  | some raw => exact (reports_readTree report declaration).andThen _

end Declaration

end Reporting

/-! ## The declarations whose trees are read -/

theorem flatMap_ite_nil {α β : Type} (p : α → Bool) (f : α → List β) (l : List α) :
    l.flatMap (fun a => if p a then f a else []) = (l.filter p).flatMap f := by
  induction l with
  | nil => rfl
  | cons a l ih =>
    rw [List.flatMap_cons, ih, List.filter_cons]
    split <;> rfl

namespace Declaration

/-- Whether the comment is there and neither the options nor the declaration ask for it as it is. -/
def isTranslated (options : Options) (declaration : Declaration) : Bool :=
  declaration.comment.isSome && !options.verbatim && !declaration.features.notranslate

theorem writeWarnings_eq (options : Options) (declaration : Declaration) :
    declaration.writeWarnings options =
      if declaration.isTranslated options then declaration.diagnostics else [] := by
  rw [writeWarnings, treeWarnings, isVerbatim, isTranslated]
  cases declaration.comment.isSome <;> cases options.verbatim <;>
    cases declaration.features.notranslate <;>
    rfl

theorem flatMap_writeWarnings (options : Options) (declarations : List Declaration) :
    declarations.flatMap (writeWarnings options) =
      (declarations.filter (isTranslated options)).flatMap diagnostics := by
  rw [← flatMap_ite_nil]
  exact congrArg (List.flatMap · declarations) (funext (writeWarnings_eq options))

theorem flatMap_treeWarnings (declarations : List Declaration) :
    declarations.flatMap treeWarnings =
      (declarations.filter (·.comment.isSome)).flatMap diagnostics :=
  flatMap_ite_nil _ _ _

end Declaration

namespace CommandLine

/-! ## Runs -/

/-- Whether a task reads the tree of a declaration. -/
def Task.readsTree (options : Options) : Task → Declaration → Bool
  | .inspect _ _, declaration => declaration.comment.isSome
  | .convert _ _, declaration => declaration.isTranslated options

section Runs

variable {readFile : String → Except FileError String} {request : Request}

/-- The warnings of the trees that a task reads, as far as its level lets them through. -/
theorem warnings_of_runTask {settings : Settings} {task : Task}
    (h : (runTask readFile settings task).exitCode = 0) :
    ∃ declarations, readDeclarations readFile task.inputPath = .ok declarations ∧
      (runTask readFile settings task).warnings =
        if settings.level = .error then []
        else (declarations.filter (task.readsTree settings.options)).flatMap
          Declaration.diagnostics := by
  have htold (warnings : List Diagnostic) :
      (if settings.level.tellsWarnings then warnings else []) =
        if settings.level = .error then [] else warnings := by
    cases settings.level <;> rfl
  cases task with
  | inspect path transform =>
    cases hread : readDeclarations readFile path with
    | error failure =>
      simp only [runTask, hread] at h
      contradiction
    | ok declarations =>
      refine ⟨declarations, hread, ?_⟩
      have hreads :
          (declarations.filter (Task.readsTree settings.options (.inspect path transform))).flatMap
          Declaration.diagnostics = declarations.flatMap Declaration.treeWarnings :=
        (Declaration.flatMap_treeWarnings declarations).symm
      rw [hreads, ← htold]
      simp only [runTask, hread] at h ⊢
      split
      next hdisplay =>
        simp only [hdisplay] at h
        contradiction
      next => rfl
  | convert input output =>
    cases hread : readDeclarations readFile input with
    | error failure =>
      simp only [runTask, hread] at h
      contradiction
    | ok declarations =>
      refine ⟨declarations, hread, ?_⟩
      have hreads :
          (declarations.filter (Task.readsTree settings.options (.convert input output))).flatMap
          Declaration.diagnostics = declarations.flatMap
            (Declaration.writeWarnings settings.options) :=
        (Declaration.flatMap_writeWarnings settings.options declarations).symm
      rw [hreads, ← htold]
      simp only [runTask, hread]
      cases output <;> rfl

theorem warnings_of_answer (htransforms : request.listTransforms = false)
    (htags : request.listTags = false) (h : (answer readFile request).exitCode = 0) :
    ∃ settings task declarations, loadSettings readFile request.config = .ok settings ∧
      request.task = some task ∧ readDeclarations readFile task.inputPath = .ok declarations ∧
      (answer readFile request).warnings =
        if settings.level.raised request.debug = .error then []
        else (declarations.filter (task.readsTree settings.options)).flatMap
          Declaration.diagnostics := by
  unfold answer at h ⊢
  cases hsettings : loadSettings readFile request.config with
  | error error =>
    rw [hsettings] at h
    contradiction
  | ok settings =>
    simp only [hsettings, htransforms, htags, Bool.false_eq_true, if_false] at h ⊢
    cases htask : request.task with
    | none =>
      rw [htask] at h
      contradiction
    | some task =>
      rw [htask] at h
      obtain ⟨declarations, hread, hwarnings⟩ := warnings_of_runTask h
      exact ⟨settings, task, declarations, rfl, rfl, hread, hwarnings⟩

end Runs

/-- Walks over any declarations write and prepare what is written and prepared without a sink, and
tell any sink the warnings that go with it: those of the declarations with a comment, and of these
only of the translated ones if comments are written. A run of a task that does not fail, whatever is
read, tells the warnings of the trees it reads if the level of its settings, raised by the debug
flags among the arguments, is above that of errors, and else none; on any files, a run that does not
fail comes to this run. -/
theorem warnings_forwarded :
    (∀ {σ : Type} (report : σ → Diagnostic → σ) (table : HandlerTable) (options : Options)
      (declarations : List Declaration),
      Reports report (declarations.mapM (Declaration.writeReporting report table options))
          (declarations.map (Declaration.write table options))
          (declarations.flatMap (Declaration.writeWarnings options)) ∧
        ∀ stage, Reports report
          (declarations.mapM (Declaration.prepareReporting report table options stage))
          (declarations.map (Declaration.treeAt? table options · stage))
          (declarations.flatMap Declaration.treeWarnings)) ∧
      (∀ (options : Options) (declarations : List Declaration),
        declarations.flatMap (Declaration.writeWarnings options) =
            (declarations.filter (Declaration.isTranslated options)).flatMap
              Declaration.diagnostics ∧
          declarations.flatMap Declaration.treeWarnings =
            (declarations.filter (·.comment.isSome)).flatMap Declaration.diagnostics) ∧
      (∀ (readFile : String → Except FileError String) (arguments : List String)
        (request : Request),
        read arguments = .ok request → request.listTransforms = false → request.listTags = false →
        (run readFile arguments).exitCode = 0 →
          ∃ settings task declarations, loadSettings readFile request.config = .ok settings ∧
            request.task = some task ∧ readDeclarations readFile task.inputPath = .ok declarations ∧
            (run readFile arguments).warnings =
              if settings.level.raised (debugFlags arguments) = .error then []
              else (declarations.filter (task.readsTree settings.options)).flatMap
                Declaration.diagnostics) ∧
      ∀ {Files : Type} (system : FileSystem Files) (before : Files) (arguments : List String),
        (runOn system before arguments).1.exitCode = 0 →
          (runOn system before arguments).1 = run (system.readFile before) arguments := by
  refine ⟨fun report table options declarations => ⟨?_, fun stage => ?_⟩,
    fun options declarations => ⟨?_, ?_⟩, ?_, fun _ _ _ => runOn_of_success⟩
  · exact .mapM (Declaration.reports_writeReporting report table options) declarations
  · exact .mapM (Declaration.reports_prepareReporting report table options stage) declarations
  · exact Declaration.flatMap_writeWarnings options declarations
  · exact Declaration.flatMap_treeWarnings declarations
  · intro readFile arguments request hread htransforms htags hexit
    rw [run_of_read hread] at hexit ⊢
    obtain ⟨settings, task, declarations, hsettings, htask, hdeclarations, hwarnings⟩ :=
      warnings_of_answer htransforms htags hexit
    refine ⟨settings, task, declarations, hsettings, htask, hdeclarations, ?_⟩
    simp only [← raised_debug_eq_error_iff hread, hwarnings]

/-- A declaration that is translated, one that is kept as it is, and one without a comment. -/
def mixedDeclarations : List Declaration :=
  [{ name := "f", comment := some "", diagnostics := [⟨.htmlError, "p"⟩] },
    { name := "g", comment := some "", features := { notranslate := true },
      diagnostics := [⟨.htmlError, "b"⟩] },
    { name := "h", diagnostics := [⟨.htmlError, "i"⟩] }]

/-- They stand beside settings that ask for errors only. -/
def mixedRecords : Directory :=
  [("xmldoc.toml", "[logging]\nlevel='error'"),
    ("in.json", "[[\"f\",[],\"\",[],[],[[\"html-error\",\"p\"]]],
[\"g\",[],\"\",[true],[],[[\"html-error\",\"b\"]]],
[\"h\",[],null,[],[],[[\"html-error\",\"i\"]]]]")]

/-- A debug flag lets the warnings of the trees that are read through. -/
theorem warnings_forwarded_mixedRecords :
    (runIn mixedRecords ["in.json"]).1.warnings = [] ∧
      (runIn mixedRecords ["convert", "-d", "in.json"]).1.warnings = [⟨.htmlError, "p"⟩] ∧
      (runIn mixedRecords ["inspect", "-d", "in.json"]).1.warnings =
        [⟨.htmlError, "p"⟩, ⟨.htmlError, "b"⟩] := by
  have hload : loadSettings mixedRecords.readFile none = .ok ⟨{}, .error⟩ := by decide +kernel
  have hinput : readDeclarations mixedRecords.readFile "in.json" = .ok mixedDeclarations := by
    decide +kernel
  have htold {arguments : List String} {debug : Nat} {task : Task}
      (hread : read arguments = .ok ⟨false, false, none, debug, some task⟩)
      (hpath : task.inputPath = "in.json")
      (hexit : (runIn mixedRecords arguments).1.exitCode = 0) :
      (runIn mixedRecords arguments).1.warnings =
        if LogLevel.error.raised (debugFlags arguments) = .error then []
        else (mixedDeclarations.filter (task.readsTree {})).flatMap Declaration.diagnostics := by
    have hrun : (runIn mixedRecords arguments).1 = run mixedRecords.readFile arguments :=
      warnings_forwarded.2.2.2 Directory.system mixedRecords arguments hexit
    rw [hrun] at hexit ⊢
    obtain ⟨settings, other, declarations, hsettings, htask, hdeclarations, hwarnings⟩ :=
      warnings_forwarded.2.2.1 mixedRecords.readFile arguments _ hread rfl rfl hexit
    obtain rfl : task = other := Option.some.inj htask
    rw [hpath] at hdeclarations
    obtain rfl := Except.ok.inj (hload.symm.trans hsettings)
    obtain rfl := Except.ok.inj (hinput.symm.trans hdeclarations)
    exact hwarnings
  have hquiet : read ["in.json"] = .ok ⟨false, false, none, 0, some (.convert "in.json" none)⟩ := by
    decide +kernel
  have hconvert : read ["convert", "-d", "in.json"] =
      .ok ⟨false, false, none, 1, some (.convert "in.json" none)⟩ := by decide +kernel
  have hinspect : read ["inspect", "-d", "in.json"] =
      .ok ⟨false, false, none, 1, some (.inspect "in.json" "shifted-treeviz")⟩ := by decide +kernel
  rw [htold hquiet rfl (by decide +kernel), htold hconvert rfl (by decide +kernel),
    htold hinspect rfl (by decide +kernel)]
  decide +kernel

end CommandLine

end DocComment
