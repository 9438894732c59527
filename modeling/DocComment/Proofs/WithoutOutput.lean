import DocComment.Proofs.OutputOption

/-!
# Arguments without the output option

The output option may stand anywhere after the name of a conversion. Without it the arguments ask
for the same task, with nothing to be written.
-/

namespace DocComment.CommandLine

/-! ## The arguments -/

/-- Letters after one dash, if there are any. -/
def cluster (letters : Text) : List String :=
  if letters = [] then [] else [String.ofList ('-' :: letters)]

/-- The arguments without the output option and its value. -/
def withoutOutput : List String → List String
  | [] => []
  | argument :: rest =>
    -- after two dashes there are no options
    if argument = "--" then argument :: rest
    else
      match outputOption? argument.toList, rest with
      | none, rest => argument :: withoutOutput rest
      | some (front, some _), rest => cluster front ++ withoutOutput rest
      | some (front, none), [] => cluster front
      | some (front, none), _ :: rest => cluster front ++ withoutOutput rest

example : withoutOutput ["-d", "convert", "in.json", "-do", "out.cs", "-d"] =
    ["-d", "convert", "in.json", "-d", "-d"] := by decide +kernel

theorem withoutOutput_plain {argument : String} (hdashes : argument ≠ "--")
    (hplain : outputOption? argument.toList = none) (rest : List String) :
    withoutOutput (argument :: rest) = argument :: withoutOutput rest := by
  rw [withoutOutput, if_neg hdashes]
  simp only [hplain]

/-! ## At the command -/

section ReadFrom

variable {state : State} {given : Given}

theorem readFrom_cluster {level : Level} {between : State} (honly : state.onlyWords = false)
    {letters : Text} (h : state.letters level letters = .ok between) (arguments : List String) :
    readFrom level state (cluster letters ++ arguments) = readFrom level between arguments := by
  cases letters with
  | nil =>
    obtain rfl := Except.ok.inj h
    rfl
  | cons c rest =>
    have hc : c ≠ '-' := by
      rintro rfl
      have hdash : Opt.ofShort? level '-' = none := by rcases level with _ | _ | _ <;> decide
      rw [State.letters_unknown level state hdash] at h
      contradiction
    have hargument : state.argument level (String.ofList ('-' :: c :: rest)) =
        state.letters level (c :: rest) := by
      simp [State.argument, honly, hc]
    rw [cluster, if_neg (List.cons_ne_nil _ _), List.singleton_append, readFrom_cons, hargument, h]
    rfl

/-- Once what waits has been taken in, the output makes no difference. -/
theorem readFrom_dropOutput_of_settle {before settled : State} {given : Given}
    {arguments : List String} (hno : before.NoOutput)
    (hsettle : before.settle (some .convert) = .ok settled)
    (h : readFrom (some .convert) settled.dropOutput arguments = .ok given) :
    readFrom (some .convert) before.dropOutput arguments = .ok given := by
  rwa [readFrom_settled (State.ignores_settle before settled hno hsettle).1]

/-- What is read of an argument with the output option, and what is read of the letters left of
it. -/
theorem readFrom_outputOption {argument : String} {front : Text} {attached : Option Text}
    {rest : List String} (hno : state.NoOutput) (honly : state.onlyWords = false)
    (hoption : outputOption? argument.toList = some (front, attached))
    (h : readFrom (some .convert) state (argument :: rest) = .ok given) :
    ∃ between next : State, between.NoOutput ∧ between.onlyWords = false ∧
      (∀ arguments, readFrom (some .convert) state.dropOutput (cluster front ++ arguments) =
        readFrom (some .convert) between.dropOutput arguments) ∧
      between.option (some .convert) .output attached = .ok next ∧
      readFrom (some .convert) next rest = .ok given := by
  rw [readFrom_cons, bind_eq_ok_iff] at h
  obtain ⟨next, hnext, h⟩ := h
  obtain ⟨hfront, between, hbetween, hnext⟩ := State.argument_of_outputOption honly hoption hnext
  obtain ⟨hdrop, hno, hkept⟩ := State.ignores_letters hfront state between hno hbetween
  have hdropped : state.dropOutput.onlyWords = false := honly
  exact ⟨between, next, hno, hkept.trans honly, readFrom_cluster hdropped hdrop, hnext, h⟩

/-- Without the output option the same is given, but for the output. -/
theorem readFrom_withoutOutput {arguments : List String} (hno : state.NoOutput)
    (honly : state.onlyWords = false) (h : readFrom (some .convert) state arguments = .ok given) :
    readFrom (some .convert) state.dropOutput (withoutOutput arguments) = .ok given.dropOutput := by
  fun_induction withoutOutput arguments generalizing state with
  | case1 =>
    -- the arguments are at their end
    rw [readFrom_nil, map_eq_ok_iff] at h ⊢
    obtain ⟨settled, hsettled, rfl⟩ := h
    exact ⟨settled.dropOutput, (State.ignores_settle state settled hno hsettled).1, rfl⟩
  | case2 rest =>
    -- two dashes
    rw [readFrom_cons, State.argument_dashes honly] at h
    rw [readFrom_cons, State.argument_dashes (show state.dropOutput.onlyWords = false from honly)]
    have hdashed : { state with onlyWords := true }.NoOutput := hno
    exact readFrom_dropOutput hdashed rfl h
  | case3 argument hdashes rest hoption ih =>
    -- another argument
    rw [readFrom_cons, bind_eq_ok_iff] at h ⊢
    obtain ⟨next, hnext, h⟩ := h
    obtain ⟨hdrop, hno, hkept⟩ := State.ignores_argument hoption hdashes state next hno hnext
    exact ⟨next.dropOutput, hdrop, ih hno (hkept.trans honly) h⟩
  | case4 argument hdashes front value rest hoption ih =>
    -- the option with its value: dropping the output leaves the state in front of the option,
    -- settled
    obtain ⟨between, next, hno, honly, hcluster, hnext, h⟩ :=
      readFrom_outputOption hno honly hoption h
    obtain ⟨settled, hsettled, hpending, hkept, hdrop⟩ := State.option_output_attached hnext
    rw [hcluster]
    apply readFrom_dropOutput_of_settle hno hsettled
    rw [← hdrop]
    exact ih (State.noOutput_of_pending hpending) (hkept.trans honly) h
  | case5 argument hdashes front hoption =>
    -- the option without a value, which no reading survives
    obtain ⟨between, next, -, honly, -, hnext, h⟩ := readFrom_outputOption hno honly hoption h
    obtain ⟨settled, hsettled, rfl⟩ := State.option_output_awaiting hnext
    have hwords : { settled with pending := some (.opt .output none) }.onlyWords = false :=
      (State.settle_eq_ok hsettled).2.trans honly
    obtain ⟨value, rest, hrest, -⟩ := readFrom_awaiting rfl hwords h
    contradiction
  | case6 argument hdashes front value rest hoption ih =>
    -- the option with its value behind it, which waits until it is taken in
    obtain ⟨between, next, hno, honly, hcluster, hnext, h⟩ :=
      readFrom_outputOption hno honly hoption h
    obtain ⟨settled, hsettled, rfl⟩ := State.option_output_awaiting hnext
    obtain ⟨hpending, hkept⟩ := State.settle_eq_ok hsettled
    have hwords : { settled with pending := some (.opt .output none) }.onlyWords = false :=
      hkept.trans honly
    obtain ⟨_, _, hrest, h⟩ := readFrom_awaiting rfl hwords h
    obtain ⟨rfl, rfl⟩ := List.cons.inj hrest
    obtain ⟨taken, htaken⟩ := settle_of_readFrom rfl h
    rw [readFrom_settled htaken] at h
    rw [hcluster]
    apply readFrom_dropOutput_of_settle hno hsettled
    rw [← State.settle_output hpending htaken]
    obtain ⟨htakenPending, htakenKept⟩ := State.settle_eq_ok htaken
    exact ih (State.noOutput_of_pending htakenPending) (htakenKept.trans (hkept.trans honly)) h

theorem readCommand_withoutOutput {arguments : List String}
    (h : readCommand .convert arguments = .ok given) :
    readCommand .convert (withoutOutput arguments) = .ok given.dropOutput :=
  readFrom_withoutOutput (State.noOutput_of_pending rfl) rfl h

end ReadFrom

/-! ## At the top -/

section ReadTop

variable {state : State} {request : Request}

/-- The task without the output. -/
def Task.withoutOutput : Task → Task
  | .convert input _ => .convert input none
  | task => task

def Request.withoutOutput (request : Request) : Request :=
  { request with task := request.task.map Task.withoutOutput }

/-- The path that a conversion writes. -/
def Task.outputPath? : Task → Option String
  | .convert _ output => output
  | .inspect _ _ => none

def Request.outputPath? (request : Request) : Option String := request.task.bind Task.outputPath?

theorem Request.task_of_outputPath? {path : String} (h : request.outputPath? = some path) :
    ∃ input, request.task = some (.convert input (some path)) := by
  obtain ⟨task, htask, hpath⟩ := Option.bind_eq_some_iff.mp h
  cases task with
  | inspect => contradiction
  | convert input output =>
    obtain rfl : output = some path := hpath
    exact ⟨input, htask⟩

theorem Request.outputPath?_withoutOutput (request : Request) :
    request.withoutOutput.outputPath? = none := by
  obtain ⟨_, _, _, _, _ | _ | _⟩ := request <;> rfl

/-- After two dashes no command comes. -/
theorem task_of_onlyWords (honly : state.onlyWords = true) {arguments : List String}
    (h : readTop state arguments = .ok request) : request.task = none := by
  cases arguments with
  | nil =>
    obtain ⟨settled, -, h⟩ := bind_eq_ok_iff.mp h
    exact task_of_requestOf h
  | cons argument rest =>
    rw [readTop, honly, Bool.or_true, if_pos rfl, bind_eq_ok_iff] at h
    obtain ⟨next, hnext, -⟩ := h
    rw [State.argument, if_pos honly, State.word_eq (.inr honly), bind_eq_ok_iff] at hnext
    obtain ⟨settled, -, hleave⟩ := hnext
    simp [State.leave, State.wordLimit] at hleave

theorem not_mem_of_letters {after : State} {letters : Text}
    (h : state.letters none letters = .ok after) :
    'o' ∉ letters := by
  induction letters generalizing state with
  | nil => exact List.not_mem_nil
  | cons c rest ih =>
    have hc : c ≠ 'o' := by
      rintro rfl
      rw [State.letters_unknown none state (by decide)] at h
      contradiction
    cases hopt : Opt.ofShort? none c with
    | none =>
      rw [State.letters_unknown none state hopt] at h
      contradiction
    | some opt =>
      rw [State.letters_flag none state hopt (Opt.takesValue_of_ofShort? hopt hc),
        bind_eq_ok_iff] at h
      obtain ⟨next, -, h⟩ := h
      simp [Ne.symm hc, ih h]

/-- At the top there is no output option. -/
theorem plain_of_argument {after : State} {argument : String} (honly : state.onlyWords = false)
    (h : state.argument none argument = .ok after) : outputOption? argument.toList = none := by
  obtain ⟨rfl, -⟩ | ⟨text, hlist, h⟩ | ⟨c, text, hlist, hc, h⟩ | ⟨hword, -⟩ :=
    State.argument_eq_ok honly h
  · decide
  · rw [hlist, outputOption_long, if_neg]
    intro hname
    have hopt : Opt.ofLong? none Opt.output.long.toList = none := by decide
    rw [State.longOption_eq, hname, hopt] at h
    contradiction
  · rw [hlist, outputOption_letters hc, if_neg (not_mem_of_letters h)]
  · exact outputOption_word hword

/-- What is taken in before the command stands there without the output option too. -/
theorem withoutOutput_of_argument {next : State} {argument : String} {rest : List String}
    (hnext : state.argument none argument = .ok next) (h : readTop next rest = .ok request)
    (honly : state.onlyWords = false) (htask : request.task ≠ none) :
    withoutOutput (argument :: rest) = argument :: withoutOutput rest := by
  refine withoutOutput_plain ?_ (plain_of_argument honly hnext) rest
  rintro rfl
  rw [State.argument_dashes honly] at hnext
  obtain rfl := Except.ok.inj hnext
  exact htask (task_of_onlyWords rfl h)

theorem taskOf_dropOutput {command : Command} {given : Given} {input : String}
    {output : Option String} (h : taskOf command given = .ok (.convert input output)) :
    command = .convert ∧ taskOf .convert given.dropOutput = .ok (.convert input none) := by
  unfold taskOf at h
  split at h
  next => simp at h
  next rest hwords =>
    obtain ⟨rfl, rfl⟩ : _ = input ∧ given.output = output := by simpa using h
    have hdropped : given.dropOutput.words = _ :: rest := hwords
    exact ⟨rfl, by simp only [taskOf, hdropped]; rfl⟩
  next => contradiction

theorem readTop_convert (hawait : ¬(state.awaitsValue || state.onlyWords) = true)
    (rest : List String) :
    readTop state ("convert" :: rest) = do
      let given ← readCommand .convert rest
      let task ← taskOf .convert given
      return requestOfCommand (← state.settle none).given given task := by
  rw [readTop, if_neg hawait]
  rfl

theorem readTop_withoutOutput {arguments : List String} {input : String} {output : Option String}
    (h : readTop state arguments = .ok request)
    (htask : request.task = some (.convert input output)) :
    readTop state (withoutOutput arguments) = .ok request.withoutOutput := by
  have hsome : request.task ≠ none := by simp [htask]
  induction arguments generalizing state with
  | nil =>
    obtain ⟨settled, -, h⟩ := bind_eq_ok_iff.mp h
    exact absurd (task_of_requestOf h) hsome
  | cons argument rest ih =>
    have honly : state.onlyWords = false := by
      cases honly : state.onlyWords with
      | false => rfl
      | true => exact absurd (task_of_onlyWords honly h) hsome
    obtain ⟨next, hnext, h, hothers⟩ |
      ⟨command, given, task, settled, rfl, hawait, -, hgiven, htaken, hsettled, rfl⟩ :=
      readTop_cons_eq_ok h
    · rw [withoutOutput_of_argument hnext h honly hsome, hothers]
      exact ih h
    · obtain rfl : task = .convert input output := Option.some.inj htask
      obtain ⟨rfl, hdropped⟩ := taskOf_dropOutput htaken
      have hplain : ¬(state.awaitsValue || state.onlyWords) = true := by simp [hawait, honly]
      show readTop state (withoutOutput ("convert" :: rest)) = _
      rw [withoutOutput_plain (by decide) (by decide), readTop_convert hplain]
      refine bind_eq_ok_iff.mpr ⟨_, readCommand_withoutOutput hgiven, ?_⟩
      refine bind_eq_ok_iff.mpr ⟨_, hdropped, ?_⟩
      rw [hsettled]
      rfl

theorem ne_dash_of_mayLeaveOutCommand {first : String} (h : mayLeaveOutCommand first = true)
    (c : Char) (text : Text) : first.toList ≠ '-' :: c :: text := by
  intro hlist
  simp [mayLeaveOutCommand, hlist] at h

/-- A first word that may stand for the input of a conversion. -/
theorem withoutOutput_word {first : String} (h : mayLeaveOutCommand first = true)
    (rest : List String) :
    withoutOutput (first :: rest) = first :: withoutOutput rest := by
  have hword := ne_dash_of_mayLeaveOutCommand h
  refine withoutOutput_plain ?_ (outputOption_word hword) rest
  rintro rfl
  exact hword '-' [] rfl

/-- Such a word cannot be read at the top. -/
theorem readExactly_word {first : String} (h : mayLeaveOutCommand first = true)
    (rest : List String) :
    readExactly (first :: rest) = .error .usage := by
  have hargument : State.argument none {} first = .error .usage := by
    rw [State.argument_word rfl (ne_dash_of_mayLeaveOutCommand h), State.word_eq (.inl rfl),
      State.settle_none rfl]
    rfl
  simp only [mayLeaveOutCommand, Bool.and_eq_true, bne_iff_ne, Option.isNone_iff_eq_none] at h
  rw [readExactly, readTop, if_neg (by decide), if_neg h.1.2, h.2]
  simp only [hargument]
  rfl

/-- The arguments of a conversion, read without the output option, ask for the same with no
output. -/
theorem read_withoutOutput {arguments : List String} {input : String} {output : Option String}
    (h : read arguments = .ok request) (htask : request.task = some (.convert input output)) :
    read (withoutOutput arguments) = .ok request.withoutOutput := by
  obtain h | ⟨first, rest, rfl, hfirst, h⟩ := read_eq_ok h
  · rw [read, readExactly, readTop_withoutOutput h htask]
  · have hread := readTop_withoutOutput h htask
    rw [withoutOutput_plain (by decide) (by decide), withoutOutput_word hfirst] at hread
    rw [withoutOutput_word hfirst, read, readExactly_word hfirst]
    exact (if_pos hfirst).trans hread

end ReadTop

end DocComment.CommandLine
