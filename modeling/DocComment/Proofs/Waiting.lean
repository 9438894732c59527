import Mathlib.Data.List.TakeDrop
import DocComment.CommandLine.Arguments
import DocComment.Proofs.Success

/-!
# Arguments that wait

A word, or an option with its value, is taken in when the next thing comes. So arguments can be read
on from a state as from the state in which what waits has been taken in; only two dashes come before
that. At the top this goes on up to the name of a command, behind which all is read at the command.
-/

namespace DocComment.CommandLine

/-! ## Letters and names -/

/-- What follows the letter of an option, as its value. -/
def attachedValue : Text → Option Text
  | [] => none
  | '=' :: value => some value
  | value => some value

/-- The only letter of an option with a value is that of the output. -/
theorem Opt.takesValue_of_ofShort? {level : Level} {c : Char} {opt : Opt}
    (h : Opt.ofShort? level c = some opt) (hc : c ≠ 'o') : opt.takesValue = false := by
  have hshort := List.find?_some h
  cases opt <;> simp_all [Opt.takesValue, Opt.short?, Ne.symm hc]

namespace State

variable (level : Level) (state : State)

theorem letters_flag {c : Char} {opt : Opt} (h : Opt.ofShort? level c = some opt)
    (hvalue : opt.takesValue = false) (rest : Text) :
    state.letters level (c :: rest) =
      state.option level opt none >>= fun state => state.letters level rest := by
  simp [State.letters, h, hvalue]

theorem letters_value {c : Char} {opt : Opt} (h : Opt.ofShort? level c = some opt)
    (hvalue : opt.takesValue = true) (rest : Text) :
    state.letters level (c :: rest) = state.option level opt (attachedValue rest) := by
  simp only [State.letters, h, hvalue, if_true]
  fun_cases attachedValue rest <;> simp_all

theorem letters_unknown {c : Char} (h : Opt.ofShort? level c = none) (rest : Text) :
    state.letters level (c :: rest) = .error .usage := by
  simp [State.letters, h]

theorem longOption_eq (text : Text) :
    state.longOption level text =
      match Opt.ofLong? level (text.takeWhile (· != '=')) with
      | none => .error .usage
      | some opt => state.option level opt (text.dropWhile (· != '=')).tail? := by
  simp only [longOption, List.span_eq_takeWhile_dropWhile]
  cases text.dropWhile (· != '=') <;> rfl

end State

/-! ## What waits is taken in first -/

/-- Takes in what waits. -/
def Given.takeIn (level : Level) (given : Given) : Pending → Except Stop Given
  | .opt opt (some value) => given.value opt value
  | .opt _ none => .error .usage
  | .word word => given.word level word

namespace State

variable {level : Level} {state after : State}

theorem settle_none (h : state.pending = none) : state.settle level = .ok state := by
  rw [settle, h]

theorem settle_some {pending : Pending} (h : state.pending = some pending) :
    state.settle level =
      (state.given.takeIn level pending).map fun given =>
        { state with given, pending := none } := by
  rcases pending with ⟨opt, _ | value⟩ | word <;> simp only [settle, h, Given.takeIn] <;> rfl

theorem settle_eq_ok (h : state.settle level = .ok after) :
    after.pending = none ∧ after.onlyWords = state.onlyWords := by
  cases hpending : state.pending with
  | none =>
    obtain rfl := Except.ok.inj ((settle_none hpending).symm.trans h)
    exact ⟨hpending, rfl⟩
  | some pending =>
    rw [settle_some hpending, map_eq_ok_iff] at h
    obtain ⟨given, -, rfl⟩ := h
    exact ⟨rfl, rfl⟩

/-- Dashes do not take in what waits. -/
theorem settle_onlyWords (state : State) :
    { state with onlyWords := true }.settle level =
      (state.settle level).map fun after => { after with onlyWords := true } := by
  obtain ⟨given, _ | pending, onlyWords⟩ := state
  · rw [settle_none rfl, settle_none rfl]
    rfl
  · rw [settle_some rfl, settle_some rfl]
    cases given.takeIn level pending <;> rfl

theorem awaitsValue_iff :
    state.awaitsValue = true ↔ ∃ opt, state.pending = some (.opt opt none) := by
  unfold awaitsValue
  split <;> simp_all

theorem settle_awaiting (h : state.awaitsValue = true) : state.settle level = .error .usage := by
  obtain ⟨opt, hpending⟩ := awaitsValue_iff.mp h
  rw [settle_some hpending]
  rfl

/-- What comes next finds taken in what waits. -/
theorem option_settled (h : state.settle level = .ok after) (opt : Opt) (attached : Option Text) :
    state.option level opt attached = after.option level opt attached := by
  rw [option, option, h, settle_none (settle_eq_ok h).1]

theorem letters_settled (h : state.settle level = .ok after) {letters : Text}
    (hletters : letters ≠ []) :
    state.letters level letters = after.letters level letters := by
  obtain ⟨c, rest, rfl⟩ := List.exists_cons_of_ne_nil hletters
  simp only [State.letters, option_settled h]

theorem longOption_settled (h : state.settle level = .ok after) (text : Text) :
    state.longOption level text = after.longOption level text := by
  simp only [longOption, option_settled h]

/-- Lets a word wait that the level takes. -/
def leave (level : Level) (word : String) (state : State) : Except Stop State :=
  if state.given.words.length < wordLimit level then
    return { state with pending := some (.word word) }
  else .error .usage

theorem word_awaited {opt : Opt} (h : state.pending = some (.opt opt none))
    (honly : state.onlyWords = false) (word : String) :
    state.word level word = .ok { state with pending := some (.opt opt (some word)) } := by
  simp only [State.word, h, honly]

/-- A word that is not the value of an option. -/
theorem word_eq (h : state.awaitsValue = false ∨ state.onlyWords = true) (word : String) :
    state.word level word = state.settle level >>= leave level word := by
  unfold State.word
  split
  next hpending honly => simp [awaitsValue, hpending, honly] at h
  next => rfl

theorem word_settled (h : state.settle level = .ok after) (word : String) :
    state.word level word = after.word level word := by
  have hawait : state.awaitsValue = false := by
    cases hawait : state.awaitsValue with
    | false => rfl
    | true => simp [settle_awaiting hawait] at h
  have hafter : after.awaitsValue = false := by rw [awaitsValue, (settle_eq_ok h).1]
  rw [word_eq (.inl hawait), word_eq (.inl hafter), h, settle_none (settle_eq_ok h).1]

theorem argument_dashes (h : state.onlyWords = false) :
    state.argument level "--" = .ok { state with onlyWords := true } := by
  rw [argument, h]
  rfl

theorem argument_word (honly : state.onlyWords = false) {argument : String}
    (h : ∀ c text, argument.toList ≠ '-' :: c :: text) :
    state.argument level argument = state.word level argument := by
  rw [State.argument, honly, if_neg Bool.false_ne_true]
  split
  next hlist => exact absurd hlist (h _ _)
  next hlist => exact absurd hlist (h _ _)
  next hlist => exact absurd hlist (h _ _)
  next => rfl

theorem argument_settled (h : state.settle level = .ok after) {argument : String}
    (hdashes : argument ≠ "--" ∨ state.onlyWords = true) :
    state.argument level argument = after.argument level argument := by
  have honly := (settle_eq_ok h).2
  unfold State.argument
  rw [honly]
  split
  · exact word_settled h argument
  · split
    next => simp [← String.toList_inj, *] at hdashes
    next => exact longOption_settled h _
    next => exact letters_settled h (List.cons_ne_nil _ _)
    next => exact word_settled h argument

theorem settle_of_option {opt : Opt} {attached : Option Text}
    (h : state.option level opt attached = .ok after) :
    ∃ settled, state.settle level = .ok settled := by
  obtain ⟨settled, hsettled, -⟩ := bind_eq_ok_iff.mp h
  exact ⟨settled, hsettled⟩

theorem settle_of_longOption {text : Text} (h : state.longOption level text = .ok after) :
    ∃ settled, state.settle level = .ok settled := by
  unfold longOption at h
  repeat' split at h
  all_goals first | contradiction | exact settle_of_option h

theorem settle_of_letters {c : Char} {rest : Text}
    (h : state.letters level (c :: rest) = .ok after) :
    ∃ settled, state.settle level = .ok settled := by
  unfold State.letters at h
  repeat' split at h
  all_goals first
    | contradiction
    | exact settle_of_option h
    | obtain ⟨between, hbetween, -⟩ := bind_eq_ok_iff.mp h; exact settle_of_option hbetween

theorem settle_of_word (hawait : state.awaitsValue = false) {word : String}
    (h : state.word level word = .ok after) : ∃ settled, state.settle level = .ok settled := by
  rw [word_eq (.inl hawait)] at h
  obtain ⟨settled, hsettled, -⟩ := bind_eq_ok_iff.mp h
  exact ⟨settled, hsettled⟩

/-- What an argument can be, while options may come. -/
theorem argument_eq_ok {argument : String} (honly : state.onlyWords = false)
    (h : state.argument level argument = .ok after) :
    (argument = "--" ∧ after = { state with onlyWords := true }) ∨
    (∃ text, argument.toList = '-' :: '-' :: text ∧ state.longOption level text = .ok after) ∨
    (∃ c text, argument.toList = '-' :: c :: text ∧ c ≠ '-' ∧
      state.letters level (c :: text) = .ok after) ∨
    ((∀ c text, argument.toList ≠ '-' :: c :: text) ∧ state.word level argument = .ok after) := by
  simp only [State.argument, honly, Bool.false_eq_true, if_false] at h
  split at h
  next hlist => exact .inl ⟨String.toList_inj.mp hlist, (Except.ok.inj h).symm⟩
  next text _ hlist => exact .inr (.inl ⟨text, hlist, h⟩)
  next c text _ hdash hlist => exact .inr (.inr (.inl ⟨c, text, hlist, by simpa using hdash, h⟩))
  next hword => exact .inr (.inr (.inr ⟨hword, h⟩))

/-- Whatever is taken in comes after what waits. -/
theorem settle_of_argument (hawait : state.awaitsValue = false) {argument : String}
    (hdashes : argument ≠ "--" ∨ state.onlyWords = true)
    (h : state.argument level argument = .ok after) :
    ∃ settled, state.settle level = .ok settled := by
  cases honly : state.onlyWords with
  | true => exact settle_of_word hawait ((if_pos honly).symm.trans h)
  | false =>
    obtain ⟨rfl, -⟩ | ⟨text, -, h⟩ | ⟨c, text, -, -, h⟩ | ⟨-, h⟩ := argument_eq_ok honly h
    · simp [honly] at hdashes
    · exact settle_of_longOption h
    · exact settle_of_letters h
    · exact settle_of_word hawait h

end State

/-- What is given at a level in the end, read on from a state. -/
def readFrom (level : Level) (state : State) (arguments : List String) : Except Stop Given := do
  let state ← arguments.foldlM (State.argument level) state
  return (← state.settle level).given

section ReadFrom

variable {level : Level} {state settled : State} {given : Given}

theorem readFrom_nil : readFrom level state [] = (state.settle level).map State.given := by
  cases h : state.settle level <;>
    simp [readFrom, h, Except.map, bind, Except.bind, pure, Except.pure]

theorem readFrom_cons (argument : String) (rest : List String) :
    readFrom level state (argument :: rest) =
      state.argument level argument >>= fun state => readFrom level state rest := by
  simp only [readFrom, List.foldlM_cons, bind_assoc]

theorem readFrom_settled (h : state.settle level = .ok settled) (arguments : List String) :
    readFrom level state arguments = readFrom level settled arguments := by
  induction arguments generalizing state settled with
  | nil => rw [readFrom_nil, readFrom_nil, h, State.settle_none (State.settle_eq_ok h).1]
  | cons argument rest ih =>
    rw [readFrom_cons, readFrom_cons]
    by_cases hdashes : argument ≠ "--" ∨ state.onlyWords = true
    · rw [State.argument_settled h hdashes]
    · obtain ⟨rfl, honly⟩ : argument = "--" ∧ state.onlyWords = false := by simpa using hdashes
      have hafter : settled.onlyWords = false := (State.settle_eq_ok h).2.trans honly
      rw [State.argument_dashes honly, State.argument_dashes hafter]
      exact ih (by rw [State.settle_onlyWords, h]; rfl)

/-- A reading goes on only if what waits can be taken in. -/
theorem settle_of_readFrom (hawait : state.awaitsValue = false) {arguments : List String}
    (h : readFrom level state arguments = .ok given) :
    ∃ settled, state.settle level = .ok settled := by
  induction arguments generalizing state with
  | nil =>
    rw [readFrom_nil, map_eq_ok_iff] at h
    obtain ⟨settled, hsettled, -⟩ := h
    exact ⟨settled, hsettled⟩
  | cons argument rest ih =>
    rw [readFrom_cons, bind_eq_ok_iff] at h
    obtain ⟨next, hnext, h⟩ := h
    by_cases hdashes : argument ≠ "--" ∨ state.onlyWords = true
    · exact State.settle_of_argument hawait hdashes hnext
    · obtain ⟨rfl, honly⟩ : argument = "--" ∧ state.onlyWords = false := by simpa using hdashes
      rw [State.argument_dashes honly] at hnext
      obtain rfl := Except.ok.inj hnext
      have hdashed : { state with onlyWords := true }.awaitsValue = false := hawait
      obtain ⟨settled, hsettled⟩ := ih hdashed h
      rw [State.settle_onlyWords, map_eq_ok_iff] at hsettled
      obtain ⟨before, hbefore, -⟩ := hsettled
      exact ⟨before, hbefore⟩

/-- After two dashes a value is awaited in vain. -/
theorem readFrom_awaiting_onlyWords (hawait : state.awaitsValue = true)
    (honly : state.onlyWords = true) (arguments : List String) :
    readFrom level state arguments ≠ .ok given := by
  have hsettle : state.settle level = .error .usage := State.settle_awaiting hawait
  cases arguments with
  | nil => simp [readFrom_nil, hsettle, Except.map]
  | cons argument rest =>
    simp [readFrom_cons, State.argument, honly, State.word_eq (.inr honly), hsettle, bind,
      Except.bind]

/-- A value that is awaited comes next. -/
theorem readFrom_awaiting {opt : Opt} (hpending : state.pending = some (.opt opt none))
    (honly : state.onlyWords = false) {arguments : List String}
    (h : readFrom level state arguments = .ok given) :
    ∃ value rest, arguments = value :: rest ∧
      readFrom level { state with pending := some (.opt opt (some value)) } rest = .ok given := by
  have hawait : state.awaitsValue = true := by rw [State.awaitsValue, hpending]
  have hsettle : ∀ settled, state.settle level ≠ .ok settled := by
    simp [State.settle_awaiting hawait]
  cases arguments with
  | nil =>
    rw [readFrom_nil, map_eq_ok_iff] at h
    obtain ⟨settled, hsettled, -⟩ := h
    exact absurd hsettled (hsettle settled)
  | cons argument rest =>
    rw [readFrom_cons, bind_eq_ok_iff] at h
    obtain ⟨next, hnext, h⟩ := h
    refine ⟨argument, rest, rfl, ?_⟩
    obtain ⟨-, rfl⟩ | ⟨text, -, hnext⟩ | ⟨c, text, -, -, hnext⟩ | ⟨-, hnext⟩ :=
      State.argument_eq_ok honly hnext
    · have hdashed : { state with onlyWords := true }.awaitsValue = true := hawait
      exact absurd h (readFrom_awaiting_onlyWords hdashed rfl rest)
    · obtain ⟨settled, hsettled⟩ := State.settle_of_longOption hnext
      exact absurd hsettled (hsettle settled)
    · obtain ⟨settled, hsettled⟩ := State.settle_of_letters hnext
      exact absurd hsettled (hsettle settled)
    · rw [State.word_awaited hpending honly] at hnext
      rwa [Except.ok.inj hnext]

end ReadFrom

/-! ## At the top -/

section ReadTop

variable {state : State} {request : Request}

theorem task_of_requestOf {top : Given} (h : requestOf top = .ok request) :
    request.task = none := by
  unfold requestOf at h
  split at h
  · contradiction
  · obtain rfl := Except.ok.inj h
    rfl

/-- An argument is read at the top, whatever follows, or it is the name of a command and all that
follows is read there. -/
theorem readTop_cons_eq_ok {argument : String} {rest : List String}
    (h : readTop state (argument :: rest) = .ok request) :
    (∃ next, state.argument none argument = .ok next ∧ readTop next rest = .ok request ∧
        ∀ others, readTop state (argument :: others) = readTop next others) ∨
      ∃ command given task settled, argument = Command.name command ∧ state.awaitsValue = false ∧
        state.onlyWords = false ∧ readCommand command rest = .ok given ∧
        taskOf command given = .ok task ∧ state.settle none = .ok settled ∧
        request = requestOfCommand settled.given given task := by
  unfold readTop at h
  split at h
  next hawait =>
    obtain ⟨next, hnext, h⟩ := bind_eq_ok_iff.mp h
    refine .inl ⟨next, hnext, h, fun others => ?_⟩
    rw [readTop, if_pos hawait, hnext]
    rfl
  next hawait =>
    split at h
    next => contradiction
    next hhelp =>
      split at h
      next command hcommand =>
        obtain ⟨given, hgiven, h⟩ := bind_eq_ok_iff.mp h
        obtain ⟨task, htaken, h⟩ := bind_eq_ok_iff.mp h
        obtain ⟨settled, hsettled, h⟩ := bind_eq_ok_iff.mp h
        have hfound := List.find?_some hcommand
        obtain rfl : command.name = argument := beq_iff_eq.mp hfound
        rw [Bool.not_eq_true, Bool.or_eq_false_iff] at hawait
        exact .inr ⟨command, given, task, settled, rfl, hawait.1, hawait.2, hgiven,
          htaken, hsettled,
          (Except.ok.inj h).symm⟩
      next hcommand =>
        obtain ⟨next, hnext, h⟩ := bind_eq_ok_iff.mp h
        refine .inl ⟨next, hnext, h, fun others => ?_⟩
        rw [readTop, if_neg hawait, if_neg hhelp, hcommand]
        simp only [hnext]
        rfl

/-- What is read at all is read as it stands or as a conversion. -/
theorem read_eq_ok {arguments : List String} (h : read arguments = .ok request) :
    readExactly arguments = .ok request ∨
      ∃ first rest, arguments = first :: rest ∧ mayLeaveOutCommand first = true ∧
        readExactly (Command.convert.name :: arguments) = .ok request := by
  unfold read at h
  split at h
  next hexactly =>
    obtain rfl := Except.ok.inj h
    exact .inl hexactly
  next stop hstop =>
    split at h
    next => contradiction
    next first rest =>
      split at h
      next hfirst => exact .inr ⟨first, rest, rfl, hfirst, h⟩
      next => contradiction

end ReadTop

end DocComment.CommandLine
