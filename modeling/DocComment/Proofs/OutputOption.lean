import DocComment.Proofs.Waiting

/-!
# The output option

The output option may be an argument of its own, with its value attached or in the next argument, or
come after other letters. No other option and no word sees the output.
-/

namespace DocComment.CommandLine

/-! ## The option in an argument -/

/-- The letters in front of the output option in an argument, and the value attached to it. -/
def outputOption? : Text → Option (Text × Option Text)
  | '-' :: '-' :: text =>
    if text.takeWhile (· != '=') = Opt.output.long.toList then
      some ([], (text.dropWhile (· != '=')).tail?)
    else none
  | '-' :: letters =>
    if 'o' ∈ letters then
      some (letters.takeWhile (· != 'o'), attachedValue (letters.dropWhile (· != 'o')).tail)
    else none
  | _ => none

theorem outputOption_long (text : Text) :
    outputOption? ('-' :: '-' :: text) =
      if text.takeWhile (· != '=') = Opt.output.long.toList then
        some ([], (text.dropWhile (· != '=')).tail?)
      else none := rfl

theorem outputOption_letters {c : Char} (h : c ≠ '-') (text : Text) :
    outputOption? ('-' :: c :: text) =
      if 'o' ∈ c :: text then
        some ((c :: text).takeWhile (· != 'o'),
          attachedValue ((c :: text).dropWhile (· != 'o')).tail)
      else none := by
  rw [outputOption?]
  intro rest hrest
  exact h (List.cons.inj hrest).1

/-- A word has no options. -/
theorem outputOption_word {argument : Text} (h : ∀ c rest, argument ≠ '-' :: c :: rest) :
    outputOption? argument = none := by
  unfold outputOption?
  split
  next => exact absurd rfl (h _ _)
  next letters _ =>
    cases letters with
    | nil => rfl
    | cons c rest => exact absurd rfl (h c rest)
  next => rfl

theorem letters_of_outputOption {c : Char} {text front : Text} {attached : Option Text}
    (h : c ≠ '-') (hoption : outputOption? ('-' :: c :: text) = some (front, attached)) :
    'o' ∉ front ∧ ∃ tail, c :: text = front ++ 'o' :: tail ∧ attached = attachedValue tail := by
  rw [outputOption_letters h, Option.ite_none_right_eq_some] at hoption
  obtain ⟨before, tail, hletters, hbefore⟩ := List.eq_append_cons_of_mem hoption.1
  have hne : ∀ c ∈ before, (c != 'o') = true :=
    fun c hc => by simp [ne_of_mem_of_not_mem hc hbefore]
  rw [hletters] at hoption ⊢
  obtain ⟨rfl, rfl⟩ : before = front ∧ attachedValue tail = attached := by
    simpa [List.takeWhile_append_of_pos hne, List.dropWhile_append_of_pos hne] using hoption.2
  exact ⟨hbefore, tail, rfl, rfl⟩

/-! ## Nothing but the output option sees the output -/

namespace Given

def dropOutput (given : Given) : Given := { given with output := none }

variable (level : Level) (given : Given)

theorem flag_dropOutput (opt : Opt) :
    given.dropOutput.flag level opt = (given.flag level opt).map dropOutput := by
  cases opt
  case listTransforms => cases h : given.listTransforms <;> simp [flag, dropOutput, h, Except.map]
  case listTags => cases h : given.listTags <;> simp [flag, dropOutput, h, Except.map]
  all_goals rfl

theorem value_dropOutput {opt : Opt} (hopt : opt ≠ .output) (value : String) :
    given.dropOutput.value opt value = (given.value opt value).map dropOutput := by
  cases opt
  case output => contradiction
  case config => cases h : given.config <;> simp [Given.value, dropOutput, h, Except.map]
  all_goals rfl

theorem dropOutput_of_value {value : String} {after : Given}
    (h : given.value .output value = .ok after) :
    after.dropOutput = given.dropOutput := by
  simp only [Given.value] at h
  split at h
  · contradiction
  · obtain rfl := Except.ok.inj h
    rfl

theorem word_dropOutput (word : String) :
    given.dropOutput.word level word = (given.word level word).map dropOutput := by
  have hwords : given.dropOutput.words = given.words := rfl
  rw [Given.word, Given.word, hwords]
  split <;> rfl

theorem takeIn_dropOutput {pending : Pending} (h : ∀ value, pending ≠ .opt .output value) :
    given.dropOutput.takeIn level pending = (given.takeIn level pending).map dropOutput := by
  match pending with
  | .opt _ none => rfl
  | .opt opt (some value) => exact value_dropOutput given (fun hopt => h _ (by rw [hopt])) value
  | .word word => exact word_dropOutput level given word

end Given

namespace State

def dropOutput (state : State) : State := { state with given := state.given.dropOutput }

/-- The output option does not wait. -/
def NoOutput (state : State) : Prop := ∀ value, state.pending ≠ some (.opt .output value)

theorem noOutput_of_pending {state : State} (h : state.pending = none) : state.NoOutput := by
  simp [NoOutput, h]

/-- A step that works in the same way without the output. -/
def Ignores (step : State → Except Stop State) : Prop :=
  ∀ state after, state.NoOutput → step state = .ok after →
    step state.dropOutput = .ok after.dropOutput ∧ after.NoOutput ∧
      after.onlyWords = state.onlyWords

theorem Ignores.bind {step next : State → Except Stop State} (hstep : Ignores step)
    (hnext : Ignores next) : Ignores fun state => step state >>= next := by
  intro state after hno h
  obtain ⟨between, hbetween, h⟩ := bind_eq_ok_iff.mp h
  obtain ⟨hdrop, hno, honly⟩ := hstep state between hno hbetween
  obtain ⟨hdrop', hno', honly'⟩ := hnext between after hno h
  exact ⟨bind_eq_ok_iff.mpr ⟨_, hdrop, hdrop'⟩, hno', honly'.trans honly⟩

theorem ignores_error (stop : Stop) : Ignores fun _ => .error stop := by
  intro _ _ _ h
  contradiction

/-- A step that changes what is given and nothing else. -/
theorem ignores_given (step : Given → Except Stop Given)
    (hstep : ∀ given, step given.dropOutput = (step given).map Given.dropOutput) :
    Ignores fun state => return { state with given := ← step state.given } := by
  intro state after hno h
  obtain ⟨given, hgiven, h⟩ := bind_eq_ok_iff.mp h
  obtain rfl := Except.ok.inj h
  exact ⟨bind_eq_ok_iff.mpr ⟨given.dropOutput, by rw [dropOutput, hstep, hgiven]; rfl, rfl⟩, hno,
    rfl⟩

/-- A step that leaves something to wait. -/
theorem ignores_pending (pending : Pending) (h : ∀ value, pending ≠ .opt .output value) :
    Ignores fun state => return { state with pending := some pending } := by
  intro state after _ hstep
  obtain rfl := Except.ok.inj hstep
  exact ⟨rfl, fun value hvalue => h value (Option.some.inj hvalue), rfl⟩

variable {level : Level}

theorem ignores_settle : Ignores (settle level) := by
  intro state after hno h
  refine ⟨?_, noOutput_of_pending (settle_eq_ok h).1, (settle_eq_ok h).2⟩
  obtain ⟨given, _ | pending, onlyWords⟩ := state
  · rw [settle_none rfl] at h
    obtain rfl := Except.ok.inj h
    exact settle_none rfl
  · rw [settle_some rfl, map_eq_ok_iff] at h
    obtain ⟨taken, htaken, rfl⟩ := h
    have hpending : ∀ value, pending ≠ .opt .output value := fun value h => hno value (by rw [h])
    rw [dropOutput, settle_some rfl, Given.takeIn_dropOutput level given hpending, htaken]
    rfl

theorem ignores_option {opt : Opt} (hopt : opt ≠ .output) (attached : Option Text) :
    Ignores fun state => state.option level opt attached := by
  refine ignores_settle.bind ?_
  split
  next value _ =>
    exact ignores_given (·.value opt (String.ofList value)) fun given =>
      given.value_dropOutput hopt _
  next => exact ignores_pending _ (by simp [hopt])
  next => exact ignores_given (·.flag level opt) fun given => given.flag_dropOutput level opt
  next => exact ignores_error _

theorem ignores_longOption {text : Text} (h : text.takeWhile (· != '=') ≠ Opt.output.long.toList) :
    Ignores fun state => state.longOption level text := by
  simp only [longOption_eq]
  split
  next => exact ignores_error _
  next opt hopt =>
    refine ignores_option ?_ _
    rintro rfl
    have hlong := List.find?_some hopt
    simp_all

theorem ignores_letters {letters : Text} (h : 'o' ∉ letters) :
    Ignores fun state => state.letters level letters := by
  induction letters with
  | nil =>
    intro state after hno h
    obtain rfl := Except.ok.inj h
    exact ⟨rfl, hno, rfl⟩
  | cons c rest ih =>
    rw [List.mem_cons, not_or] at h
    cases hopt : Opt.ofShort? level c with
    | none =>
      simp only [letters_unknown level _ hopt]
      exact ignores_error _
    | some opt =>
      have hvalue := Opt.takesValue_of_ofShort? hopt (Ne.symm h.1)
      have hne : opt ≠ .output := by
        rintro rfl
        contradiction
      simp only [letters_flag level _ hopt hvalue]
      exact (ignores_option hne none).bind (ih h.2)

theorem ignores_leave (word : String) : Ignores (leave level word) := by
  intro state after hno h
  unfold leave at h
  split at h
  next hlength =>
    obtain ⟨hdrop, hno, honly⟩ := ignores_pending (.word word) (by simp) state after hno h
    exact ⟨(if_pos hlength).trans hdrop, hno, honly⟩
  next => contradiction

theorem ignores_word (word : String) : Ignores fun state => state.word level word := by
  intro state after hno h
  by_cases hword : state.awaitsValue = false ∨ state.onlyWords = true
  · dsimp only at h ⊢
    have hdrop : state.dropOutput.awaitsValue = false ∨ state.dropOutput.onlyWords = true := hword
    rw [word_eq hword] at h
    rw [word_eq hdrop]
    exact ignores_settle.bind (ignores_leave word) state after hno h
  · obtain ⟨hawait, honly⟩ : state.awaitsValue = true ∧ state.onlyWords = false := by
      simpa using hword
    obtain ⟨opt, hpending⟩ := awaitsValue_iff.mp hawait
    dsimp only at h ⊢
    rw [word_awaited hpending honly] at h
    obtain rfl := Except.ok.inj h
    have hdropped : state.dropOutput.pending = some (.opt opt none) := hpending
    refine ⟨word_awaited hdropped honly word, ?_, rfl⟩
    intro value hvalue
    obtain ⟨rfl, -⟩ : opt = .output ∧ some word = value := by simpa using hvalue
    exact hno none hpending

theorem ignores_ite {step other : State → Except Stop State} (hstep : Ignores step)
    (hother : Ignores other) :
    Ignores fun state => if state.onlyWords then step state else other state := by
  intro state after hno h
  dsimp only at h ⊢
  split at h
  next honly =>
    exact ⟨(if_pos honly).trans (hstep state after hno h).1, (hstep state after hno h).2⟩
  next honly =>
    exact ⟨(if_neg honly).trans (hother state after hno h).1, (hother state after hno h).2⟩

/-- Only the output option sees the output. -/
theorem ignores_argument {argument : String} (hplain : outputOption? argument.toList = none)
    (hdashes : argument ≠ "--") : Ignores fun state => state.argument level argument := by
  unfold State.argument
  refine ignores_ite (ignores_word argument) ?_
  split
  next hlist => exact absurd (String.toList_inj.mp hlist) hdashes
  next hlist =>
    rw [hlist, outputOption_long] at hplain
    exact ignores_longOption (by simpa using hplain)
  next c text _ hdash hlist =>
    rw [hlist, outputOption_letters (by simpa using hdash)] at hplain
    exact ignores_letters (by simpa using hplain)
  next => exact ignores_word argument

theorem option_output_attached {state after : State} {value : Text}
    (h : state.option level .output (some value) = .ok after) :
    ∃ settled, state.settle level = .ok settled ∧ after.pending = none ∧
      after.onlyWords = state.onlyWords ∧ after.dropOutput = settled.dropOutput := by
  obtain ⟨settled, hsettled, h⟩ := bind_eq_ok_iff.mp h
  obtain ⟨given, hgiven, h⟩ := bind_eq_ok_iff.mp h
  obtain rfl := Except.ok.inj h
  obtain ⟨hpending, honly⟩ := settle_eq_ok hsettled
  refine ⟨settled, hsettled, hpending, honly, ?_⟩
  rw [dropOutput, dropOutput, Given.dropOutput_of_value settled.given hgiven]

theorem option_output_awaiting {state after : State}
    (h : state.option level .output none = .ok after) :
    ∃ settled, state.settle level = .ok settled ∧
      after = { settled with pending := some (.opt .output none) } := by
  obtain ⟨settled, hsettled, h⟩ := bind_eq_ok_iff.mp h
  exact ⟨settled, hsettled, (Except.ok.inj h).symm⟩

theorem settle_output {state after : State} {value : String} (hpending : state.pending = none)
    (h : { state with pending := some (.opt .output (some value)) }.settle level = .ok after) :
    after.dropOutput = state.dropOutput := by
  rw [settle_some rfl, map_eq_ok_iff] at h
  obtain ⟨given, hgiven, rfl⟩ := h
  rw [dropOutput, dropOutput, Given.dropOutput_of_value state.given hgiven, hpending]

/-- What stands in front of the letter of the output option is taken in first. -/
theorem letters_output (state : State) {front : Text} (h : 'o' ∉ front) (tail : Text) :
    state.letters (some .convert) (front ++ 'o' :: tail) =
      state.letters (some .convert) front >>= fun state =>
        state.option (some .convert) .output (attachedValue tail) := by
  induction front generalizing state with
  | nil => exact letters_value _ state (by decide) rfl tail
  | cons c rest ih =>
    rw [List.mem_cons, not_or] at h
    rw [List.cons_append]
    cases hopt : Opt.ofShort? (some .convert) c with
    | none => rw [letters_unknown _ _ hopt, letters_unknown _ _ hopt]; rfl
    | some opt =>
      have hvalue := Opt.takesValue_of_ofShort? hopt (Ne.symm h.1)
      simp only [letters_flag _ _ hopt hvalue, ih _ h.2, bind_assoc]

/-- An argument with the output option is what stands in front of it, and then the option. -/
theorem argument_of_outputOption {state after : State} {argument : String} {front : Text}
    {attached : Option Text} (honly : state.onlyWords = false)
    (hoption : outputOption? argument.toList = some (front, attached))
    (h : state.argument (some .convert) argument = .ok after) :
    'o' ∉ front ∧ ∃ between, state.letters (some .convert) front = .ok between ∧
      between.option (some .convert) .output attached = .ok after := by
  obtain ⟨rfl, -⟩ | ⟨text, hlist, h⟩ | ⟨c, text, hlist, hc, h⟩ | ⟨hword, -⟩ :=
    argument_eq_ok honly h
  · have hnone : outputOption? "--".toList = none := by decide
    rw [hnone] at hoption
    contradiction
  · rw [hlist, outputOption_long] at hoption
    obtain ⟨hname, rfl, rfl⟩ : text.takeWhile (· != '=') = Opt.output.long.toList ∧ [] = front ∧
        (text.dropWhile (· != '=')).tail? = attached := by simpa using hoption
    have hopt : Opt.ofLong? (some .convert) Opt.output.long.toList = some .output := by decide
    rw [longOption_eq, hname, hopt] at h
    exact ⟨List.not_mem_nil, state, rfl, h⟩
  · rw [hlist] at hoption
    obtain ⟨hfront, tail, hletters, rfl⟩ := letters_of_outputOption hc hoption
    rw [hletters, letters_output state hfront, bind_eq_ok_iff] at h
    exact ⟨hfront, h⟩
  · rw [outputOption_word hword] at hoption
    contradiction

end State

section ReadFrom

variable {state : State} {given : Given}

/-- After two dashes there are no options. -/
theorem readFrom_dropOutput {level : Level} (hno : state.NoOutput) (honly : state.onlyWords = true)
    {arguments : List String} (h : readFrom level state arguments = .ok given) :
    readFrom level state.dropOutput arguments = .ok given.dropOutput := by
  induction arguments generalizing state with
  | nil =>
    rw [readFrom_nil, map_eq_ok_iff] at h ⊢
    obtain ⟨settled, hsettled, rfl⟩ := h
    exact ⟨settled.dropOutput, (State.ignores_settle state settled hno hsettled).1, rfl⟩
  | cons argument rest ih =>
    rw [readFrom_cons, bind_eq_ok_iff] at h ⊢
    obtain ⟨next, hnext, h⟩ := h
    simp only [State.argument, honly, if_true] at hnext
    obtain ⟨hdrop, hno, hkept⟩ := State.ignores_word argument state next hno hnext
    exact ⟨next.dropOutput, (if_pos honly).trans hdrop, ih hno (hkept.trans honly) h⟩

end ReadFrom

end DocComment.CommandLine
