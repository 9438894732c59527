import DocComment.Proofs.Waiting

/-!
# What reading arguments keeps

What is given at a level changes only when a flag, a value or a word is taken in. So a condition
that these three keep holds of what is given in the end, whatever the arguments are. The task of a
request comes from what is given at its command.
-/

namespace DocComment.CommandLine

/-- A condition that is kept by whatever is taken in at a level. -/
structure KeptAt (level : Level) (p : Given → Prop) : Prop where
  flag {given after : Given} {opt : Opt} : given.flag level opt = .ok after → p given → p after
  value {given after : Given} {opt : Opt} {value : String} :
    given.value opt value = .ok after → p given → p after
  word {given after : Given} {word : String} : given.word level word = .ok after → p given → p after

namespace KeptAt

variable {level : Level} {p : Given → Prop} (hp : KeptAt level p) {state after : State}
include hp

theorem settle (h : state.settle level = .ok after) (hgiven : p state.given) : p after.given := by
  cases hpending : state.pending with
  | none =>
    obtain rfl := Except.ok.inj ((State.settle_none hpending).symm.trans h)
    exact hgiven
  | some pending =>
    rw [State.settle_some hpending, map_eq_ok_iff] at h
    obtain ⟨taken, htaken, rfl⟩ := h
    match pending with
    | .opt _ none => contradiction
    | .opt _ (some _) => exact hp.value htaken hgiven
    | .word _ => exact hp.word htaken hgiven

theorem option {opt : Opt} {attached : Option Text}
    (h : state.option level opt attached = .ok after) (hgiven : p state.given) : p after.given := by
  obtain ⟨settled, hsettled, h⟩ := bind_eq_ok_iff.mp h
  have hgiven := hp.settle hsettled hgiven
  split at h
  next =>
    obtain ⟨taken, htaken, h⟩ := bind_eq_ok_iff.mp h
    obtain rfl := Except.ok.inj h
    exact hp.value htaken hgiven
  next =>
    obtain rfl := Except.ok.inj h
    exact hgiven
  next =>
    obtain ⟨taken, htaken, h⟩ := bind_eq_ok_iff.mp h
    obtain rfl := Except.ok.inj h
    exact hp.flag htaken hgiven
  next => contradiction

theorem letters {letters : Text} (h : state.letters level letters = .ok after)
    (hgiven : p state.given) :
    p after.given := by
  induction letters generalizing state with
  | nil =>
    obtain rfl := Except.ok.inj h
    exact hgiven
  | cons c rest ih =>
    cases hopt : Opt.ofShort? level c with
    | none =>
      rw [State.letters_unknown level state hopt] at h
      contradiction
    | some opt =>
      cases hvalue : opt.takesValue with
      | true =>
        rw [State.letters_value level state hopt hvalue] at h
        exact hp.option h hgiven
      | false =>
        rw [State.letters_flag level state hopt hvalue, bind_eq_ok_iff] at h
        obtain ⟨next, hnext, h⟩ := h
        exact ih h (hp.option hnext hgiven)

theorem longOption {text : Text} (h : state.longOption level text = .ok after)
    (hgiven : p state.given) :
    p after.given := by
  rw [State.longOption_eq] at h
  split at h
  next => contradiction
  next => exact hp.option h hgiven

theorem word_argument {word : String} (h : state.word level word = .ok after)
    (hgiven : p state.given) :
    p after.given := by
  by_cases hawaits : state.awaitsValue = false ∨ state.onlyWords = true
  · rw [State.word_eq hawaits] at h
    obtain ⟨settled, hsettled, h⟩ := bind_eq_ok_iff.mp h
    have hgiven := hp.settle hsettled hgiven
    unfold State.leave at h
    split at h
    · obtain rfl := Except.ok.inj h
      exact hgiven
    · contradiction
  · rw [not_or, Bool.not_eq_false, Bool.not_eq_true] at hawaits
    obtain ⟨opt, hpending⟩ := State.awaitsValue_iff.mp hawaits.1
    rw [State.word_awaited hpending hawaits.2] at h
    obtain rfl := Except.ok.inj h
    exact hgiven

theorem argument {argument : String} (h : state.argument level argument = .ok after)
    (hgiven : p state.given) : p after.given := by
  cases honly : state.onlyWords with
  | true => exact hp.word_argument ((if_pos honly).symm.trans h) hgiven
  | false =>
    obtain ⟨-, rfl⟩ | ⟨text, -, h⟩ | ⟨c, text, -, -, h⟩ | ⟨-, h⟩ := State.argument_eq_ok honly h
    · exact hgiven
    · exact hp.longOption h hgiven
    · exact hp.letters h hgiven
    · exact hp.word_argument h hgiven

theorem readFrom {arguments : List String} {given : Given}
    (h : readFrom level state arguments = .ok given) (hgiven : p state.given) : p given := by
  induction arguments generalizing state with
  | nil =>
    rw [readFrom_nil, map_eq_ok_iff] at h
    obtain ⟨settled, hsettled, rfl⟩ := h
    exact hp.settle hsettled hgiven
  | cons argument rest ih =>
    rw [readFrom_cons, bind_eq_ok_iff] at h
    obtain ⟨next, hnext, h⟩ := h
    exact ih h (hp.argument hnext hgiven)

end KeptAt

/-! ## The task of a request -/

section Task

variable {arguments : List String} {request : Request} {task : Task}

/-- A task is that of a command, from what is given behind its name. -/
theorem exists_given_of_readTop {state : State} (h : readTop state arguments = .ok request)
    (htask : request.task = some task) :
    ∃ command rest given, readCommand command rest = .ok given ∧
      taskOf command given = .ok task := by
  induction arguments generalizing state with
  | nil =>
    obtain ⟨settled, -, h⟩ := bind_eq_ok_iff.mp h
    rw [task_of_requestOf h] at htask
    contradiction
  | cons argument rest ih =>
    obtain ⟨next, -, h, -⟩ | ⟨command, given, taken, settled, -, -, -, hgiven, htaken, -, rfl⟩ :=
      readTop_cons_eq_ok h
    · exact ih h
    · obtain rfl := Option.some.inj htask
      exact ⟨command, rest, given, hgiven, htaken⟩

theorem exists_given_of_read (h : read arguments = .ok request) (htask : request.task = some task) :
    ∃ command rest given, readCommand command rest = .ok given ∧
      taskOf command given = .ok task := by
  obtain h | ⟨first, rest, -, -, h⟩ := read_eq_ok h
  · exact exists_given_of_readTop h htask
  · exact exists_given_of_readTop h htask

end Task

end DocComment.CommandLine
