import DocComment.LogLevel
import DocComment.Proofs.WithoutOutput

/-!
# Debug flags

Each debug flag counts, wherever it stands among the arguments. A flag is taken in at once, so no
step of the reading takes in others than those of its own argument. In the request the flags behind
the name of the command go before those in front of it, and there are none only if there is no flag
at all.
-/

namespace DocComment

namespace CommandLine

/-- How many debug flags stand in an argument. The letters behind that of the output are its
value. -/
def flagsIn : Text → Nat
  | '-' :: '-' :: name => if name = Opt.debug.long.toList then 1 else 0
  | '-' :: letters => (letters.takeWhile (· != 'o')).count 'd'
  | _ => 0

/-- How many debug flags stand among the arguments; behind two dashes there are no options. -/
def debugFlags : List String → Nat
  | [] => 0
  | argument :: rest => if argument = "--" then 0 else flagsIn argument.toList + debugFlags rest

example :
    debugFlags ["-d", "convert", "--debug", "in.json", "-ddodd", "-o", "d", "--", "-d"] = 4 := by
  decide +kernel

theorem flagsIn_letters {c : Char} (h : c ≠ '-') (text : Text) :
    flagsIn ('-' :: c :: text) = ((c :: text).takeWhile (· != 'o')).count 'd' := by
  rw [flagsIn]
  intro rest hrest
  exact h (List.cons.inj hrest).1

theorem flagsIn_word {argument : Text} (h : ∀ c rest, argument ≠ '-' :: c :: rest) :
    flagsIn argument = 0 := by
  unfold flagsIn
  split
  next => exact absurd rfl (h _ _)
  next letters _ =>
    cases letters with
    | nil => rfl
    | cons c rest => exact absurd rfl (h c rest)
  next => rfl

namespace State

/-! ## One argument -/

/-- A step that takes in a number of debug flags, with options allowed behind it as in front. -/
structure Counts (count : Nat) (state after : State) : Prop where
  debug : after.given.debug = state.given.debug + count
  onlyWords : after.onlyWords = state.onlyWords

variable {level : Level} {state between after : State} {count more : Nat}

theorem Counts.trans (h : Counts count state between) (h' : Counts more between after) :
    Counts (count + more) state after :=
  ⟨by rw [h'.debug, h.debug, Nat.add_assoc], h'.onlyWords.trans h.onlyWords⟩

theorem debug_of_value {given taken : Given} {opt : Opt} {value : String}
    (h : given.value opt value = .ok taken) : taken.debug = given.debug := by
  unfold Given.value at h
  repeat' split at h
  all_goals first | contradiction | exact (Except.ok.inj h) ▸ rfl

theorem debug_of_word {given taken : Given} {word : String}
    (h : given.word level word = .ok taken) :
    taken.debug = given.debug := by
  unfold Given.word at h
  split at h
  · contradiction
  · exact (Except.ok.inj h) ▸ rfl

theorem debug_of_flag {given taken : Given} {opt : Opt} (h : given.flag level opt = .ok taken) :
    taken.debug = given.debug + if opt = .debug then 1 else 0 := by
  unfold Given.flag at h
  repeat' split at h
  all_goals first | contradiction | exact (Except.ok.inj h) ▸ rfl

/-- Neither a word nor a value is a flag. -/
theorem counts_settle (h : state.settle level = .ok after) : Counts 0 state after := by
  refine ⟨?_, (settle_eq_ok h).2⟩
  cases hpending : state.pending with
  | none =>
    obtain rfl := Except.ok.inj ((settle_none hpending).symm.trans h)
    rfl
  | some pending =>
    rw [settle_some hpending, map_eq_ok_iff] at h
    obtain ⟨given, hgiven, rfl⟩ := h
    match pending with
    | .opt _ none => contradiction
    | .opt _ (some _) => exact debug_of_value hgiven
    | .word _ => exact debug_of_word hgiven

theorem counts_option {opt : Opt} {attached : Option Text}
    (h : state.option level opt attached = .ok after) :
    Counts (if opt = .debug then 1 else 0) state after := by
  obtain ⟨settled, hsettled, h⟩ := bind_eq_ok_iff.mp h
  rw [← Nat.zero_add (if opt = .debug then 1 else 0)]
  refine (counts_settle hsettled).trans ?_
  have hnovalue (hvalue : opt.takesValue = true) : (if opt = .debug then 1 else 0) = 0 := by
    cases opt <;> first | rfl | contradiction
  split at h
  next hvalue _ =>
    obtain ⟨given, hgiven, h⟩ := bind_eq_ok_iff.mp h
    obtain rfl := Except.ok.inj h
    rw [hnovalue hvalue]
    exact ⟨debug_of_value hgiven, rfl⟩
  next hvalue _ =>
    obtain rfl := Except.ok.inj h
    rw [hnovalue hvalue]
    exact ⟨rfl, rfl⟩
  next =>
    obtain ⟨given, hgiven, h⟩ := bind_eq_ok_iff.mp h
    obtain rfl := Except.ok.inj h
    exact ⟨debug_of_flag hgiven, rfl⟩
  next => contradiction

/-- The letter of an option tells which one it is, and whether it takes a value. -/
theorem letter_of_ofShort? {c : Char} {opt : Opt} (h : Opt.ofShort? level c = some opt) :
    (opt = .debug ↔ c = 'd') ∧ (opt.takesValue = true ↔ c = 'o') := by
  have hfound := List.find?_some h
  rw [Bool.and_eq_true, beq_iff_eq] at hfound
  have hshort : opt.short? = some c := hfound.2
  cases opt <;> cases hshort <;> decide

theorem counts_letters {letters : Text} (h : state.letters level letters = .ok after) :
    Counts ((letters.takeWhile (· != 'o')).count 'd') state after := by
  induction letters generalizing state with
  | nil =>
    obtain rfl := Except.ok.inj h
    exact ⟨rfl, rfl⟩
  | cons c rest ih =>
    cases hopt : Opt.ofShort? level c with
    | none =>
      rw [letters_unknown level state hopt] at h
      contradiction
    | some opt =>
      obtain ⟨hdebug, hvalue⟩ := letter_of_ofShort? hopt
      by_cases hc : c = 'o'
      · subst hc
        rw [letters_value level state hopt (hvalue.2 rfl)] at h
        have hcounts := counts_option h
        rwa [if_neg fun he => absurd (hdebug.1 he) (by decide)] at hcounts
      · rw [letters_flag level state hopt (by simpa [hc] using hvalue)] at h
        obtain ⟨next, hnext, h⟩ := bind_eq_ok_iff.mp h
        rw [List.takeWhile_cons_of_pos (by simpa using hc), List.count_cons, Nat.add_comm]
        have hcounts := (counts_option hnext).trans (ih h)
        simpa only [hdebug, beq_iff_eq] using hcounts

theorem attached_eq_none_of_option {opt : Opt} {attached : Option Text}
    (hvalue : opt.takesValue = false) (h : state.option level opt attached = .ok after) :
    attached = none := by
  obtain ⟨settled, -, h⟩ := bind_eq_ok_iff.mp h
  cases attached with
  | none => rfl
  | some value =>
    rw [hvalue] at h
    contradiction

/-- The name of the debug flag is one, without a value. -/
theorem counts_longOption {text : Text} (h : state.longOption level text = .ok after) :
    Counts (if text = Opt.debug.long.toList then 1 else 0) state after := by
  rw [longOption_eq] at h
  split at h
  next => contradiction
  next opt hopt =>
    have hname : opt.long.toList = text.takeWhile (· != '=') := by
      have hfound := List.find?_some hopt
      rw [Bool.and_eq_true, beq_iff_eq] at hfound
      exact hfound.2
    have hdebug : opt = .debug ↔ text = Opt.debug.long.toList := by
      constructor
      · rintro rfl
        have hnothing : text.dropWhile (· != '=') = [] := by
          have hattached := attached_eq_none_of_option rfl h
          cases hrest : text.dropWhile (· != '=') with
          | nil => rfl
          | cons c rest =>
            rw [hrest] at hattached
            contradiction
        rw [hname, ← List.append_nil (text.takeWhile (· != '=')), ← hnothing,
          List.takeWhile_append_dropWhile]
      · rintro rfl
        revert hname
        cases opt <;> decide
    have hcounts := counts_option h
    simpa only [hdebug] using hcounts

/-- A word is no flag. -/
theorem counts_word {word : String} (h : state.word level word = .ok after) :
    Counts 0 state after := by
  by_cases hawaits : state.awaitsValue = false ∨ state.onlyWords = true
  · rw [word_eq hawaits] at h
    obtain ⟨settled, hsettled, h⟩ := bind_eq_ok_iff.mp h
    have hleave : Counts 0 settled after := by
      unfold leave at h
      split at h
      · obtain rfl := Except.ok.inj h
        exact ⟨rfl, rfl⟩
      · contradiction
    exact (counts_settle hsettled).trans hleave
  · rw [not_or, Bool.not_eq_false, Bool.not_eq_true] at hawaits
    obtain ⟨opt, hpending⟩ := awaitsValue_iff.mp hawaits.1
    rw [word_awaited hpending hawaits.2] at h
    obtain rfl := Except.ok.inj h
    exact ⟨rfl, rfl⟩

/-- An argument brings the flags that stand in it. -/
theorem counts_argument {argument : String} (honly : state.onlyWords = false)
    (hdashes : argument ≠ "--") (h : state.argument level argument = .ok after) :
    Counts (flagsIn argument.toList) state after := by
  obtain ⟨rfl, -⟩ | ⟨text, hlist, h⟩ | ⟨c, text, hlist, hc, h⟩ | ⟨hword, h⟩ :=
    argument_eq_ok honly h
  · contradiction
  · rw [hlist]
    exact counts_longOption h
  · rw [hlist, flagsIn_letters hc]
    exact counts_letters h
  · rw [flagsIn_word hword]
    exact counts_word h

/-- The flags that have been taken in and those that are to come. -/
def allFlags (state : State) (arguments : List String) : Nat :=
  state.given.debug + if state.onlyWords then 0 else debugFlags arguments

/-- Reading an argument changes nothing about the number of all flags. -/
theorem allFlags_of_argument {argument : String} (h : state.argument level argument = .ok after)
    (rest : List String) : after.allFlags rest = state.allFlags (argument :: rest) := by
  cases honly : state.onlyWords with
  | true =>
    have hcounts := counts_word ((if_pos honly).symm.trans h)
    simp [allFlags, hcounts.debug, hcounts.onlyWords, honly]
  | false =>
    by_cases hdashes : argument = "--"
    · subst hdashes
      rw [argument_dashes honly] at h
      obtain rfl := Except.ok.inj h
      simp [allFlags, honly, debugFlags]
    · have hcounts := counts_argument honly hdashes h
      simp [allFlags, hcounts.debug, hcounts.onlyWords, honly, debugFlags, hdashes, Nat.add_assoc]

end State

/-! ## All arguments -/

section Readings

variable {level : Level} {state : State} {given : Given} {request : Request}
  {arguments : List String}

theorem debug_of_readFrom (h : readFrom level state arguments = .ok given) :
    given.debug = state.allFlags arguments := by
  induction arguments generalizing state with
  | nil =>
    rw [readFrom_nil, map_eq_ok_iff] at h
    obtain ⟨settled, hsettled, rfl⟩ := h
    rw [(State.counts_settle hsettled).debug, State.allFlags, debugFlags, ite_self]
  | cons argument rest ih =>
    rw [readFrom_cons, bind_eq_ok_iff] at h
    obtain ⟨next, hnext, h⟩ := h
    rw [ih h, State.allFlags_of_argument hnext]

theorem debugFlags_command (command : Command) (rest : List String) :
    debugFlags (command.name :: rest) = debugFlags rest := by
  cases command <;> exact Nat.zero_add _

/-- The flags behind the name of the command go before those in front of it. -/
theorem debug_of_readTop (h : readTop state arguments = .ok request) :
    ∃ above below, above + below = state.allFlags arguments ∧
      request.debug = if below = 0 then above else below := by
  induction arguments generalizing state with
  | nil =>
    obtain ⟨settled, hsettled, h⟩ := bind_eq_ok_iff.mp h
    refine ⟨state.given.debug, 0, by simp [State.allFlags, debugFlags], ?_⟩
    unfold requestOf at h
    split at h
    · contradiction
    · obtain rfl := Except.ok.inj h
      exact (State.counts_settle hsettled).debug
  | cons argument rest ih =>
    obtain ⟨next, hnext, h, -⟩ |
      ⟨command, given, task, settled, rfl, -, honly, hgiven, -, hsettled, rfl⟩ :=
      readTop_cons_eq_ok h
    · exact State.allFlags_of_argument hnext rest ▸ ih h
    · have hbelow : given.debug = debugFlags rest := by
        rw [debug_of_readFrom hgiven, State.allFlags]
        exact Nat.zero_add _
      have habove : settled.given.debug = state.given.debug := (State.counts_settle hsettled).debug
      refine ⟨settled.given.debug, given.debug, ?_, rfl⟩
      rw [habove, hbelow, State.allFlags, honly, debugFlags_command]
      rfl

/-- So the request is without debug flags only if the arguments are. -/
theorem debug_eq_zero_iff (h : read arguments = .ok request) :
    request.debug = 0 ↔ debugFlags arguments = 0 := by
  have hexactly {arguments : List String} (h : readExactly arguments = .ok request) :
      request.debug = 0 ↔ debugFlags arguments = 0 := by
    obtain ⟨above, below, hsum, hdebug⟩ := debug_of_readTop h
    have hall : State.allFlags {} arguments = debugFlags arguments := Nat.zero_add _
    rw [hall] at hsum
    rw [hdebug, ← hsum]
    split <;> omega
  obtain h | ⟨first, rest, rfl, -, h⟩ := read_eq_ok h
  · exact hexactly h
  · rw [hexactly h, debugFlags_command]

end Readings

end CommandLine

theorem LogLevel.raised_eq_error_iff (level : LogLevel) (steps : Nat) :
    level.raised steps = .error ↔ level = .error ∧ steps = 0 := by
  cases steps with
  | zero => simp [raised]
  | succ steps =>
    have htells := tellsWarnings_raised_succ level steps
    rw [tellsWarnings, bne_iff_ne] at htells
    simp [htells]

/-- The request and the arguments themselves raise the same levels above that of errors. -/
theorem CommandLine.raised_debug_eq_error_iff {arguments : List String} {request : Request}
    (h : read arguments = .ok request) (level : LogLevel) :
    level.raised request.debug = .error ↔ level.raised (debugFlags arguments) = .error := by
  rw [LogLevel.raised_eq_error_iff, LogLevel.raised_eq_error_iff, debug_eq_zero_iff h]

end DocComment
