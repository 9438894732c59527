import DocComment.Json.Reader

/-!
# How deep a value that was read is nested

A reader holds at most `depth` arrays and objects inside each other: what an open frame holds is
never nested deeper than the levels that are left below it, and no step changes that.
-/

namespace DocComment.Json

mutual

/-- The number of arrays and objects inside each other. -/
def nesting : Json → Nat
  | arr items => nestingEach items + 1
  | obj members => nestingMembers members + 1
  | null | bool _ | num _ | str _ | unheld => 0

def nestingEach : List Json → Nat
  | [] => 0
  | item :: rest => max (nesting item) (nestingEach rest)

def nestingMembers : List (String × Json) → Nat
  | [] => 0
  | (_, value) :: rest => max (nesting value) (nestingMembers rest)

end

@[simp] theorem nesting_arr (items : List Json) : (arr items).nesting = nestingEach items + 1 := by
  rw [nesting]

@[simp] theorem nesting_obj (members : List (String × Json)) :
    (obj members).nesting = nestingMembers members + 1 := by
  rw [nesting]

@[simp] theorem nesting_unheld : unheld.nesting = 0 := by rw [nesting]

@[simp] theorem nesting_str (value : String) : (str value).nesting = 0 := by rw [nesting]

@[simp] theorem nesting_bool (value : Bool) : (bool value).nesting = 0 := by rw [nesting]

theorem nestingEach_le_iff {items : List Json} {n : Nat} :
    nestingEach items ≤ n ↔ ∀ item ∈ items, item.nesting ≤ n := by
  induction items with
  | nil => simp [nestingEach]
  | cons item rest ih => rw [nestingEach, Nat.max_le, ih, List.forall_mem_cons]

theorem nesting_le_nestingEach {item : Json} {items : List Json} (h : item ∈ items) :
    item.nesting ≤ nestingEach items :=
  nestingEach_le_iff.1 (Nat.le_refl _) item h

theorem nestingMembers_eq (members : List (String × Json)) :
    nestingMembers members = nestingEach (members.map (·.2)) := by
  induction members with
  | nil => rfl
  | cons member rest ih =>
    obtain ⟨name, value⟩ := member
    rw [nestingMembers, ih, List.map_cons, nestingEach]

theorem nestingMembers_append (members others : List (String × Json)) :
    nestingMembers (members ++ others) = max (nestingMembers members) (nestingMembers others) := by
  induction members with
  | nil => simp [nestingMembers]
  | cons member rest ih =>
    obtain ⟨name, value⟩ := member
    rw [List.cons_append, nestingMembers, nestingMembers, ih, Nat.max_assoc]

section Reader

variable (reading : Reading)

/-- The values of a frame that is open. -/
def Frame.values : Frame → List Json
  | array items => items
  | object (some members) _ => members.map (·.2)
  | object none _ => []

/-- The values of each frame fit into the levels below it. -/
def Within : List Frame → Prop
  | [] => True
  | frame :: outer =>
    (∀ value ∈ frame.values, value.nesting ≤ reading.depth - (outer.length + 1)) ∧ Within outer

/-- So does the value that is complete, or what is open. -/
def Progress.Within : Progress → Prop
  | done value => value.nesting ≤ reading.depth
  | more stack _ => Json.Within reading stack

/-- A word or number is not nested at all. -/
def Token.IsFlat : Token → Prop
  | scalar value => value.nesting = 0
  | _ => True

variable {reading} {frame : Frame} {outer stack : List Frame} {token : Token}

theorem within_add {value : Json} (hvalue : value.nesting ≤ reading.depth - (outer.length + 1))
    (h : Within reading (frame :: outer)) : Within reading (frame.add value :: outer) := by
  refine ⟨?_, h.2⟩
  cases frame with
  | array items => exact List.forall_mem_cons.2 ⟨hvalue, h.1⟩
  | object members name =>
    cases members with
    | none => simp [Frame.add, Frame.values]
    | some members =>
      cases name with
      | none => simp [Frame.add, Frame.values]
      | some name => exact List.forall_mem_cons.2 ⟨hvalue, h.1⟩

theorem within_setName (name : Option String) (h : Within reading (frame :: outer)) :
    Within reading (frame.setName name :: outer) := by
  refine ⟨?_, h.2⟩
  cases frame with
  | array items => exact h.1
  | object members other => cases members <;> exact h.1

theorem within_value {value : Json} (hvalue : value.nesting ≤ reading.depth - stack.length)
    (h : Within reading stack) : (Progress.value value stack).Within reading := by
  cases stack with
  | nil => exact hvalue
  | cons frame outer => exact within_add hvalue h

/-- A frame that is closed is one level deeper than its values. -/
theorem nesting_close_le (h : Within reading (frame :: outer)) :
    frame.close.nesting ≤ reading.depth - (outer.length + 1) + 1 := by
  cases frame with
  | array items =>
    rw [Frame.close, nesting_arr, Nat.add_le_add_iff_right, nestingEach_le_iff]
    simpa [Frame.values] using h.1
  | object members name =>
    cases members with
    | none => simp [Frame.close]
    | some members =>
      rw [Frame.close, nesting_obj, nestingMembers_eq, Nat.add_le_add_iff_right, nestingEach_le_iff]
      simpa [Frame.values] using h.1

theorem within_closed (h : Within reading (frame :: outer)) :
    (reading.closed frame outer).Within reading := by
  refine within_value ?_ h.2
  split
  · next hfewer =>
    have hclose := nesting_close_le h
    rw [fewerThan_iff] at hfewer
    omega
  · simp

theorem within_enter {expected : Expected} {progress : Progress} (hframe : frame.values = [])
    (h : Within reading stack) (henter : reading.enter frame stack expected = .ok progress) :
    progress.Within reading := by
  rw [Reading.enter] at henter
  split at henter
  · cases henter
    exact ⟨by simp [hframe], h⟩
  · cases henter

theorem within_startValue {progress : Progress} (hflat : token.IsFlat) (h : Within reading stack)
    (hstart : reading.startValue stack token = .ok progress) : progress.Within reading := by
  cases token with
  | scalar value =>
    cases hstart
    exact within_value (by rw [hflat]; exact Nat.zero_le _) h
  | string text =>
    cases hstart
    cases text <;> exact within_value (by simp) h
  | openArray => exact within_enter rfl h hstart
  | openObject => exact within_enter rfl h hstart
  | closeArray | closeObject | comma | colon | broken => cases hstart

theorem within_startName {progress : Progress} (h : Within reading stack)
    (hstart : Reading.startName stack token = .ok progress) : progress.Within reading := by
  cases stack with
  | nil => cases token <;> cases hstart
  | cons frame outer =>
    cases token with
    | string name =>
      cases hstart
      exact within_setName name h
    | _ => cases hstart

theorem within_step {expected : Expected} {progress : Progress} (hflat : token.IsFlat)
    (h : Within reading stack) (hstep : reading.step stack expected token = .ok progress) :
    progress.Within reading := by
  rw [Reading.step.eq_def] at hstep
  split at hstep
  · exact within_startValue hflat h hstep
  · split at hstep
    · cases hstep
      exact within_closed h
    · exact within_startValue hflat h hstep
  · exact within_startName h hstep
  · split at hstep
    · cases hstep
      exact within_closed h
    · exact within_startName h hstep
  · cases hstep
    exact h
  · split at hstep
    · cases hstep
      exact h
    · cases hstep
      exact h
    · cases hstep
      exact within_closed h
    · cases hstep
      exact within_closed h
    · cases hstep
  · cases hstep

theorem nesting_le_of_readFrom {expected : Expected} {tokens rest : List Token} {json : Json}
    (hflat : ∀ token ∈ tokens, token.IsFlat) (h : Within reading stack)
    (hread : reading.readFrom stack expected tokens = .ok (json, rest)) :
    json.nesting ≤ reading.depth := by
  induction tokens generalizing stack expected with
  | nil => cases hread
  | cons token tokens ih =>
    obtain ⟨htoken, htokens⟩ := List.forall_mem_cons.1 hflat
    rw [Reading.readFrom] at hread
    split at hread
    · cases hread
    · next value hstep =>
      cases hread
      exact within_step htoken h hstep
    · next stack' expected' hstep => exact ih htokens (within_step htoken h hstep) hread

end Reader

section Tokens

namespace Token

/-- The word that is being read is not nested. -/
def State.IsFlat : State → Prop
  | .word value _ => value.nesting = 0
  | _ => True

def Step.IsFlat (step : Step) : Prop := (∀ token ∈ step.1, token.IsFlat) ∧ step.2.IsFlat

theorem isFlat_silent {state : State} (h : state.IsFlat) : Step.IsFlat ([], state) := ⟨by simp, h⟩

theorem isFlat_fault (kind : Fault) : (fault kind).IsFlat := by
  simp [Step.IsFlat, fault, IsFlat, State.IsFlat]

theorem isFlat_start (c : Char) : (start c).IsFlat := by
  unfold start
  repeat' split
  all_goals simp [Step.IsFlat, IsFlat, State.IsFlat, nesting, fault]

variable (lenient : Bool)

theorem isFlat_number (digits : Numeral) : (number lenient digits).IsFlat := by
  simp only [number]
  cases lenient <;> split <;> simp [IsFlat, nesting]

theorem isFlat_before {token : Token} (h : token.IsFlat) (c : Char) :
    Step.IsFlat (token :: (start c).1, (start c).2) :=
  ⟨List.forall_mem_cons.2 ⟨h, (isFlat_start c).1⟩, (isFlat_start c).2⟩

theorem isFlat_endNumeral (digits : Numeral) (c : Char) : (endNumeral lenient digits c).IsFlat := by
  have hnumber := isFlat_number lenient digits
  unfold endNumeral
  split
  · exact isFlat_fault _
  · exact isFlat_before hnumber c

theorem isFlat_inNumeral (part : NumeralPart) (digits : Numeral) (c : Char) :
    (inNumeral lenient part digits c).IsFlat := by
  simp only [inNumeral]
  cases part <;> dsimp only <;> repeat' split
  all_goals first
    | exact isFlat_silent trivial
    | exact isFlat_fault _
    | exact isFlat_endNumeral _ _ _

theorem isFlat_inString (held : Held) (c : Char) : (inString held c).IsFlat := by
  unfold inString
  repeat' split
  all_goals simp [Step.IsFlat, IsFlat, State.IsFlat, fault]

theorem isFlat_inEscape (held : Held) (c : Char) : (inEscape held c).IsFlat := by
  unfold inEscape
  repeat' split
  all_goals simp [Step.IsFlat, IsFlat, State.IsFlat, fault]

theorem isFlat_unpaired {go : Held → Step} (h : (go none).IsFlat) :
    (unpaired lenient go).IsFlat := by
  unfold unpaired
  split
  · exact h
  · exact isFlat_fault _

theorem isFlat_inCode (held : Held) (high : Option Nat) (size : Nat) (value : Option Nat)
    (c : Char) :
    (inCode lenient held high size value c).IsFlat := by
  simp only [inCode, endCode]
  repeat' split
  all_goals first
    | exact isFlat_silent trivial
    | exact isFlat_fault _
    | exact isFlat_unpaired lenient (isFlat_silent trivial)

theorem isFlat_step {state : State} (h : state.IsFlat) (c : Char) :
    (step lenient state c).IsFlat := by
  unfold step
  split
  · exact isFlat_start c
  · exact isFlat_before (show Token.IsFlat (.scalar _) from h) c
  · split
    · exact ⟨List.forall_mem_singleton.2 h, trivial⟩
    · exact isFlat_fault _
  · split
    · exact isFlat_silent h
    · exact isFlat_fault _
  · exact isFlat_inNumeral lenient _ _ c
  · exact isFlat_inString _ c
  · exact isFlat_inEscape _ c
  · split
    · exact isFlat_silent trivial
    · exact isFlat_unpaired lenient (isFlat_inEscape none c)
  · exact isFlat_inCode lenient _ _ _ _ c
  · split
    · exact isFlat_silent trivial
    · exact isFlat_unpaired lenient (isFlat_inString none c)
  · exact isFlat_silent trivial

theorem isFlat_finish {state : State} (h : state.IsFlat) :
    ∀ token ∈ finish lenient state, token.IsFlat := by
  unfold finish
  split
  all_goals try simp [IsFlat]
  all_goals first
    | exact h
    | exact isFlat_number lenient _

theorem isFlat_ofTextFrom {state : State} (h : state.IsFlat) (text : Text) :
    ∀ token ∈ ofTextFrom lenient state text, token.IsFlat := by
  induction text generalizing state with
  | nil => exact isFlat_finish lenient h
  | cons c cs ih =>
    obtain ⟨hnow, hlater⟩ := isFlat_step lenient h c
    exact List.forall_mem_append.2 ⟨hnow, ih hlater⟩

end Token

end Tokens

/-- A value that was read is nested no deeper than the reader holds. -/
theorem nesting_le_of_read {reading : Reading} {text : Text} {json : Json}
    (h : reading.read text = .ok json) : json.nesting ≤ reading.depth := by
  have hidle : Token.State.IsFlat .idle := trivial
  have hnone : Within reading [] := trivial
  exact nesting_le_of_readFrom (Token.isFlat_ofTextFrom reading.lenient hidle text) hnone
    (Reading.read_eq_ok_iff.1 h)

end DocComment.Json
