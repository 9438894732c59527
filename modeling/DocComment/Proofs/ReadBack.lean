import DocComment.Json.Printer
import DocComment.Proofs.Nesting

/-!
# Reading back what was written

The text of a value is read as the tokens of the value, whatever its layout, and the tokens are read
as the value as long as it is not nested too deep. Numbers are left aside: a value without them
reads back as it was.
-/

namespace DocComment.Json

mutual

/-- The value holds words, strings, arrays and objects only. -/
def isNumberFree : Json → Bool
  | null | bool _ | str _ => true
  | num _ | unheld => false
  | arr items => allNumberFree items
  | obj members => membersNumberFree members

def allNumberFree : List Json → Bool
  | [] => true
  | item :: rest => isNumberFree item && allNumberFree rest

def membersNumberFree : List (String × Json) → Bool
  | [] => true
  | (_, value) :: rest => isNumberFree value && membersNumberFree rest

end

theorem allNumberFree_iff {items : List Json} :
    allNumberFree items = true ↔ ∀ item ∈ items, item.isNumberFree = true := by
  induction items with
  | nil => simp [allNumberFree]
  | cons item rest ih => rw [allNumberFree, Bool.and_eq_true, ih, List.forall_mem_cons]

theorem membersNumberFree_append (members others : List (String × Json)) :
    membersNumberFree (members ++ others) =
      (membersNumberFree members && membersNumberFree others) := by
  induction members with
  | nil => simp [membersNumberFree]
  | cons member rest ih =>
    obtain ⟨name, value⟩ := member
    rw [List.cons_append, membersNumberFree, membersNumberFree, ih, Bool.and_assoc]

mutual

/-- The tokens of a value. -/
def tokens : Json → List Token
  | arr items => .openArray :: itemTokens items ++ [.closeArray]
  | obj members => .openObject :: memberTokens members ++ [.closeObject]
  | str value => [.string (some value)]
  | null => [.scalar null]
  | bool value => [.scalar (bool value)]
  | num value => [.scalar (num value)]
  | unheld => [.scalar unheld]

def itemTokens : List Json → List Token
  | [] => []
  | item :: rest => tokens item ++ (if rest.isEmpty then [] else [.comma]) ++ itemTokens rest

def memberTokens : List (String × Json) → List Token
  | [] => []
  | (name, value) :: rest =>
    .string (some name) :: .colon :: tokens value ++ (if rest.isEmpty then [] else [.comma]) ++
      memberTokens rest

end

section Text

variable (lenient : Bool)

/-- Between other tokens the text is read as these. -/
def ReadsAs (text : Text) (tokens : List Token) : Prop :=
  ∀ rest, Token.ofTextFrom lenient .idle (text ++ rest) =
    tokens ++ Token.ofTextFrom lenient .idle rest

variable {lenient}

theorem ReadsAs.append {text more : Text} {first rest : List Token} (h : ReadsAs lenient text first)
    (hmore : ReadsAs lenient more rest) : ReadsAs lenient (text ++ more) (first ++ rest) := by
  intro behind
  rw [List.append_assoc, h, hmore, List.append_assoc]

theorem readsAs_nil : ReadsAs lenient [] [] := fun _ => rfl

theorem readsAs_space {text : Text} (h : ∀ c ∈ text, Token.isSpace c = true) :
    ReadsAs lenient text [] := by
  intro rest
  induction text with
  | nil => rfl
  | cons c cs ih =>
    obtain ⟨hc, hcs⟩ := List.forall_mem_cons.1 h
    have hstep : Token.step lenient .idle c = ([], .idle) := by
      unfold Token.step Token.start
      exact if_pos hc
    rw [List.cons_append, Token.ofTextFrom, hstep]
    exact ih hcs

theorem readsAs_newLine (layout : Layout) (level : Nat) :
    ReadsAs lenient (layout.newLine level) [] := by
  refine readsAs_space fun c hc => ?_
  cases layout with
  | compact => cases hc
  | indented =>
    rcases List.mem_cons.1 hc with rfl | hc
    · rfl
    · rw [List.eq_of_mem_replicate hc]
      rfl

theorem readsAs_colon (layout : Layout) : ReadsAs lenient layout.colon [.colon] := by
  cases layout <;> intro rest <;> rfl

theorem readsAs_comma (last : Bool) :
    ReadsAs lenient (if last then [] else [',']) (if last then [] else [.comma]) := by
  cases last <;> intro rest <;> rfl

section Strings

theorem utf8Size_digitChar {n : Nat} (h : n < 16) : (Nat.digitChar n).utf8Size = 1 := by
  have hall : ∀ n < 16, (Nat.digitChar n).utf8Size = 1 := by decide
  exact hall n h

theorem endCode_control {c : Char} (h : c.toNat < 0x20) (held : Token.Held) :
    Token.endCode lenient held none c.toNat = ([], .string (held.map (c :: ·))) := by
  have hhigh : Token.isHigh c.toNat = false := by
    rw [Token.isHigh, Bool.and_eq_false_iff, decide_eq_false_iff_not]
    exact .inl (by omega)
  have hlow : Token.isLow c.toNat = false := by
    rw [Token.isLow, Bool.and_eq_false_iff, decide_eq_false_iff_not]
    exact .inl (by omega)
  simp [Token.endCode, hhigh, hlow]

/-- The escape of a control is its code in four digits. -/
theorem ofTextFrom_control {c : Char} (h : c.toNat < 0x20) (held rest : Text) :
    Token.ofTextFrom lenient (.string (some held)) ("\\u00".toList ++ hexDigits c.toNat ++ rest) =
      Token.ofTextFrom lenient (.string (some (c :: held))) rest := by
  have hfirst : c.toNat / 16 < 16 := by omega
  have hsecond : c.toNat % 16 < 16 := by omega
  obtain ⟨hzero, hzeroSize⟩ : hexDigit? '0' = some 0 ∧ '0'.utf8Size = 1 := by decide
  have hcode : 16 * (c.toNat / 16) + c.toNat % 16 = c.toNat := Nat.div_add_mod _ _
  simp [hexDigits, Token.ofTextFrom, Token.step, Token.inString, Token.inEscape, Token.inCode,
    hzero, hzeroSize, hexDigit?_digitChar hfirst, utf8Size_digitChar hfirst,
    hexDigit?_digitChar hsecond, utf8Size_digitChar hsecond, hcode, endCode_control h]

/-- Inside a string each character is read from its escape. -/
theorem ofTextFrom_escapeChar (c : Char) (held rest : Text) :
    Token.ofTextFrom lenient (.string (some held)) (escapeChar c ++ rest) =
      Token.ofTextFrom lenient (.string (some (c :: held))) rest := by
  unfold escapeChar
  split
  · rfl
  · rfl
  · rfl
  · rfl
  · rfl
  · rfl
  · rfl
  · next hquote hslash _ _ _ _ _ =>
    split
    · next hcontrol => exact ofTextFrom_control hcontrol held rest
    · next hcontrol =>
      have hstep : Token.step lenient (.string (some held)) c =
          ([], .string (some (c :: held))) := by
        simp [Token.step, Token.inString, hcontrol, Ne.intro hquote, Ne.intro hslash]
      rw [List.singleton_append, Token.ofTextFrom, hstep]
      rfl

theorem ofTextFrom_escaped (text held rest : Text) :
    Token.ofTextFrom lenient (.string (some held)) (text.flatMap escapeChar ++ rest) =
      Token.ofTextFrom lenient (.string (some (text.reverse ++ held))) rest := by
  induction text generalizing held with
  | nil => rfl
  | cons c cs ih =>
    rw [List.flatMap_cons, List.append_assoc, ofTextFrom_escapeChar, ih, List.reverse_cons,
      List.append_assoc, List.singleton_append]

theorem readsAs_string (value : String) :
    ReadsAs lenient (writeString value.toList) [.string (some value)] := by
  intro rest
  have hopen : Token.ofTextFrom lenient .idle (writeString value.toList ++ rest) =
      Token.ofTextFrom lenient (.string (some []))
        (value.toList.flatMap escapeChar ++ ('"' :: rest)) := by
    rw [writeString, List.cons_append, List.cons_append, List.append_assoc]
    rfl
  rw [hopen, ofTextFrom_escaped, List.append_nil, Token.ofTextFrom]
  simp [Token.step, Token.inString]

end Strings

theorem readsAs_char {c : Char} {token : Token} (h : Token.start c = ([token], .idle)) :
    ReadsAs lenient [c] [token] := by
  intro rest
  rw [List.singleton_append, Token.ofTextFrom, Token.step, h]

mutual

/-- A value is written as its tokens, with blanks between them. -/
theorem readsAs_write (layout : Layout) (level : Nat) :
    (json : Json) → json.isNumberFree = true → ReadsAs lenient (json.write layout level) json.tokens
  | null, _ => fun _ => rfl
  | bool true, _ => fun _ => rfl
  | bool false, _ => fun _ => rfl
  | str value, _ => by
    rw [write, tokens]
    exact readsAs_string value
  | arr [], _ => fun _ => rfl
  | obj [], _ => fun _ => rfl
  | arr (item :: rest), h => by
    have hopen : ReadsAs lenient ['['] [.openArray] := readsAs_char rfl
    have hclose : ReadsAs lenient [']'] [.closeArray] := readsAs_char rfl
    have hitems := readsAs_writeItems layout (level + 1) (item :: rest) (by rwa [isNumberFree] at h)
    simpa [write, tokens] using
      hopen.append ((hitems.append (readsAs_newLine layout level)).append hclose)
  | obj (member :: rest), h => by
    have hopen : ReadsAs lenient ['\x7b'] [.openObject] := readsAs_char rfl
    have hclose : ReadsAs lenient ['\x7d'] [.closeObject] := readsAs_char rfl
    have hmembers :=
      readsAs_writeMembers layout (level + 1) (member :: rest) (by rwa [isNumberFree] at h)
    simpa [write, tokens] using
      hopen.append ((hmembers.append (readsAs_newLine layout level)).append hclose)
  | num _, h | unheld, h => by simp [isNumberFree] at h

theorem readsAs_writeItems (layout : Layout) (level : Nat) :
    (items : List Json) → allNumberFree items = true →
      ReadsAs lenient (writeItems layout level items) (itemTokens items)
  | [], _ => by
    rw [writeItems, itemTokens]
    exact readsAs_nil
  | item :: rest, h => by
    rw [allNumberFree, Bool.and_eq_true] at h
    have hitem := (readsAs_newLine layout level).append (readsAs_write layout level item h.1)
    rw [writeItems, itemTokens]
    exact (hitem.append (readsAs_comma rest.isEmpty)).append
      (readsAs_writeItems layout level rest h.2)

theorem readsAs_writeMembers (layout : Layout) (level : Nat) :
    (members : List (String × Json)) → membersNumberFree members = true →
      ReadsAs lenient (writeMembers layout level members) (memberTokens members)
  | [], _ => by
    rw [writeMembers, memberTokens]
    exact readsAs_nil
  | (name, value) :: rest, h => by
    rw [membersNumberFree, Bool.and_eq_true] at h
    have hname : ReadsAs lenient (layout.newLine level ++ writeString name.toList ++ layout.colon)
        [.string (some name), .colon] :=
      ((readsAs_newLine layout level).append (readsAs_string name)).append (readsAs_colon layout)
    have hmember := hname.append (readsAs_write layout level value h.1)
    rw [writeMembers, memberTokens]
    exact (hmember.append (readsAs_comma rest.isEmpty)).append
      (readsAs_writeMembers layout level rest h.2)

end

end Text

section Tokens

/-- Where a value may stand. -/
def Expected.TakesValue (expected : Expected) : Prop := expected = .value ∨ expected = .valueOrEnd

/-- Where the name of a member may stand. -/
def Expected.TakesName (expected : Expected) : Prop := expected = .name ∨ expected = .nameOrEnd

namespace Reading

variable (reading : Reading)

/-- Goes on behind a value. -/
def resume (rest : List Token) : Progress → Except ReadError (Json × List Token)
  | .done value => .ok (value, rest)
  | .more stack expected => reading.readFrom stack expected rest

variable {reading} {stack : List Frame} {expected : Expected} {token : Token}

theorem readFrom_cons {progress : Progress}
    (h : reading.step stack expected token = .ok progress) (rest : List Token) :
    reading.readFrom stack expected (token :: rest) = reading.resume rest progress := by
  rw [readFrom, h]
  cases progress <;> rfl

/-- Where a value may stand, a token other than the end of an array starts one. -/
theorem step_of_takesValue (h : expected.TakesValue) (htoken : token ≠ .closeArray) :
    reading.step stack expected token = reading.startValue stack token := by
  rcases h with rfl | rfl
  · rfl
  · cases token <;> first | rfl | exact absurd rfl htoken

theorem enter_eq {frame : Frame} (h : stack.length < reading.depth) (expected : Expected) :
    reading.enter frame stack expected = .ok (.more (frame :: stack) expected) := by
  rw [enter, (fewerThan_iff _ _).2 h]
  rfl

theorem closed_eq {frame : Frame} (h : stack.length < reading.depth) :
    reading.closed frame stack = .value frame.close stack := by
  rw [closed, (fewerThan_iff _ _).2 h]
  rfl

/-- The end of an array, behind an item or where there is none. -/
theorem step_closeArray {held : List Json} (h : stack.length < reading.depth)
    (hexpected : expected = .separator ∨ expected = .valueOrEnd) :
    reading.step (.array held :: stack) expected .closeArray =
      .ok (.value (.arr held.reverse) stack) := by
  rcases hexpected with rfl | rfl <;> exact congrArg Except.ok (closed_eq h)

theorem step_closeObject {held : List (String × Json)} (h : stack.length < reading.depth)
    (hexpected : expected = .separator ∨ expected = .nameOrEnd) :
    reading.step (.object (some held) none :: stack) expected .closeObject =
      .ok (.value (.obj held.reverse) stack) := by
  rcases hexpected with rfl | rfl <;> exact congrArg Except.ok (closed_eq h)

theorem step_name {held : List (String × Json)} (name : String) (hexpected : expected.TakesName) :
    reading.step (.object (some held) none :: stack) expected (.string (some name)) =
      .ok (.more (.object (some held) (some name) :: stack) .colon) := by
  rcases hexpected with rfl | rfl <;> rfl

theorem readFrom_comma {held : List Json} (rest : List Token) :
    reading.readFrom (.array held :: stack) .separator (.comma :: rest) =
      reading.readFrom (.array held :: stack) .value rest := rfl

theorem readFrom_memberComma {held : List (String × Json)} (rest : List Token) :
    reading.readFrom (.object (some held) none :: stack) .separator (.comma :: rest) =
      reading.readFrom (.object (some held) none :: stack) .name rest := rfl

theorem readFrom_colon {frame : Frame} (rest : List Token) :
    reading.readFrom (frame :: stack) .colon (.colon :: rest) =
      reading.readFrom (frame :: stack) .value rest := rfl

mutual

/-- The tokens of a value are read as the value, if there are levels enough for it. -/
theorem readFrom_tokens : (json : Json) → (stack : List Frame) → (expected : Expected) →
    (rest : List Token) → expected.TakesValue → stack.length + json.nesting ≤ reading.depth →
      reading.readFrom stack expected (json.tokens ++ rest) =
        reading.resume rest (.value json stack)
  | null, stack, expected, rest, hexpected, _ | bool _, stack, expected, rest, hexpected, _
  | num _, stack, expected, rest, hexpected, _ | unheld, stack, expected, rest, hexpected, _
  | str _, stack, expected, rest, hexpected, _ => by
    rw [tokens, List.singleton_append]
    exact readFrom_cons ((step_of_takesValue hexpected (by simp)).trans rfl) rest
  | arr items, stack, expected, rest, hexpected, h => by
    rw [nesting_arr] at h
    have hopen : reading.step stack expected .openArray =
        .ok (.more (.array [] :: stack) .valueOrEnd) :=
      (step_of_takesValue hexpected (by simp)).trans (enter_eq (by omega) _)
    rw [tokens, List.cons_append, List.cons_append, readFrom_cons hopen, resume]
    by_cases hitems : items = []
    · rw [hitems]
      exact readFrom_cons (step_closeArray (by omega) (.inr rfl)) rest
    · exact readFrom_itemTokens items hitems [] stack .valueOrEnd rest (.inr rfl) (by omega)
  | obj members, stack, expected, rest, hexpected, h => by
    rw [nesting_obj] at h
    have hopen : reading.step stack expected .openObject =
        .ok (.more (.object (some []) none :: stack) .nameOrEnd) :=
      (step_of_takesValue hexpected (by simp)).trans (enter_eq (by omega) _)
    rw [tokens, List.cons_append, List.cons_append, readFrom_cons hopen, resume]
    by_cases hmembers : members = []
    · rw [hmembers]
      exact readFrom_cons (step_closeObject (by omega) (.inr rfl)) rest
    · exact readFrom_memberTokens members hmembers [] stack .nameOrEnd rest (.inr rfl) (by omega)

/-- Items join those that are held, and the end of the array takes them all. -/
theorem readFrom_itemTokens : (items : List Json) → items ≠ [] → (held : List Json) →
    (stack : List Frame) → (expected : Expected) → (rest : List Token) → expected.TakesValue →
      stack.length + 1 + nestingEach items ≤ reading.depth →
      reading.readFrom (.array held :: stack) expected (itemTokens items ++ [.closeArray] ++ rest) =
        reading.resume rest (.value (.arr (held.reverse ++ items)) stack)
  | [], hitems, _, _, _, _, _, _ => absurd rfl hitems
  | item :: items, _, held, stack, expected, rest, hexpected, h => by
    rw [nestingEach] at h
    have hheld : held.reverse ++ item :: items = (item :: held).reverse ++ items := by simp
    rw [itemTokens, List.append_assoc, List.append_assoc, List.append_assoc,
      readFrom_tokens item (.array held :: stack) expected _ hexpected (by simp; omega), hheld]
    by_cases hitems : items = []
    · rw [hitems, List.append_nil]
      exact readFrom_cons (step_closeArray (by omega) (.inl rfl)) rest
    · rw [← readFrom_itemTokens items hitems (item :: held) stack .value rest (.inl rfl) (by omega),
        if_neg (by simpa using hitems), List.append_assoc]
      exact readFrom_comma _

theorem readFrom_memberTokens : (members : List (String × Json)) → members ≠ [] →
    (held : List (String × Json)) → (stack : List Frame) → (expected : Expected) →
      (rest : List Token) →
      expected.TakesName → stack.length + 1 + nestingMembers members ≤ reading.depth →
      reading.readFrom (.object (some held) none :: stack) expected
          (memberTokens members ++ [.closeObject] ++ rest) =
        reading.resume rest (.value (.obj (held.reverse ++ members)) stack)
  | [], hmembers, _, _, _, _, _, _ => absurd rfl hmembers
  | (name, value) :: members, _, held, stack, expected, rest, hexpected, h => by
    rw [nestingMembers] at h
    have hheld : held.reverse ++ (name, value) :: members =
        ((name, value) :: held).reverse ++ members := by
      simp
    rw [memberTokens, List.append_assoc, List.append_assoc, List.append_assoc, List.cons_append,
      List.cons_append, readFrom_cons (step_name name hexpected), resume, readFrom_colon,
      readFrom_tokens value (.object (some held) (some name) :: stack) .value _ (.inl rfl)
        (by simp; omega),
      hheld]
    by_cases hmembers : members = []
    · rw [hmembers, List.append_nil]
      exact readFrom_cons (step_closeObject (by omega) (.inl rfl)) rest
    · rw [← readFrom_memberTokens members hmembers
        ((name, value) :: held) stack .name rest (.inl rfl)
          (by omega), if_neg (by simpa using hmembers), List.append_assoc]
      exact readFrom_memberComma _

end

end Reading

end Tokens

/-- A value without numbers reads back as it was written, in any layout and with blanks behind it,
if it is not nested deeper than the reader holds. -/
theorem read_write (reading : Reading) (layout : Layout) {json : Json}
    (hfree : json.isNumberFree = true) (hdepth : json.nesting ≤ reading.depth) {blanks : Text}
    (hblanks : ∀ c ∈ blanks, Token.isSpace c = true) :
    reading.read (json.write layout 0 ++ blanks) = .ok json := by
  have htokens : Token.ofText reading.lenient (json.write layout 0 ++ blanks) =
      json.tokens ++ [] := by
    have hreads : ReadsAs reading.lenient (json.write layout 0 ++ blanks) (json.tokens ++ []) :=
      (readsAs_write layout 0 json hfree).append (readsAs_space hblanks)
    have htext := hreads []
    rw [List.append_nil] at htext
    rw [Token.ofText, htext]
    exact List.append_nil _
  rw [Reading.read_eq_ok_iff, Reading.readFirst, htokens]
  exact Reading.readFrom_tokens json [] .value [] (.inl rfl) (by simpa using hdepth)

end DocComment.Json
