import DocComment.CommandLine.Run
import DocComment.Proofs.Inspection
import DocComment.Proofs.Readings

/-!
# The names of transforms

The name of a transform is that of its stage and that of its view with a hyphen between them. A name
that is given is taken apart at its last hyphen, so hyphens further in front belong to the stage.
The names that are accepted do not depend on what is to be shown: they are the ones in the listing,
and the ones that can stand among the arguments.
-/

namespace DocComment

/-! ## Names taken apart -/

theorem Stage.ofName?_eq_some_iff {name : String} {stage : Stage} :
    ofName? name = some stage ↔ stage.name = name := by
  constructor
  · intro h
    have hfound := List.find?_some h
    exact beq_iff_eq.1 hfound
  · rintro rfl
    exact ofName?_name stage

theorem Stage.ofName?_eq_none_iff {name : String} :
    ofName? name = none ↔ ∀ stage : Stage, stage.name ≠ name := by
  simp only [Option.eq_none_iff_forall_ne_some, ne_eq, ofName?_eq_some_iff]

theorem View.name_of_ofName? {name : String} {view : View} (h : ofName? name = some view) :
    view.name = name := by
  have hfound := List.find?_some h
  exact beq_iff_eq.1 hfound

/-- The last hyphen of a name stands between two parts. -/
structure LastHyphen (name before after : String) : Prop where
  eq : name = before ++ "-" ++ after
  not_mem : '-' ∉ after.toList

namespace LastHyphen

variable {name before after : String}

theorem toList_eq (h : LastHyphen name before after) :
    name.toList = before.toList ++ '-' :: after.toList := by
  rw [h.eq]
  simp

theorem mem (h : LastHyphen name before after) : '-' ∈ name.toList := by
  rw [h.toList_eq]
  simp

theorem rdropWhile_eq (h : LastHyphen name before after) :
    name.toList.rdropWhile (· != '-') = before.toList ++ ['-'] := by
  have hafter : after.toList.rdropWhile (· != '-') = [] := by
    rw [List.rdropWhile_eq_nil_iff]
    exact fun c hc => bne_iff_ne.2 (ne_of_mem_of_not_mem hc h.not_mem)
  rw [h.toList_eq, rdropWhile_append_cons _ (by decide), hafter]

theorem rtakeWhile_eq (h : LastHyphen name before after) :
    name.toList.rtakeWhile (· != '-') = after.toList := by
  have hparts := List.rdropWhile_append_rtakeWhile (p := (· != '-')) (l := name.toList)
  rw [h.rdropWhile_eq, List.append_assoc, List.singleton_append] at hparts
  exact (List.cons.inj (List.append_cancel_left (hparts.trans h.toList_eq))).2

end LastHyphen

theorem exists_lastHyphen {name : String} (h : '-' ∈ name.toList) :
    ∃ before after, LastHyphen name before after := by
  have hparts := List.rdropWhile_append_rtakeWhile (p := (· != '-')) (l := name.toList)
  have hfront : name.toList.rdropWhile (· != '-') ≠ [] := by
    rw [ne_eq, List.rdropWhile_eq_nil_iff]
    intro hall
    exact absurd (hall '-' h) (by decide)
  obtain ⟨front, last, hconcat⟩ := (List.eq_nil_or_concat _).resolve_left hfront
  rw [List.concat_eq_append] at hconcat
  have hlast : last = '-' := by
    have hend : (name.toList.rdropWhile (· != '-')).getLast? = some last := by
      rw [hconcat, List.getLast?_concat]
    simpa using not_of_getLast?_rdropWhile (· != '-') hend
  rw [hconcat, hlast] at hparts
  refine ⟨String.ofList front, String.ofList (name.toList.rtakeWhile (· != '-')), ?_, ?_⟩
  · rw [← String.toList_inj]
    simpa using hparts.symm
  · rw [String.toList_ofList]
    intro hmem
    exact absurd (List.mem_rtakeWhile_imp hmem) (by decide)

namespace Transform

variable {name before after other : String}

theorem ofName_of_not_mem (h : '-' ∉ name.toList) :
    ofName name = .error (.unknownTransform name) := by
  simp only [ofName, if_neg h]

theorem ofName_of_lastHyphen (h : LastHyphen name before after) :
    ofName name =
      (Stage.ofName? before).elim (.error (.unknownStage before)) fun stage =>
        (View.ofName? after).elim (.error (.unknownTransform name)) fun view =>
          .ok ⟨stage, view⟩ := by
  simp only [ofName, if_pos h.mem, dropEndWhile_eq_rdropWhile, takeEndWhile_eq_rtakeWhile,
    h.rdropWhile_eq, h.rtakeWhile_eq, List.dropLast_concat, String.ofList_toList]
  cases Stage.ofName? before with
  | none => rfl
  | some stage => cases View.ofName? after <;> rfl

/-- What becomes of a name, the reason included if it is refused. -/
theorem ofName_cases (name : String) :
    (∃ transform : Transform, transform.name = name ∧ ofName name = .ok transform) ∨
      (∃ before after, LastHyphen name before after ∧ (∀ stage : Stage, stage.name ≠ before) ∧
        ofName name = .error (.unknownStage before)) ∨
      ofName name = .error (.unknownTransform name) := by
  by_cases hmem : '-' ∈ name.toList
  · obtain ⟨before, after, hcut⟩ := exists_lastHyphen hmem
    rw [ofName_of_lastHyphen hcut]
    cases hstage : Stage.ofName? before with
    | none => exact .inr (.inl ⟨before, after, hcut, Stage.ofName?_eq_none_iff.1 hstage, rfl⟩)
    | some stage =>
      cases hview : View.ofName? after with
      | none => exact .inr (.inr rfl)
      | some view =>
        refine .inl ⟨⟨stage, view⟩, ?_, rfl⟩
        rw [Transform.name, Stage.ofName?_eq_some_iff.1 hstage, View.name_of_ofName? hview, hcut.eq]
  · exact .inr (.inr (ofName_of_not_mem hmem))

theorem ofName_eq_ok_iff {transform : Transform} :
    ofName name = .ok transform ↔ transform.name = name := by
  constructor
  · intro h
    obtain ⟨found, hname, hfound⟩ | ⟨before, after, -, -, herror⟩ | herror := ofName_cases name
    · rw [hfound] at h
      rwa [← Except.ok.inj h]
    · rw [herror] at h
      contradiction
    · rw [herror] at h
      contradiction
  · rintro rfl
    exact ofName_name transform

theorem mem_names_iff : name ∈ names ↔ ∃ transform : Transform, transform.name = name := by
  rw [names, List.mem_map]
  constructor
  · rintro ⟨transform, -, hname⟩
    exact ⟨transform, hname⟩
  · rintro ⟨transform, hname⟩
    refine ⟨transform, ?_, hname⟩
    obtain ⟨stage, view⟩ := transform
    cases stage <;> cases view <;> decide

theorem names_eq :
    names = ["parsed-treeviz", "parsed-json", "summary-treeviz", "summary-json", "filtered-treeviz",
      "filtered-json", "shifted-treeviz", "shifted-json"] := rfl

/-- The part in front of the last hyphen is looked at first. -/
theorem ofName_eq_unknownStage_iff :
    ofName name = .error (.unknownStage before) ↔
      (∃ after, LastHyphen name before after) ∧ ∀ stage : Stage, stage.name ≠ before := by
  constructor
  · intro h
    obtain ⟨found, -, hfound⟩ | ⟨front, after, hcut, hnone, herror⟩ | herror := ofName_cases name
    · rw [hfound] at h
      contradiction
    · rw [herror] at h
      cases h
      exact ⟨⟨after, hcut⟩, hnone⟩
    · rw [herror] at h
      cases h
  · rintro ⟨⟨after, hcut⟩, hnone⟩
    rw [ofName_of_lastHyphen hcut, Stage.ofName?_eq_none_iff.2 hnone, Option.elim_none]

/-- All other names that are no transform's are unknown as a whole. -/
theorem ofName_eq_unknownTransform_iff :
    ofName name = .error (.unknownTransform other) ↔
      other = name ∧ name ∉ names ∧
        ∀ before after, LastHyphen name before after → ∃ stage : Stage, stage.name = before := by
  constructor
  · intro h
    refine ⟨?_, fun hmem => ?_, fun before after hcut => ?_⟩
    · obtain ⟨found, -, hfound⟩ | ⟨front, after, -, -, herror⟩ | herror := ofName_cases name
      · rw [hfound] at h
        contradiction
      · rw [herror] at h
        cases h
      · rw [herror] at h
        cases h
        rfl
    · obtain ⟨transform, rfl⟩ := mem_names_iff.1 hmem
      rw [ofName_name] at h
      contradiction
    · by_contra hnone
      have hstage := ofName_eq_unknownStage_iff.2 ⟨⟨after, hcut⟩, not_exists.1 hnone⟩
      rw [h] at hstage
      cases hstage
  · rintro ⟨rfl, hmem, hknown⟩
    obtain ⟨found, hname, -⟩ | ⟨front, after, hcut, hnone, -⟩ | herror := ofName_cases other
    · exact absurd (mem_names_iff.2 ⟨found, hname⟩) hmem
    · obtain ⟨stage, hstage⟩ := hknown front after hcut
      exact absurd hstage (hnone stage)
    · exact herror

/-- Only the last hyphen counts, and each of the two parts can be empty. -/
example :
    ofName "summary-json-treeviz" = .error (.unknownStage "summary-json") ∧
      ofName "-json" = .error (.unknownStage "") ∧
      ofName "shifted-" = .error (.unknownTransform "shifted-") := by
  decide

end Transform

namespace Declaration

variable {options : Options} {name : String} {declarations : List Declaration}

theorem exists_displayNamed_iff :
    (∃ text, displayNamed options name declarations = .ok text) ↔ name ∈ Transform.names := by
  rw [Transform.mem_names_iff, displayNamed]
  simp only [map_eq_ok_iff, Transform.ofName_eq_ok_iff]
  constructor
  · rintro ⟨text, transform, hname, -⟩
    exact ⟨transform, hname⟩
  · rintro ⟨transform, hname⟩
    exact ⟨_, transform, hname, rfl⟩

theorem displayNamed_eq_error_iff {error : TransformError} :
    displayNamed options name declarations = .error error ↔
      Transform.ofName name = .error error := by
  rw [displayNamed]
  cases Transform.ofName name <;> simp [Except.map]

end Declaration

/-! ## Names among the arguments -/

namespace CommandLine

namespace Given

variable {level : Level} {given after : Given} {opt : Opt}

theorem words_of_flag (h : given.flag level opt = .ok after) : after.words = given.words := by
  unfold Given.flag at h
  repeat' split at h
  all_goals first | contradiction | exact (Except.ok.inj h) ▸ rfl

theorem words_of_value {value : String} (h : given.value opt value = .ok after) :
    after.words = given.words := by
  unfold Given.value at h
  repeat' split at h
  all_goals first | contradiction | exact (Except.ok.inj h) ▸ rfl

/-- The second word, if there is one, is the name of a transform. -/
def NamesTransform (given : Given) : Prop :=
  ∀ name, given.words[1]? = some name → name ∈ Transform.names

theorem namesTransform_word {word : String} (h : given.word (some .inspect) word = .ok after)
    (hgiven : given.NamesTransform) : after.NamesTransform := by
  unfold Given.word at h
  split at h
  next => contradiction
  next hallowed =>
    obtain rfl := Except.ok.inj h
    intro name hname
    -- a word comes behind those that are there, so only where there is one does it become the
    -- second
    match hwords : given.words with
    | [] => simp [hwords] at hname
    | [path] =>
      obtain rfl : word = name := by simpa [hwords] using hname
      by_contra hother
      exact hallowed ⟨rfl, by rw [hwords]; rfl, hother⟩
    | path :: second :: rest =>
      exact hgiven name (by simpa [hwords] using hname)

theorem keptAt_namesTransform : KeptAt (some .inspect) NamesTransform where
  flag h hgiven := by rwa [NamesTransform, words_of_flag h]
  value h hgiven := by rwa [NamesTransform, words_of_value h]
  word := namesTransform_word

end Given

variable {path name : String}

/-- An inspection is only asked for with a name in the listing; without one, the standard name is
meant. -/
theorem mem_names_of_read {arguments : List String} {request : Request}
    (h : read arguments = .ok request) (htask : request.task = some (.inspect path name)) :
    name ∈ Transform.names := by
  obtain ⟨command, rest, given, hgiven, htaken⟩ := exists_given_of_read h htask
  cases command with
  | convert => cases hlist : given.words <;> simp [taskOf, hlist] at htaken
  | inspect =>
    have hwords : given.NamesTransform :=
      Given.keptAt_namesTransform.readFrom hgiven (by simp [Given.NamesTransform])
    cases hlist : given.words with
    | nil => simp [taskOf, hlist] at htaken
    | cons first others =>
      simp only [taskOf, hlist, Except.ok.injEq, Task.inspect.injEq] at htaken
      obtain ⟨-, rfl⟩ := htaken
      cases others with
      | nil => exact Transform.mem_names_iff.2 ⟨Transform.standard, rfl⟩
      | cons second others => exact hwords second (by rw [hlist]; rfl)

/-- Behind two dashes any path can stand, and any name in the listing. -/
theorem read_inspect (path : String) (h : name ∈ Transform.names) :
    read ["inspect", "--", path, name] =
      .ok { listTransforms := false, listTags := false, config := none, debug := 0,
            task := some (.inspect path name) } := by
  have hpath : Given.word (some .inspect) {} path = .ok { words := [path] } := rfl
  have hname : Given.word (some .inspect) { words := [path] } name =
    .ok { words := [path, name] } := by
    simp [Given.word, h]
  -- each of the two words waits until the next thing comes
  have hgiven : readCommand .inspect ["--", path, name] = .ok { words := [path, name] } := by
    show readFrom (some .inspect) {} ["--", path, name] = _
    rw [readFrom_cons, State.argument_dashes rfl]
    show readFrom (some .inspect) { onlyWords := true } [path, name] = _
    rw [readFrom_cons, State.argument, if_pos rfl, State.word_eq (.inr rfl), State.settle_none rfl]
    show readFrom (some .inspect) { pending := some (.word path), onlyWords := true } [name] = _
    rw [readFrom_cons, State.argument, if_pos rfl, State.word_eq (.inr rfl), State.settle_some rfl,
      Given.takeIn, hpath]
    show readFrom (some .inspect)
      { given := { words := [path] }, pending := some (.word name), onlyWords := true } [] = _
    rw [readFrom_nil, State.settle_some rfl, Given.takeIn, hname]
    rfl
  have hexactly : readExactly ["inspect", "--", path, name] =
      .ok (requestOfCommand {} {} (.inspect path name)) := by
    show (readCommand .inspect ["--", path, name] >>= _) = _
    rw [hgiven]
    rfl
  rw [read, hexactly]
  rfl

/-- What holds of a name, be it given for some declarations or among the arguments. -/
structure NamesAgree (options : Options) (name : String) (declarations : List Declaration) :
    Prop where
  /-- Whichever declarations there are, a name is accepted exactly if it is in the list. -/
  accepted : (∃ text, Declaration.displayNamed options name declarations = .ok text) ↔
    name ∈ Transform.names
  /-- A part in front of the last hyphen that is no name of a stage is what is unknown. -/
  unknownStage (before : String) :
    Declaration.displayNamed options name declarations = .error (.unknownStage before) ↔
      (∃ after, LastHyphen name before after) ∧ ∀ stage : Stage, stage.name ≠ before
  /-- Of every other name that is refused all is unknown. -/
  unknownTransform (other : String) :
    Declaration.displayNamed options name declarations = .error (.unknownTransform other) ↔
      other = name ∧ name ∉ Transform.names ∧
        ∀ before after, LastHyphen name before after → ∃ stage : Stage, stage.name = before
  message_unknownStage (before : String) :
    (TransformError.unknownStage before).message = "Unknown stage '" ++ before ++ "'"
  message_unknownTransform : (TransformError.unknownTransform name).message =
    "Unknown transform: " ++ name
  names_eq : Transform.names = ["parsed-treeviz", "parsed-json", "summary-treeviz", "summary-json",
    "filtered-treeviz", "filtered-json", "shifted-treeviz", "shifted-json"]
  /-- Arguments can ask for the names in the list, and for no others. -/
  asked (path : String) : name ∈ Transform.names ↔
    ∃ arguments request, read arguments = .ok request ∧ request.task = some (.inspect path name)
  /-- The listing that is printed ends with a line for each of them. -/
  listed : ∃ heading, transformListing =
    heading ++ String.join (Transform.names.map fun name => "  " ++ name ++ "\n")

/-- The names that are advertised are the ones that are accepted. -/
theorem advertised_names_accepted (options : Options) (name : String)
    (declarations : List Declaration) :
    NamesAgree options name declarations where
  accepted := Declaration.exists_displayNamed_iff
  unknownStage before :=
    Declaration.displayNamed_eq_error_iff.trans Transform.ofName_eq_unknownStage_iff
  unknownTransform other :=
    Declaration.displayNamed_eq_error_iff.trans Transform.ofName_eq_unknownTransform_iff
  message_unknownStage before := rfl
  message_unknownTransform := rfl
  names_eq := Transform.names_eq
  asked path := by
    constructor
    · intro h
      exact ⟨_, _, read_inspect path h, rfl⟩
    · rintro ⟨arguments, request, hread, htask⟩
      exact mem_names_of_read hread htask
  listed := ⟨_, rfl⟩

end CommandLine

end DocComment
