import DocComment.Declaration.Json
import DocComment.Proofs.Everywhere
import DocComment.Proofs.Pairwise

/-!
# How values spell declarations

An object spells a structure by the members that have the names of its fields, an array by the first
of its fields in order; what is left out is at its default. Reading accepts the spellings and
nothing else, and no value spells both one declaration and a list of them.
-/

namespace DocComment

namespace Json

/-- A field of a structure: the values that spell it, and whether it may be left out. -/
structure Field where
  name : String
  Spelled : Json → Prop
  MayMiss : Prop

namespace Field

def required (name : String) (Spelled : Json → Prop) : Field := ⟨name, Spelled, False⟩

@[simp] theorem required_name (name : String) (Spelled : Json → Prop) :
    (required name Spelled).name = name := rfl

/-- A field may be given once, or not at all where it is at its default. -/
def Given (field : Field) : List Json → Prop
  | [] => field.MayMiss
  | [value] => field.Spelled value
  | _ => False

end Field

/-- All values of the members with a name. -/
def valuesOf (name : String) (members : List (String × Json)) : List Json :=
  (members.filter (·.1 = name)).map (·.2)

/-- The value spells a structure with these fields. -/
inductive Spells (fields : List Field) : Json → Prop
  /-- Members of other names are of no account. -/
  | object {members : List (String × Json)}
      (h : ∀ field ∈ fields, field.Given (valuesOf field.name members)) :
      Spells fields (.obj members)
  /-- The array gives the fields up to some place, and those behind it are left out. -/
  | array {items : List Json} {given left : List Field} (hfields : fields = given ++ left)
      (hgiven : List.Forall₂ Field.Spelled given items) (hleft : ∀ field ∈ left, field.MayMiss) :
      Spells fields (.arr items)

/-- The value is an array whose items spell the members of a list, one each. -/
def SpellsEach {α : Type} (spelled : α → Json → Prop) (list : List α) (json : Json) : Prop :=
  ∃ items, json = .arr items ∧ List.Forall₂ spelled list items

theorem given_valuesOf_iff {field : Field} {members : List (String × Json)} :
    field.Given (valuesOf field.name members) ↔
      members.countP (·.1 = field.name) ≤ 1 ∧
        field.Given (((members.find? (·.1 = field.name)).map (·.2)).toList) := by
  rw [valuesOf, ← List.head?_filter, List.countP_eq_length_filter]
  generalize members.filter (·.1 = field.name) = found
  rcases found with _ | ⟨first, _ | ⟨second, rest⟩⟩
  · simp
  · simp
  · simp [Field.Given]

theorem spells_array_nil_iff {fields : List Field} :
    Spells fields (.arr []) ↔ ∀ field ∈ fields, field.MayMiss := by
  constructor
  · intro h
    cases h with
    | array hfields hgiven hleft =>
      cases hgiven
      rwa [hfields]
  · intro h
    exact .array (List.nil_append fields).symm .nil h

theorem spells_array_cons_iff {field : Field} {fields : List Field} {item : Json}
    {items : List Json} :
    Spells (field :: fields) (.arr (item :: items)) ↔
      field.Spelled item ∧ Spells fields (.arr items) := by
  constructor
  · intro h
    cases h with
    | array hfields hgiven hleft =>
      cases hgiven with
      | cons hitem hitems =>
        obtain ⟨rfl, rfl⟩ := List.cons.inj hfields
        exact ⟨hitem, .array rfl hitems hleft⟩
  · rintro ⟨hitem, hrest⟩
    cases hrest with
    | array hfields hgiven hleft =>
      exact .array (by rw [hfields, List.cons_append]) (.cons hitem hgiven) hleft

theorem not_spells_too_many {item : Json} {items : List Json} :
    ¬ Spells [] (.arr (item :: items)) := by
  intro h
  cases h with
  | array hfields hgiven hleft =>
    cases hgiven
    cases hfields

/-- In an array each field is given by the item at its place. -/
theorem spells_array_iff {fields : List Field} (hnodup : (fields.map Field.name).Nodup)
    (items : List Json) :
    Spells fields (.arr items) ↔
      items.length ≤ fields.length ∧ ∀ field ∈ fields, field.Given
        (((((fields.map Field.name).zip items).find? (·.1 = field.name)).map (·.2)).toList) := by
  induction fields generalizing items with
  | nil =>
    cases items with
    | nil => simp [spells_array_nil_iff]
    | cons item items => simp [not_spells_too_many]
  | cons head rest ih =>
    cases items with
    | nil => simp [spells_array_nil_iff, Field.Given]
    | cons item items =>
      obtain ⟨hhead, hrest⟩ := List.nodup_cons.1 hnodup
      have hlater : ∀ field ∈ rest, head.name ≠ field.name := fun field hf heq =>
        hhead (heq ▸ List.mem_map_of_mem hf)
      rw [spells_array_cons_iff, ih hrest, List.forall_mem_cons, List.map_cons, List.zip_cons_cons,
        List.length_cons, List.length_cons, Nat.add_le_add_iff_right, and_left_comm]
      refine and_congr_right fun _ => and_congr ?_ (forall₂_congr fun field hf => ?_)
      · simp [Field.Given]
      · simp [hlater field hf]

/-- What spells the fields is what gives each field at most once, as it is. -/
theorem spells_iff {fields : List Field} (names : List String)
    (hnames : fields.map Field.name = names) (hnodup : names.Nodup) (json : Json) :
    Spells fields json ↔ ∃ given, json.fields names = some given ∧
      ∀ field ∈ fields, field.Given (given field.name).toList := by
  subst hnames
  cases json with
  | obj members =>
    have hobject : Spells fields (.obj members) ↔
        ∀ field ∈ fields, field.Given (valuesOf field.name members) :=
      ⟨fun | .object h => h, .object⟩
    rw [hobject, Json.fields, List.all_map]
    simp only [given_valuesOf_iff]
    constructor
    · intro h
      exact ⟨_, if_pos (by simpa using fun field hf => (h field hf).1),
        fun field hf => (h field hf).2⟩
    · rintro ⟨given, hgiven, h⟩ field hf
      split at hgiven
      · next honce =>
        cases hgiven
        exact ⟨by simpa using List.all_eq_true.1 honce field hf, h field hf⟩
      · cases hgiven
  | arr items =>
    rw [spells_array_iff hnodup, Json.fields, List.length_map]
    constructor
    · rintro ⟨hlength, h⟩
      exact ⟨_, if_pos hlength, h⟩
    · rintro ⟨given, hgiven, h⟩
      split at hgiven
      · next hlength =>
        cases hgiven
        exact ⟨hlength, h⟩
      · cases hgiven
  | null | bool | num | str | unheld =>
    constructor
    · intro h
      cases h
    · rintro ⟨given, hgiven, -⟩
      cases hgiven

section Reading

variable {α : Type} {read : Json → Option α} {a default : α} {Spelled : Json → Prop} {name : String}

theorem str?_eq_some_iff {json : Json} {value : String} :
    json.str? = some value ↔ json = .str value := by
  cases json <;> simp [str?]

theorem bool?_eq_some_iff {json : Json} {value : Bool} :
    json.bool? = some value ↔ json = .bool value := by
  cases json <;> simp [bool?]

theorem arr?_eq_some_iff {json : Json} {items : List Json} :
    json.arr? = some items ↔ json = .arr items := by
  cases json <;> simp [arr?]

/-- Reading a field that has to be given. -/
theorem bind_eq_some_iff_given (hread : ∀ value, read value = some a ↔ Spelled value)
    (given : Option Json) :
    given.bind read = some a ↔ (Field.required name Spelled).Given given.toList := by
  cases given with
  | none => simp [Field.Given, Field.required]
  | some value => exact hread value

/-- Reading a field that has a default. -/
theorem elim_eq_some_iff_given (hread : ∀ value, read value = some a ↔ Spelled value)
    (given : Option Json) :
    given.elim (some default) read = some a ↔
      (Field.mk name Spelled (a = default)).Given given.toList := by
  cases given with
  | none => simp [Field.Given, eq_comm]
  | some value => exact hread value

theorem mapM_eq_some_iff (items : List Json) (list : List α) :
    items.mapM read = some list ↔ List.Forall₂ (fun a item => read item = some a) list items := by
  induction items generalizing list with
  | nil => simp [eq_comm]
  | cons item items ih =>
    rw [List.forall₂_cons_right_iff, List.mapM_cons]
    simp only [Option.bind_eq_bind, Option.bind_eq_some_iff, Option.pure_def, Option.some.injEq, ih]
    grind

theorem listOfJson?_eq_some_iff {spelled : α → Json → Prop} {list : List α}
    (hread : ∀ a ∈ list, ∀ item, read item = some a ↔ spelled a item) (json : Json) :
    listOfJson? read json = some list ↔ SpellsEach spelled list json := by
  rw [listOfJson?, Option.bind_eq_some_iff, SpellsEach]
  refine exists_congr fun items => and_congr arr?_eq_some_iff ?_
  rw [mapM_eq_some_iff]
  exact forall₂_congr_of_mem hread

end Reading

end Json

open Json

/-! ## The spellings of each structure -/

namespace Node

mutual

def SpelledBy : Node → Json → Prop
  | ⟨tag, data, children, isLeaf⟩ => Spells [
      .required "tag" (· = .str tag),
      ⟨"data", (· = .str data), data = ""⟩,
      ⟨"children", fun value => ∃ items, value = .arr items ∧ SpelledByEach children items,
        children = []⟩,
      ⟨"leaf", (· = .bool isLeaf), isLeaf = false⟩]

def SpelledByEach : List Node → List Json → Prop
  | [], items => items = []
  | node :: nodes, items =>
    ∃ item rest, items = item :: rest ∧ SpelledBy node item ∧ SpelledByEach nodes rest

end

theorem spelledByEach_iff (nodes : List Node) (items : List Json) :
    SpelledByEach nodes items ↔ List.Forall₂ SpelledBy nodes items := by
  induction nodes generalizing items with
  | nil => rw [SpelledByEach, List.forall₂_nil_left_iff]
  | cons node nodes ih =>
    rw [SpelledByEach, List.forall₂_cons_left_iff]
    simp only [ih]
    grind

/-- Only the tag has no default. -/
theorem spelledBy_iff (node : Node) (json : Json) :
    node.SpelledBy json ↔ Spells [
      .required "tag" (· = .str node.tag),
      ⟨"data", (· = .str node.data), node.data = ""⟩,
      ⟨"children", SpellsEach SpelledBy node.children, node.children = []⟩,
      ⟨"leaf", (· = .bool node.isLeaf), node.isLeaf = false⟩] json := by
  obtain ⟨tag, data, children, isLeaf⟩ := node
  rw [SpelledBy]
  simp only [spelledByEach_iff]
  rfl

/-- Reading a node without the bookkeeping of its recursion. -/
theorem ofJson?_eq (json : Json) :
    ofJson? json = (json.fields fieldNames).bind fun given =>
      ((given "tag").bind Json.str?).bind fun tag =>
      ((given "data").elim (some "") Json.str?).bind fun data =>
      ((given "leaf").elim (some false) Json.bool?).bind fun isLeaf =>
      ((given "children").elim (some []) (listOfJson? ofJson?)).map fun children =>
        { tag, data, children, isLeaf } := by
  rw [ofJson?]
  split
  · next hfields => rw [hfields]; rfl
  · next given hfields =>
    rw [hfields, Option.bind_some]
    simp only [Option.bind_eq_bind, Option.bind_assoc]
    refine Option.bind_congr fun _ _ => Option.bind_congr fun tag _ =>
      Option.bind_congr fun data _ =>
      Option.bind_congr fun isLeaf _ => ?_
    split
    · next hchildren => rw [hchildren]; rfl
    · next items hchildren =>
      rw [hchildren, Option.elim_some, listOfJson?, arr?, Option.bind_some, Option.map_eq_bind,
        List.mapM_subtype (fun _ _ => rfl), List.unattach_attach]
      rfl
    · next value hother hchildren =>
      rw [hchildren]
      cases value with
      | arr items => exact absurd rfl (hother items)
      | _ => rfl

/-- A value is read as a node exactly if it spells the node. -/
theorem ofJson?_eq_some_iff (node : Node) (json : Json) :
    ofJson? json = some node ↔ node.SpelledBy json := by
  induction node using Node.induction generalizing json with
  | _ node ih =>
    rw [spelledBy_iff, spells_iff fieldNames (by rfl) (by decide), ofJson?_eq,
      Option.bind_eq_some_iff]
    refine exists_congr fun given => and_congr_right fun _ => ?_
    simp only [List.forall_mem_cons, Field.required_name]
    rw [← bind_eq_some_iff_given fun _ => str?_eq_some_iff,
      ← elim_eq_some_iff_given fun _ => str?_eq_some_iff,
      ← elim_eq_some_iff_given (listOfJson?_eq_some_iff ih),
      ← elim_eq_some_iff_given fun _ => bool?_eq_some_iff]
    simp only [Option.bind_eq_some_iff, Option.map_eq_some_iff]
    constructor
    · rintro ⟨tag, htag, data, hdata, isLeaf, hleaf, children, hchildren, rfl⟩
      exact ⟨htag, hdata, hchildren, hleaf, by simp⟩
    · rintro ⟨htag, hdata, hchildren, hleaf, -⟩
      exact ⟨_, htag, _, hdata, _, hleaf, _, hchildren, withChildren_eq_self rfl⟩

end Node

namespace WarningKind

def SpelledBy (kind : WarningKind) (json : Json) : Prop :=
  json = .str kind.name ∨ json = .obj [(kind.name, .null)]

theorem ofName?_eq_some_iff (name : String) (kind : WarningKind) :
    ofName? name = some kind ↔ name = kind.name := by
  constructor
  · intro h
    have hname := List.find?_some h
    rw [beq_iff_eq] at hname
    exact hname.symm
  · rintro rfl
    exact ofName?_name kind

theorem ofJson?_eq_some_iff (kind : WarningKind) (json : Json) :
    ofJson? json = some kind ↔ kind.SpelledBy json := by
  rw [SpelledBy]
  rcases json with _ | _ | _ | name
    | _ | (_ | ⟨⟨name, _ | _ | _ | _ | _ | _ | _⟩, _ | ⟨_, _⟩⟩) | _ <;>
    simp [ofJson?, ofName?_eq_some_iff]

end WarningKind

namespace Diagnostic

/-- Neither field has a default. -/
def SpelledBy (diagnostic : Diagnostic) : Json → Prop :=
  Spells [
    .required "kind" diagnostic.kind.SpelledBy,
    .required "message" (· = .str diagnostic.message)]

theorem ofJson?_eq_some_iff (diagnostic : Diagnostic) (json : Json) :
    ofJson? json = some diagnostic ↔ diagnostic.SpelledBy json := by
  rw [SpelledBy, spells_iff fieldNames (by rfl) (by decide), ofJson?, Option.bind_eq_bind,
    Option.bind_eq_some_iff]
  refine exists_congr fun given => and_congr_right fun _ => ?_
  simp only [List.forall_mem_cons, Field.required_name]
  rw [← bind_eq_some_iff_given (WarningKind.ofJson?_eq_some_iff _),
    ← bind_eq_some_iff_given fun _ => str?_eq_some_iff]
  simp only [Option.bind_eq_bind, Option.bind_eq_some_iff, Option.pure_def, Option.some.injEq]
  constructor
  · rintro ⟨_, hk, kind, hkind, _, hm, message, hmessage, rfl⟩
    exact ⟨⟨_, hk, hkind⟩, ⟨_, hm, hmessage⟩, by simp⟩
  · rintro ⟨⟨_, hk, hkind⟩, ⟨_, hm, hmessage⟩, -⟩
    exact ⟨_, hk, _, hkind, _, hm, _, hmessage, rfl⟩

end Diagnostic

namespace Features

def SpelledBy (features : Features) : Json → Prop :=
  Spells [
    ⟨"notranslate", (· = .bool features.notranslate), features.notranslate = false⟩,
    ⟨"nostripparams", (· = .bool features.nostripparams), features.nostripparams = false⟩]

theorem ofJson?_eq_some_iff (features : Features) (json : Json) :
    ofJson? json = some features ↔ features.SpelledBy json := by
  rw [SpelledBy, spells_iff fieldNames (by rfl) (by decide), ofJson?, Option.bind_eq_bind,
    Option.bind_eq_some_iff]
  refine exists_congr fun given => and_congr_right fun _ => ?_
  simp only [List.forall_mem_cons]
  rw [← elim_eq_some_iff_given fun _ => bool?_eq_some_iff,
    ← elim_eq_some_iff_given fun _ => bool?_eq_some_iff]
  simp only [Option.bind_eq_bind, Option.bind_eq_some_iff, Option.pure_def, Option.some.injEq]
  constructor
  · rintro ⟨notranslate, hn, nostripparams, hs, rfl⟩
    exact ⟨hn, hs, by simp⟩
  · rintro ⟨hn, hs, -⟩
    exact ⟨_, hn, _, hs, rfl⟩

end Features

namespace Declaration

/-- Only the name has no default; where there is no comment, null spells it. -/
def SpelledBy (declaration : Declaration) : Json → Prop :=
  Spells [
    .required "name" (· = .str declaration.name),
    ⟨"parameters", SpellsEach (fun name value => value = .str name) declaration.parameters,
      declaration.parameters = []⟩,
    ⟨"comment", (· = declaration.comment.elim .null .str), declaration.comment = none⟩,
    ⟨"features", declaration.features.SpelledBy, declaration.features = {}⟩,
    ⟨"tree", SpellsEach Node.SpelledBy declaration.tree, declaration.tree = []⟩,
    ⟨"diagnostics", SpellsEach Diagnostic.SpelledBy declaration.diagnostics,
      declaration.diagnostics = []⟩]

theorem commentOfJson?_eq_some_iff (comment : Option String) (json : Json) :
    commentOfJson? json = some comment ↔ json = comment.elim .null .str := by
  cases json <;> cases comment <;> simp [commentOfJson?]

theorem ofJson?_eq_some_iff (declaration : Declaration) (json : Json) :
    ofJson? json = some declaration ↔ declaration.SpelledBy json := by
  rw [SpelledBy, spells_iff fieldNames (by rfl) (by decide), ofJson?, Option.bind_eq_bind,
    Option.bind_eq_some_iff]
  refine exists_congr fun given => and_congr_right fun _ => ?_
  simp only [List.forall_mem_cons, Field.required_name]
  rw [← bind_eq_some_iff_given fun _ => str?_eq_some_iff,
    ← elim_eq_some_iff_given (listOfJson?_eq_some_iff fun _ _ _ => str?_eq_some_iff),
    ← elim_eq_some_iff_given (commentOfJson?_eq_some_iff _),
    ← elim_eq_some_iff_given (Features.ofJson?_eq_some_iff _),
    ← elim_eq_some_iff_given (listOfJson?_eq_some_iff fun node _ => Node.ofJson?_eq_some_iff node),
    ← elim_eq_some_iff_given
      (listOfJson?_eq_some_iff fun diagnostic _ => Diagnostic.ofJson?_eq_some_iff diagnostic)]
  simp only [Option.bind_eq_bind, Option.bind_eq_some_iff, Option.pure_def, Option.some.injEq]
  constructor
  · rintro ⟨_, hn, name, hname, parameters, hparameters, comment, hcomment, features, hfeatures,
      tree, htree, diagnostics, hdiagnostics, rfl⟩
    exact ⟨⟨_, hn, hname⟩, hparameters, hcomment, hfeatures, htree, hdiagnostics, by simp⟩
  · rintro ⟨⟨_, hn, hname⟩, hparameters, hcomment, hfeatures, htree, hdiagnostics, -⟩
    exact ⟨_, hn, _, hname, _, hparameters, _, hcomment, _, hfeatures, _, htree, _,
      hdiagnostics, rfl⟩

/-- An array that spells one declaration begins with a string, and one that spells many begins with
a declaration. -/
theorem not_spelledBy_and_spellsEach {declaration : Declaration} {declarations : List Declaration}
    {json : Json} (hone : declaration.SpelledBy json)
    (hmany : SpellsEach SpelledBy declarations json) :
    False := by
  obtain ⟨items, rfl, hitems⟩ := hmany
  cases hitems with
  | nil => exact spells_array_nil_iff.1 hone _ List.mem_cons_self
  | @cons other item _ _ hother _ =>
    have hname : item = .str declaration.name := (spells_array_cons_iff.1 hone).1
    rw [hname] at hother
    cases hother

theorem listOfJson?_many_eq_some_iff (declarations : List Declaration) (json : Json) :
    DocComment.listOfJson? ofJson? json = some declarations ↔
      SpellsEach SpelledBy declarations json :=
  Json.listOfJson?_eq_some_iff (fun declaration _ => ofJson?_eq_some_iff declaration) json

theorem not_isSome_both (json : Json) :
    ¬ ((ofJson? json).isSome = true ∧ (DocComment.listOfJson? ofJson? json).isSome = true) := by
  rintro ⟨hone, hmany⟩
  obtain ⟨declaration, hone⟩ := Option.isSome_iff_exists.1 hone
  obtain ⟨declarations, hmany⟩ := Option.isSome_iff_exists.1 hmany
  exact not_spelledBy_and_spellsEach ((ofJson?_eq_some_iff _ _).1 hone)
    ((listOfJson?_many_eq_some_iff _ _).1 hmany)

/-- The two ways to read a value can be tried in either order. -/
theorem listOfJson?_eq_or (json : Json) :
    listOfJson? json = ((ofJson? json).map ([·])).or (DocComment.listOfJson? ofJson? json) := by
  have hboth := not_isSome_both json
  rw [listOfJson?]
  cases hone : ofJson? json <;> cases hmany : DocComment.listOfJson? ofJson? json
  · rfl
  · rfl
  · rfl
  · rw [hone, hmany] at hboth
    exact absurd ⟨rfl, rfl⟩ hboth

theorem listOfJson?_eq_some_iff (declarations : List Declaration) (json : Json) :
    listOfJson? json = some declarations ↔
      SpellsEach SpelledBy declarations json ∨
        ∃ declaration, declarations = [declaration] ∧ declaration.SpelledBy json := by
  rw [← listOfJson?_many_eq_some_iff, listOfJson?, Option.or_eq_some_iff]
  simp only [← ofJson?_eq_some_iff]
  refine or_congr_right ?_
  constructor
  · rintro ⟨-, hone⟩
    obtain ⟨declaration, hone, hdeclarations⟩ := Option.map_eq_some_iff.1 hone
    exact ⟨declaration, hdeclarations.symm, hone⟩
  · rintro ⟨declaration, rfl, hone⟩
    have hmany := not_and.1 (not_isSome_both json) (by rw [hone]; rfl)
    rw [Option.not_isSome_iff_eq_none] at hmany
    exact ⟨hmany, by rw [hone]; rfl⟩

/-- A text gives declarations exactly if it holds one value and the value gives them. -/
theorem listOfText_eq_ok_iff {text : Text} {declarations : List Declaration} :
    listOfText text = .ok declarations ↔
      ∃ json, Reading.strict.read text = .ok json ∧ listOfJson? json = some declarations := by
  simp only [Reading.read_eq_ok_iff]
  rw [listOfText]
  cases hfirst : Reading.strict.readFirst text with
  | error error => simp
  | ok first =>
    obtain ⟨json, rest⟩ := first
    cases hread : listOfJson? json <;> cases rest <;> simp [hread]

/-- Reading accepts exactly the spellings. A value spells one declaration or a list of them but
never both, and a text that holds it gives that declaration alone or that list. -/
theorem spellings_accepted (json : Json) :
    (∀ declaration, ofJson? json = some declaration ↔ declaration.SpelledBy json) ∧
      ¬ ((ofJson? json).isSome = true ∧ (DocComment.listOfJson? ofJson? json).isSome = true) ∧
      listOfJson? json = ((ofJson? json).map ([·])).or (DocComment.listOfJson? ofJson? json) ∧
      ∀ text, Reading.strict.read text = .ok json → ∀ declarations,
        listOfText text = .ok declarations ↔
          SpellsEach SpelledBy declarations json ∨
            ∃ declaration, declarations = [declaration] ∧ declaration.SpelledBy json := by
  refine ⟨fun declaration => ofJson?_eq_some_iff declaration json, not_isSome_both json,
    listOfJson?_eq_or json, fun text htext declarations => ?_⟩
  rw [listOfText_eq_ok_iff, htext, ← listOfJson?_eq_some_iff]
  simp

/-- A declaration by the order of its fields, up to the tree. In the tree are a node by the names of
its fields, with a member that is ignored, and one by their order. -/
def positional : Json :=
  .arr [.str "f", .arr [.str "x"], .null, .arr [],
    .arr [.obj [("children", .arr [.arr [.str "n"]]), ("line", .bool true), ("tag", .str "b")]]]

def positionalText : Text :=
  "[\"f\", [\"x\"], null, [], ".toList ++
    "[\x7b\"children\": [[\"n\"]], \"line\": true, \"tag\": \"b\"\x7d]]".toList

def boldDeclaration : Declaration where
  name := "f"
  parameters := ["x"]
  tree := [{ tag := "b", children := [{ tag := "n" }] }]

theorem boldDeclaration_spelledBy_positional : boldDeclaration.SpelledBy positional := by
  have hchild : Node.SpelledBy { tag := "n" } (.arr [.str "n"]) := by
    rw [Node.spelledBy_iff]
    exact spells_array_cons_iff.2 ⟨rfl, spells_array_nil_iff.2 (by simp)⟩
  have hnode : Node.SpelledBy { tag := "b", children := [{ tag := "n" }] }
      (.obj [("children", .arr [.arr [.str "n"]]), ("line", .bool true), ("tag", .str "b")]) := by
    rw [Node.spelledBy_iff]
    refine .object ?_
    simp [valuesOf, Field.Given, Field.required, SpellsEach, hchild]
  simp [SpelledBy, positional, boldDeclaration, spells_array_cons_iff, spells_array_nil_iff,
    SpellsEach, Features.SpelledBy, hnode, Field.required]

theorem spellings_accepted_positional :
    Reading.strict.read positionalText = .ok positional ∧ boldDeclaration.SpelledBy positional ∧
      listOfText positionalText = .ok [boldDeclaration] := by
  have hread : Reading.strict.read positionalText = .ok positional := by rfl
  have hspelled := boldDeclaration_spelledBy_positional
  exact ⟨hread, hspelled,
    ((spellings_accepted positional).2.2.2 _ hread _).2 (.inr ⟨_, rfl, hspelled⟩)⟩

end Declaration

end DocComment
