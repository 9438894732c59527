import DocComment.Batch
import DocComment.Proofs.Height
import DocComment.Proofs.ReadBack
import DocComment.Proofs.Spelling

/-!
# Trees that are shown can be read again

A tree is shown as JSON that reads back as the tree. The root adds two levels to what the record
held, but a record spends two as well before its tree begins, so whatever could be read can be read
again.
-/

namespace DocComment

namespace Json

theorem nesting_lt_of_mem_items {item : Json} {items : List Json} (h : item ∈ items) :
    item.nesting < (arr items).nesting := by
  have hitem := nesting_le_nestingEach h
  rw [nesting_arr]
  omega

theorem nesting_lt_of_mem_valuesOf {name : String} {value : Json} {members : List (String × Json)}
    (h : value ∈ valuesOf name members) : value.nesting < (obj members).nesting := by
  have hmem : value ∈ members.map (·.2) := (List.filter_sublist.map _).mem h
  have hvalue := nesting_le_nestingEach hmem
  rw [nesting_obj, nestingMembers_eq]
  omega

/-- What spells a field that has to be given stands inside what spells the structure. -/
theorem exists_nesting_lt_of_spells {fields : List Field} {field : Field} {json : Json}
    (h : Spells fields json) (hfield : field ∈ fields) (hgiven : ¬ field.MayMiss) :
    ∃ value, field.Spelled value ∧ value.nesting < json.nesting := by
  cases h with
  | @object members h =>
    have hvalues := h field hfield
    match hvalue : valuesOf field.name members with
    | [] =>
      rw [hvalue] at hvalues
      exact absurd hvalues hgiven
    | [value] =>
      rw [hvalue] at hvalues
      exact ⟨value, hvalues, nesting_lt_of_mem_valuesOf (hvalue ▸ List.mem_singleton_self value)⟩
    | _ :: _ :: _ =>
      rw [hvalue] at hvalues
      cases hvalues
  | array hfields hspelled hleft =>
    rw [hfields, List.mem_append] at hfield
    rcases hfield with hfield | hfield
    · obtain ⟨item, hitem, h⟩ := exists_of_mem_forall₂ hspelled hfield
      exact ⟨item, h, nesting_lt_of_mem_items hitem⟩
    · exact absurd (hleft field hfield) hgiven

theorem SpellsEach.exists_nesting_lt {α : Type} {spelled : α → Json → Prop} {list : List α}
    {json : Json} (h : SpellsEach spelled list json) {a : α} (ha : a ∈ list) :
    ∃ item, spelled a item ∧ item.nesting < json.nesting := by
  obtain ⟨items, rfl, hitems⟩ := h
  obtain ⟨item, hitem, hspelled⟩ := exists_of_mem_forall₂ hitems ha
  exact ⟨item, hspelled, nesting_lt_of_mem_items hitem⟩

end Json

open Json

/-! ## How high a tree that was read can be -/

namespace Node

theorem heightEach_le_of_spellsEach {nodes : List Node} {json : Json}
    (hnode : ∀ node ∈ nodes, ∀ json, node.SpelledBy json → 2 * node.height ≤ json.nesting + 1)
    (h : SpellsEach SpelledBy nodes json) : 2 * heightEach nodes ≤ json.nesting := by
  have hhalf : heightEach nodes ≤ json.nesting / 2 := by
    rw [heightEach_le_iff]
    intro node hn
    obtain ⟨item, hitem, hnesting⟩ := h.exists_nesting_lt hn
    have hheight := hnode node hn item hitem
    omega
  omega

/-- A level of a tree takes two levels of the value that spells it, the last may do with one. -/
theorem height_le_of_spelledBy (node : Node) (json : Json) (h : node.SpelledBy json) :
    2 * node.height ≤ json.nesting + 1 := by
  induction node using Node.induction generalizing json with
  | _ node ih =>
    rw [spelledBy_iff] at h
    rw [height_eq]
    by_cases hchildren : node.children = []
    · obtain ⟨tag, -, htag⟩ := exists_nesting_lt_of_spells h List.mem_cons_self id
      rw [hchildren, heightEach]
      omega
    · obtain ⟨value, hvalue, hnesting⟩ :=
        exists_nesting_lt_of_spells h (.tail _ (.tail _ List.mem_cons_self)) hchildren
      have heach := heightEach_le_of_spellsEach ih hvalue
      omega

end Node

namespace Declaration

theorem heightEach_lt_of_spelledBy {declaration : Declaration} {json : Json}
    (h : declaration.SpelledBy json) : 2 * Node.heightEach declaration.tree < json.nesting := by
  by_cases htree : declaration.tree = []
  · obtain ⟨name, -, hname⟩ := exists_nesting_lt_of_spells h List.mem_cons_self id
    rw [htree, Node.heightEach]
    omega
  · obtain ⟨value, hvalue, hnesting⟩ :=
      exists_nesting_lt_of_spells h (.tail _ (.tail _ (.tail _ (.tail _ List.mem_cons_self)))) htree
    have heach :=
      Node.heightEach_le_of_spellsEach (fun node _ => node.height_le_of_spelledBy) hvalue
    omega

/-- A tree that was read leaves room for a root. -/
theorem heightEach_le_of_listOfText {text : Text} {declarations : List Declaration}
    (h : listOfText text = .ok declarations) {declaration : Declaration}
    (hd : declaration ∈ declarations) : 2 * Node.heightEach declaration.tree + 1 ≤ 127 := by
  obtain ⟨json, hread, hlist⟩ := listOfText_eq_ok_iff.1 h
  have hdepth : json.nesting ≤ 127 := nesting_le_of_read hread
  rcases (listOfJson?_eq_some_iff declarations json).1 hlist with hmany | ⟨one, rfl, hone⟩
  · obtain ⟨item, hitem, hnesting⟩ := hmany.exists_nesting_lt hd
    have hheight := heightEach_lt_of_spelledBy hitem
    omega
  · rw [List.mem_singleton.1 hd]
    have hheight := heightEach_lt_of_spelledBy hone
    omega

end Declaration

/-! ## Trees as JSON -/

namespace Node

theorem toJsonEach_eq (nodes : List Node) : toJsonEach nodes = nodes.map toJson := by
  induction nodes with
  | nil => rfl
  | cons node rest ih => rw [toJsonEach, ih, List.map_cons]

theorem toJson_eq (node : Node) :
    node.toJson = .obj (("tag", .str node.tag) ::
      (if node.data.isEmpty then [] else [("data", .str node.data)]) ++
      (if node.children.isEmpty then [] else [("children", .arr (node.children.map toJson))]) ++
      (if node.isLeaf then [("leaf", .bool true)] else [])) := by
  obtain ⟨tag, data, children, isLeaf⟩ := node
  rw [toJson, toJsonEach_eq]

theorem isNumberFree_toJson (node : Node) : node.toJson.isNumberFree = true := by
  induction node using Node.induction with
  | _ node ih =>
    have hchildren : allNumberFree (node.children.map toJson) = true := by
      simpa [allNumberFree_iff] using ih
    rw [toJson_eq]
    simp [isNumberFree, membersNumberFree, membersNumberFree_append, apply_ite membersNumberFree,
      hchildren]

theorem nesting_toJson_lt (node : Node) : node.toJson.nesting < 2 * node.height := by
  induction node using Node.induction with
  | _ node ih =>
    have hchildren : nestingEach (node.children.map toJson) ≤ 2 * heightEach node.children - 1 := by
      rw [nestingEach_le_iff]
      intro item hitem
      obtain ⟨child, hc, rfl⟩ := List.mem_map.1 hitem
      have hheight := height_le_heightEach hc
      have hnesting := ih child hc
      omega
    have hmembers : node.toJson.nesting =
        (if node.children.isEmpty then 0 else nestingEach (node.children.map toJson) + 1) + 1 := by
      rw [toJson_eq]
      simp [nestingMembers, nestingMembers_append, apply_ite nestingMembers]
    rw [hmembers, height_eq]
    split
    · omega
    · next hsome =>
      obtain ⟨child, hc⟩ := List.exists_mem_of_ne_nil node.children (by simpa using hsome)
      have hone := one_le_heightEach hc
      omega

theorem spelledBy_toJson (node : Node) : node.SpelledBy node.toJson := by
  induction node using Node.induction with
  | _ node ih =>
    have hchildren : SpellsEach SpelledBy node.children (.arr (node.children.map toJson)) :=
      ⟨_, rfl, by simpa [List.forall₂_map_right_iff, List.forall₂_same] using ih⟩
    rw [spelledBy_iff, toJson_eq]
    refine .object ?_
    simp only [List.forall_mem_cons]
    -- one case for each field; what is left out is at its default
    refine ⟨?_, ?_, ?_, ?_, by simp⟩
    · simp [valuesOf, Field.Given, Field.required, apply_ite (List.filter _)]
    · by_cases hdata : node.data = "" <;>
        simp [valuesOf, Field.Given, apply_ite (List.filter _), hdata]
    · by_cases hnone : node.children = [] <;>
        simp [valuesOf, Field.Given, apply_ite (List.filter _), hnone, hchildren]
    · cases hleaf : node.isLeaf <;>
        simp [valuesOf, Field.Given, apply_ite (List.filter _)]

/-- Reads a text that holds one node. -/
def ofText? (reading : Json.Reading) (text : Text) : Option Node :=
  (reading.read text).toOption.bind ofJson?

/-- What is shown of a tree reads back as the tree, if it is not too high. -/
theorem ofText?_display {reading : Json.Reading} {tree : Node}
    (h : 2 * tree.height ≤ reading.depth + 1) :
    ofText? reading (View.json.display tree) = some tree := by
  have hdepth : tree.toJson.nesting ≤ reading.depth := by
    have hnesting := tree.nesting_toJson_lt
    omega
  have hread : reading.read (View.json.display tree) = .ok tree.toJson :=
    read_write reading .indented tree.isNumberFree_toJson hdepth (List.forall_mem_singleton.2 rfl)
  rw [ofText?, hread]
  exact (ofJson?_eq_some_iff tree tree.toJson).2 tree.spelledBy_toJson

end Node

/-! ## Sections of trees -/

theorem Transform.ofName_name (transform : Transform) : ofName transform.name = .ok transform := by
  obtain ⟨stage, view⟩ := transform
  cases stage <;> cases view <;> rfl

namespace Declaration

variable {text : Text} {declarations : List Declaration}

/-- What the section of a declaration holds where the trees of a stage are shown as JSON. -/
def jsonSection (options : Options) (stage : Stage) (declaration : Declaration) : Text :=
  (declaration.treeAt? .standard options stage).elim [] View.json.display

theorem ofText?_jsonSection (h : listOfText text = .ok declarations) (options : Options)
    (stage : Stage) {declaration : Declaration} (hd : declaration ∈ declarations)
    (hcomment : declaration.comment.isSome = true) {reading : Json.Reading}
    (hdepth : reading.depth = 127) :
    Node.ofText? reading (declaration.jsonSection options stage) =
      some (Node.atStage .standard (declaration.scope options) declaration.tree stage) := by
  obtain ⟨comment, hcomment⟩ := Option.isSome_iff_exists.1 hcomment
  have htree := heightEach_le_of_listOfText h hd
  have hstage :=
    Node.heightEach_atStage_le .standard (declaration.scope options) declaration.tree stage
  rw [jsonSection, treeAt?, hcomment, Option.map_some, Option.elim_some]
  refine Node.ofText?_display ?_
  -- the root and the 63 levels below it are 64, and 2 * 64 ≤ 127 + 1
  rw [Node.height_eq]
  omega

/-- Bold text with a quote, a control and a letter beyond ASCII; the record escapes the first
two. -/
def quotedDeclaration : Declaration where
  name := "f"
  comment := some ""
  tree := [{ tag := "b", children := [{ tag := "plainstd::string", data := "\"\x01é" }] }]

def quoted : Json :=
  .obj [("name", .str "f"), ("comment", .str ""), ("tree",
    .arr [.arr [.str "b", .str "", .arr [.arr [.str "plainstd::string", .str "\"\x01é"]]]])]

def quotedText : Text :=
  "\x7b\"name\": \"f\", \"comment\": \"\", \"tree\": ".toList ++
    "[[\"b\", \"\", [[\"plainstd::string\", \"\\\"\\u0001é\"]]]]\x7d".toList

theorem quotedDeclaration_spelledBy_quoted : quotedDeclaration.SpelledBy quoted := by
  have hchild : Node.SpelledBy { tag := "plainstd::string", data := "\"\x01é" }
      (.arr [.str "plainstd::string", .str "\"\x01é"]) := by
    rw [Node.spelledBy_iff]
    exact spells_array_cons_iff.2 ⟨rfl,
      spells_array_cons_iff.2 ⟨rfl, spells_array_nil_iff.2 (by simp)⟩⟩
  have hnode : Node.SpelledBy
      { tag := "b", children := [{ tag := "plainstd::string", data := "\"\x01é" }] }
      (.arr [.str "b", .str "", .arr [.arr [.str "plainstd::string", .str "\"\x01é"]]]) := by
    rw [Node.spelledBy_iff]
    simp [spells_array_cons_iff, spells_array_nil_iff, Field.required, SpellsEach, hchild]
  refine .object ?_
  simp [valuesOf, Field.Given, Field.required, SpellsEach, quotedDeclaration, hnode]

theorem listOfText_quotedText : listOfText quotedText = .ok [quotedDeclaration] := by
  have hread : Json.Reading.strict.read quotedText = .ok quoted := by rfl
  rw [listOfText_eq_ok_iff]
  exact ⟨quoted, hread,
    (listOfJson?_eq_some_iff _ _).2 (.inr ⟨_, rfl, quotedDeclaration_spelledBy_quoted⟩)⟩

end Declaration

end DocComment
