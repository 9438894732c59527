import DocComment.Json
import DocComment.Node

/-!
# Nodes as JSON

Written, a field equal to its default is left out; read, an object or an array gives the fields, and
only the tag is required.
-/

namespace DocComment.Node

def fieldNames : List String := ["tag", "data", "children", "leaf"]

mutual

def toJson : Node → Json
  | ⟨tag, data, children, isLeaf⟩ =>
    .obj <|
      ("tag", .str tag) ::
        (if data.isEmpty then [] else [("data", .str data)]) ++
        (if children.isEmpty then [] else [("children", .arr (toJsonEach children))]) ++
        (if isLeaf then [("leaf", .bool true)] else [])

def toJsonEach : List Node → List Json
  | [] => []
  | node :: rest => toJson node :: toJsonEach rest

end

def ofJson? (json : Json) : Option Node :=
  match _hg : json.fields fieldNames with
  | none => none
  | some given => do
    let tag ← (← given "tag").str?
    let data ← (given "data").elim (some "") Json.str?
    let isLeaf ← (given "leaf").elim (some false) Json.bool?
    match _hc : given "children" with
    | none => pure { tag, data, isLeaf }
    | some (.arr items) =>
      let children ← items.attach.mapM fun ⟨item, _⟩ => ofJson? item
      pure { tag, data, children, isLeaf }
    | some _ => none
termination_by sizeOf json
decreasing_by
  rename_i hm
  have := Json.sizeOf_lt_of_fields _hg _hc
  have := List.sizeOf_lt_of_mem hm
  simp at *
  omega

end DocComment.Node
