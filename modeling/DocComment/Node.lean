/-!
# Comment trees

A node carries a command or markup name, literal data and children. Text runs and blank-line markers
are nodes with fixed names; every other name is a command, and a command is found by its base, which
leaves off the qualifiers of `param` and `code`.
-/

namespace DocComment

structure Node where
  tag : String
  data : String := ""
  children : List Node := []
  isLeaf : Bool := false
  deriving Repr, Inhabited

namespace Node

theorem withChildren_eq_self {node : Node} {children : List Node} (h : children = node.children) :
    { node with children := children } = node := by
  subst h
  cases node
  rfl

mutual

def decEq : (a b : Node) → Decidable (a = b)
  | ⟨tag, data, children, isLeaf⟩, ⟨tag', data', children', isLeaf'⟩ =>
    if h : tag = tag' ∧ data = data' ∧ isLeaf = isLeaf' then
      match decEqList children children' with
      | isTrue hc => isTrue (by simp [h, hc])
      | isFalse hc => isFalse (by simp [hc])
    else isFalse (by simpa [and_left_comm] using fun ht hd _ hl => h ⟨ht, hd, hl⟩)

def decEqList : (a b : List Node) → Decidable (a = b)
  | [], [] => isTrue rfl
  | [], _ :: _ => isFalse (by simp)
  | _ :: _, [] => isFalse (by simp)
  | a :: as, b :: bs =>
    match decEq a b with
    | isTrue h =>
      match decEqList as bs with
      | isTrue hs => isTrue (by simp [h, hs])
      | isFalse hs => isFalse (by simp [hs])
    | isFalse h => isFalse (by simp [h])

end

instance : DecidableEq Node := decEq

/-- The name of blank-line markers. -/
def markerTag : String := "plainstd::endl"

/-- The name of text runs. -/
def textTag : String := "plainstd::string"

def marker : Node := { tag := markerTag }

/-- A run of plain text. -/
def text (data : String) : Node := { tag := textTag, data := data, isLeaf := true }

/-- The node put around the top level of a tree. -/
def root (children : List Node) : Node := { tag := "root", children := children }

def isMarker (node : Node) : Bool := node.tag == markerTag

@[simp] theorem isMarker_marker : marker.isMarker = true := rfl

/-- What a node names by its first child, such as the parameter of `param`. -/
def subject? (node : Node) : Option String := node.children.head?.map Node.data

end Node

/-- A command without its qualifier: `param[in]` is `param` and `code{.py}` is `code`, and every
other tag is its own base. -/
def baseCommand (tag : String) : String :=
  if "param".toList <+: tag.toList then "param"
  else if "code".toList <+: tag.toList then "code"
  else tag

@[simp] theorem baseCommand_param : baseCommand "param" = "param" := rfl

@[simp] theorem baseCommand_code : baseCommand "code" = "code" := rfl

@[simp] theorem baseCommand_baseCommand (tag : String) :
    baseCommand (baseCommand tag) = baseCommand tag := by
  by_cases hp : "param".toList <+: tag.toList
  · rw [show baseCommand tag = "param" from if_pos hp, baseCommand_param]
  · by_cases hc : "code".toList <+: tag.toList
    · rw [show baseCommand tag = "code" from (if_neg hp).trans (if_pos hc), baseCommand_code]
    · rw [show baseCommand tag = tag from (if_neg hp).trans (if_neg hc)]
      exact (if_neg hp).trans (if_neg hc)

end DocComment
