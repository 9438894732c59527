import DocComment.Node

/-!
# Conditions on all nodes of a tree

A condition holds everywhere in a tree if it holds of the root and everywhere in each child. Trees
are finite, so what passes from the children of every node to the node holds of every node.
-/

namespace DocComment.Node

/-- What passes from all children of a node to the node holds of every node. -/
@[elab_as_elim]
theorem induction {motive : Node → Prop}
    (node : ∀ node, (∀ child ∈ node.children, motive child) → motive node) : ∀ n, motive n
  | ⟨tag, data, children, isLeaf⟩ =>
    node ⟨tag, data, children, isLeaf⟩ fun child _hc => induction node child
termination_by n => sizeOf n
decreasing_by
  have := List.sizeOf_lt_of_mem _hc
  simp only [Node.mk.sizeOf_spec]
  simp only at this
  omega

/-- The condition holds of a node and of every node below it. -/
inductive Everywhere (p : Node → Prop) : Node → Prop
  | intro {node : Node} (holds : p node) (inside : ∀ child ∈ node.children, Everywhere p child) :
      Everywhere p node

namespace Everywhere

variable {p q : Node → Prop} {node : Node}

theorem holds (h : Everywhere p node) : p node := by
  cases h with
  | intro holds inside => exact holds

theorem inside (h : Everywhere p node) : ∀ child ∈ node.children, Everywhere p child := by
  cases h with
  | intro holds inside => exact inside

/-- A weaker condition holds wherever the stronger one does. -/
theorem mono (himp : ∀ node, p node → q node) (h : Everywhere p node) : Everywhere q node := by
  induction h with
  | intro holds inside ih => exact .intro (himp _ holds) ih

theorem and (hp : Everywhere p node) (hq : Everywhere q node) :
    Everywhere (fun node => p node ∧ q node) node := by
  induction hp with
  | intro holds inside ih =>
    exact .intro ⟨holds, hq.holds⟩ fun child hc => ih child hc (hq.inside child hc)

/-- What holds everywhere in a tree holds everywhere in each of its subtrees. -/
theorem subtrees (h : Everywhere p node) : Everywhere (Everywhere p) node := by
  induction h with
  | intro holds inside ih => exact .intro (.intro holds inside) ih

mutual

/-- A condition that can be decided at a node can be decided everywhere in a tree. -/
def decide (p : Node → Prop) [DecidablePred p] : (node : Node) → Decidable (Everywhere p node)
  | ⟨tag, data, children, isLeaf⟩ =>
    if hp : p ⟨tag, data, children, isLeaf⟩ then
      match decideEach p children with
      | isTrue hc => isTrue (.intro hp hc)
      | isFalse hc => isFalse fun h => hc h.inside
    else isFalse fun h => hp h.holds

def decideEach (p : Node → Prop) [DecidablePred p] :
    (nodes : List Node) → Decidable (∀ node ∈ nodes, Everywhere p node)
  | [] => isTrue (by simp)
  | node :: nodes =>
    match decide p node with
    | isTrue h =>
      match decideEach p nodes with
      | isTrue hs => isTrue (List.forall_mem_cons.2 ⟨h, hs⟩)
      | isFalse hs => isFalse fun hall => hs (List.forall_mem_cons.1 hall).2
    | isFalse h => isFalse fun hall => h (List.forall_mem_cons.1 hall).1

end

instance [DecidablePred p] : DecidablePred (Everywhere p) := decide p

end Everywhere

end DocComment.Node
