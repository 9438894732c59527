import Mathlib.Data.List.InsertIdx
import DocComment.Proofs.NormalForm

/-!
# Shifting markers in place

The shift can be done by a walk along the children of each node that settles them where they stand
and puts markers between them, so that the list grows while the walk is on its way. It visits each
child once and no marker it has put there, and it ends with what the shift is by its description:
one marker behind each node whose last descendants end in one, and none at the end of any node below
the root.
-/

namespace DocComment.Node

/-! ## What the shift comes to -/

mutual

/-- Whether the last child is a marker or, in turn, ends in one. -/
def isOpen : Node → Bool
  | ⟨_, _, children, _⟩ => endsOpen children

/-- Whether the last of the nodes is a marker or open. -/
def endsOpen : List Node → Bool
  | [] => false
  | [last] => last.isMarker || isOpen last
  | _ :: next :: rest => endsOpen (next :: rest)

end

mutual

/-- A node below the root with one marker behind each open node inside it, and no marker at any
end. -/
def surface : Node → Node
  | ⟨tag, data, children, isLeaf⟩ => ⟨tag, data, (surfaceEach children).rdropWhile isMarker, isLeaf⟩

/-- The nodes with one marker behind each open one. -/
def surfaceEach : List Node → List Node
  | [] => []
  | node :: rest => surface node :: ((if node.isOpen then [marker] else []) ++ surfaceEach rest)

end

theorem isOpen_eq (node : Node) : node.isOpen = endsOpen node.children := by
  obtain ⟨tag, data, children, isLeaf⟩ := node
  rw [isOpen]

theorem endsOpen_concat (nodes : List Node) (last : Node) :
    endsOpen (nodes ++ [last]) = (last.isMarker || last.isOpen) := by
  induction nodes with
  | nil => rw [List.nil_append, endsOpen]
  | cons node rest ih =>
    cases rest with
    | nil => exact ih
    | cons next rest => exact ih

/-- A node is open exactly if it has a last child, and that is a marker or open. -/
theorem isOpen_iff (node : Node) :
    node.isOpen = true ↔
      ∃ last, node.children.getLast? = some last ∧ (last.isMarker = true ∨ last.isOpen = true) := by
  rw [isOpen_eq]
  rcases List.eq_nil_or_concat node.children with h | ⟨front, last, h⟩
  · simp [h, endsOpen]
  · simp [h, endsOpen_concat]

theorem endsInMarker_concat (nodes : List Node) (last : Node) :
    endsInMarker (nodes ++ [last]) = last.isMarker := by
  simp [endsInMarker]

/-- Settled nodes end in a marker exactly if the last of them was a marker or has given one up. -/
theorem endsInMarker_settleAll_concat (nodes : List Node) (last : Node) :
    endsInMarker (settleAll (nodes ++ [last])) = (last.isMarker || (settle last).2) := by
  rw [settleAll_append, settleAll_cons, settleAll_nil, List.append_nil, ← isMarker_settle last]
  cases (settle last).2 with
  | false => simpa using endsInMarker_concat (settleAll nodes) (settle last).1
  | true =>
    simpa using endsInMarker_concat (settleAll nodes ++ [(settle last).1]) marker

/-- A node gives markers up exactly if it is open. -/
theorem settle_snd (node : Node) : (settle node).2 = node.isOpen := by
  induction node using Node.induction with
  | _ node ih =>
    rw [isOpen_eq, settle_eq]
    rcases List.eq_nil_or_concat node.children with h | ⟨front, last, h⟩
    · simp [h, endsOpen, endsInMarker]
    · rw [List.concat_eq_append] at h
      have hlast : last ∈ node.children := by simp [h]
      simp only [h, endsOpen_concat, endsInMarker_settleAll_concat, ih last hlast]

theorem settleAll_eq_surfaceEach {nodes : List Node}
    (h : ∀ node ∈ nodes, (settle node).1 = surface node) : settleAll nodes = surfaceEach nodes := by
  induction nodes with
  | nil => rw [settleAll_nil, surfaceEach]
  | cons node rest ih =>
    obtain ⟨hnode, hrest⟩ := List.forall_mem_cons.1 h
    rw [settleAll_cons, surfaceEach, hnode, settle_snd, ih hrest, List.cons_append]

theorem settle_fst (node : Node) : (settle node).1 = surface node := by
  induction node using Node.induction with
  | _ node ih =>
    obtain ⟨tag, data, children, isLeaf⟩ := node
    rw [settle_eq, surface, settleAll_eq_surfaceEach ih]

/-! ## The walk -/

/-- Takes markers off the end, one after the other, and counts them. -/
def popMarkers (nodes : List Node) (removed : Nat) : List Node × Nat :=
  if endsInMarker nodes then popMarkers nodes.dropLast (removed + 1) else (nodes, removed)
termination_by nodes.length
decreasing_by
  cases nodes with
  | nil => contradiction
  | cons node rest => simp

theorem insertIdx_append_cons {α : Type} (front rest : List α) (a b : α) :
    (front ++ a :: rest).insertIdx (front.length + 1) b = front ++ a :: b :: rest := by
  induction front with
  | nil => rfl
  | cons c front ih => exact congrArg (c :: ·) ih

/-- What stands behind an inserted member stood there before. -/
theorem drop_insertIdx {α : Type} {l : List α} {n : Nat} (h : n ≤ l.length) (a : α) :
    (l.insertIdx n a).drop (n + 1) = l.drop n := by
  induction l generalizing n with
  | nil =>
    obtain rfl : n = 0 := by simpa using h
    rfl
  | cons b rest ih =>
    cases n with
    | zero => rfl
    | succ n => exact ih (by simpa using h)

theorem sizeOf_drop {nodes : List Node} {position : Nat} (h : position < nodes.length) :
    sizeOf (nodes.drop position) =
      1 + sizeOf nodes[position] + sizeOf (nodes.drop (position + 1)) := by
  rw [List.drop_eq_getElem_cons h, List.cons.sizeOf_spec]

/-- What a walk along the children of a node leaves of them, and the nodes it has visited. -/
structure Walk where
  children : List Node
  visited : List Node

mutual

/-- Settles a node where it stands, and counts the markers taken off its end; none are taken off the
root, at depth zero. -/
def settleInPlace (depth : Nat) (node : Node) : Node × Nat :=
  let children := (walk depth node.children 0).children
  if depth = 0 then ({ node with children := children }, 0)
  else
    let popped := popMarkers children 0
    ({ node with children := popped.1 }, popped.2)
termination_by sizeOf node
decreasing_by
  obtain ⟨tag, data, children, isLeaf⟩ := node
  simp only [List.drop_zero, Node.mk.sizeOf_spec]
  omega

/-- Walks along the children of a node from a position on. Each child is settled in its place, and
if it has given markers up, one is put behind it and passed over. -/
def walk (depth : Nat) (children : List Node) (position : Nat) : Walk :=
  if h : position < children.length then
    let child := children[position]
    let settled := settleInPlace (depth + 1) child
    let replaced := children.set position settled.1
    let onward :=
      if settled.2 > 0 then walk depth (replaced.insertIdx (position + 1) marker) (position + 2)
      else walk depth replaced (position + 1)
    { onward with visited := child :: onward.visited }
  else { children, visited := [] }
termination_by sizeOf (children.drop position)
decreasing_by
  · rw [sizeOf_drop h]
    omega
  · rw [drop_insertIdx (by rw [List.length_set]; omega), List.drop_set_of_lt (Nat.lt_add_one _),
      sizeOf_drop h]
    omega
  · rw [List.drop_set_of_lt (Nat.lt_add_one _), sizeOf_drop h]
    omega

end

theorem popMarkers_eq (nodes : List Node) (removed : Nat) :
    popMarkers nodes removed =
      (nodes.rdropWhile isMarker, removed + (nodes.rtakeWhile isMarker).length) := by
  fun_induction popMarkers nodes removed with
  | case1 nodes removed hend ih =>
    rcases List.eq_nil_or_concat nodes with rfl | ⟨front, last, rfl⟩
    · contradiction
    · rw [List.concat_eq_append] at hend ih ⊢
      rw [endsInMarker_concat] at hend
      rw [ih, List.dropLast_concat, List.rdropWhile_concat, List.rtakeWhile_concat, if_pos hend,
        if_pos hend, List.length_append, List.length_singleton]
      congr 1
      omega
  | case2 nodes removed hend =>
    rcases List.eq_nil_or_concat nodes with rfl | ⟨front, last, rfl⟩
    · rfl
    · rw [List.concat_eq_append] at hend ⊢
      rw [endsInMarker_concat] at hend
      rw [List.rdropWhile_concat, List.rtakeWhile_concat, if_neg hend, if_neg hend]
      rfl

theorem length_rtakeWhile_pos_iff (nodes : List Node) :
    0 < (nodes.rtakeWhile isMarker).length ↔ endsInMarker nodes = true := by
  rcases List.eq_nil_or_concat nodes with rfl | ⟨front, last, rfl⟩
  · simp [endsInMarker]
  · rw [List.concat_eq_append, endsInMarker_concat, List.rtakeWhile_concat]
    cases last.isMarker <;> simp

/-- The number of markers that a node gives up. -/
def markersGivenUp (node : Node) : Nat := ((settleAll node.children).rtakeWhile isMarker).length

theorem markersGivenUp_pos_iff (node : Node) :
    0 < node.markersGivenUp ↔ (settle node).2 = true := by
  rw [markersGivenUp, length_rtakeWhile_pos_iff, settle_eq]

section Walk

variable {depth : Nat}

/-- The children before the position are settled, those behind it are as they were. -/
theorem walk_append {rest : List Node}
    (h : ∀ child ∈ rest, settleInPlace (depth + 1) child = ((settle child).1, child.markersGivenUp))
    (front : List Node) :
    walk depth (front ++ rest) front.length =
      { children := front ++ settleAll rest, visited := rest } := by
  induction rest generalizing front with
  | nil => rw [walk, dif_neg (by simp)]; rfl
  | cons child rest ih =>
    obtain ⟨hchild, hrest⟩ := List.forall_mem_cons.1 h
    have hlt : front.length < (front ++ child :: rest).length := by simp
    have hget : (front ++ child :: rest)[front.length] = child := by simp
    have hset : (front ++ child :: rest).set front.length (settle child).1 =
        front ++ (settle child).1 :: rest := by simp
    rw [walk, dif_pos hlt]
    simp only [hget, hchild, hset, gt_iff_lt, markersGivenUp_pos_iff, insertIdx_append_cons]
    have hmore := ih hrest (front ++ [(settle child).1, marker])
    have hnone := ih hrest (front ++ [(settle child).1])
    simp only [List.append_assoc, List.cons_append, List.nil_append, List.length_append,
      List.length_cons, List.length_nil] at hmore hnone
    rw [hmore, hnone, settleAll_cons]
    cases (settle child).2 <;> rfl

theorem walk_zero {nodes : List Node}
    (h : ∀ child ∈ nodes, settleInPlace (depth + 1) child =
      ((settle child).1, child.markersGivenUp)) :
    walk depth nodes 0 = { children := settleAll nodes, visited := nodes } :=
  walk_append h []

theorem settleInPlace_below (depth : Nat) (node : Node) :
    settleInPlace (depth + 1) node = ((settle node).1, node.markersGivenUp) := by
  induction node using Node.induction generalizing depth with
  | _ node ih =>
    rw [settleInPlace, walk_zero fun child hc => ih child hc (depth + 1)]
    simp only [Nat.add_one_ne_zero, if_false, popMarkers_eq, Nat.zero_add]
    rw [settle_eq]
    rfl

theorem walk_eq (depth : Nat) (nodes : List Node) :
    walk depth nodes 0 = { children := settleAll nodes, visited := nodes } :=
  walk_zero fun child _ => settleInPlace_below depth child

theorem settleInPlace_root (root : Node) : settleInPlace 0 root = (shiftMarkers root, 0) := by
  rw [settleInPlace, walk_eq, if_pos rfl, shiftMarkers]

end Walk

/-! ## The number of nodes -/

mutual

/-- The number of nodes, the node itself included. -/
def size : Node → Nat
  | ⟨_, _, children, _⟩ => sizeEach children + 1

def sizeEach : List Node → Nat
  | [] => 0
  | node :: rest => size node + sizeEach rest

end

theorem size_eq (node : Node) : node.size = sizeEach node.children + 1 := by
  obtain ⟨tag, data, children, isLeaf⟩ := node
  rw [size]

theorem sizeEach_append (nodes more : List Node) :
    sizeEach (nodes ++ more) = sizeEach nodes + sizeEach more := by
  induction nodes with
  | nil => simp [sizeEach]
  | cons node rest ih => rw [List.cons_append, sizeEach, sizeEach, ih, Nat.add_assoc]

/-- Each of the markers that a node gives up counts for one of its nodes at least. -/
theorem length_le_sizeEach (nodes : List Node) : nodes.length ≤ sizeEach nodes := by
  induction nodes with
  | nil => simp
  | cons node rest ih =>
    rw [List.length_cons, sizeEach, size_eq]
    omega

theorem sizeEach_settleAll_le {nodes : List Node}
    (h : ∀ node ∈ nodes, (settle node).1.size + (if (settle node).2 then 1 else 0) ≤ node.size) :
    sizeEach (settleAll nodes) ≤ sizeEach nodes := by
  induction nodes with
  | nil => simp
  | cons node rest ih =>
    obtain ⟨hnode, hrest⟩ := List.forall_mem_cons.1 h
    have hbehind : sizeEach (if (settle node).2 then [marker] else []) =
        if (settle node).2 then 1 else 0 := by
      cases (settle node).2 <;> rfl
    have hle := ih hrest
    rw [settleAll_cons, List.cons_append, sizeEach, sizeEach_append, sizeEach, hbehind]
    omega

/-- The marker put behind a node stands for one at least that was inside it. -/
theorem size_settle_le (node : Node) :
    (settle node).1.size + (if (settle node).2 then 1 else 0) ≤ node.size := by
  induction node using Node.induction with
  | _ node ih =>
    have hchildren := sizeEach_settleAll_le ih
    have hparts := sizeEach_append ((settleAll node.children).rdropWhile isMarker)
      ((settleAll node.children).rtakeWhile isMarker)
    rw [List.rdropWhile_append_rtakeWhile] at hparts
    have hremoved := length_le_sizeEach ((settleAll node.children).rtakeWhile isMarker)
    have hpos := markersGivenUp_pos_iff node
    rw [markersGivenUp] at hpos
    rw [size_eq, size_eq, settle_children]
    split
    next hs =>
      have := hpos.2 hs
      omega
    next => omega

/-! ## The exact effect -/

/-- Shifting markers puts one behind each open node and takes all from the end of each node below
the root. The walk in place comes to this and ends, having visited each child of a node once, in
order, and nothing else; and no nodes are gained. -/
theorem shiftMarkers_exact (root : Node) :
    shiftMarkers root = { root with children := surfaceEach root.children } ∧
      settleInPlace 0 root = (shiftMarkers root, 0) ∧
      (∀ (depth : Nat) (node : Node), walk depth node.children 0 =
        { children := surfaceEach node.children, visited := node.children }) ∧
      (shiftMarkers root).size ≤ root.size := by
  have hsurface : ∀ nodes, settleAll nodes = surfaceEach nodes := fun nodes =>
    settleAll_eq_surfaceEach fun node _ => settle_fst node
  refine ⟨?_, settleInPlace_root root, ?_, ?_⟩
  · rw [shiftMarkers, hsurface]
  · intro depth node
    rw [walk_eq, hsurface]
  · rw [size_eq, size_eq, shiftMarkers, Nat.add_le_add_iff_right]
    exact sizeEach_settleAll_le fun node _ => size_settle_le node

end DocComment.Node
