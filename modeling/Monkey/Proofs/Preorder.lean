import Mathlib.Data.List.Lex
import Monkey.Proofs.Outline

/-!
# Walks and dumps go through a tree in the same order

A place in a tree is given by the numbers of the children on the way to it. The visits of a tree are its
places in pre-order, a node before those below it and those from left to right: they are in the order of
their numbers, and every place of the tree is among them. A walk meets the node of each visit in turn. A
dump has one line for each visit in turn, four spaces further in for each step down, and besides only the
labels of fields; a label ends in a colon and the line of a node never does.
-/

namespace Monkey.Node

/-- The node at a place of a tree. -/
def subtreeAt (node : Node) : List Nat → Option Node
  | [] => some node
  | i :: path => node.children[i]?.bind fun child => child.subtreeAt path

mutual
/-- The places of a tree in pre-order, each with its node. -/
def visits (node : Node) : List (List Nat × Node) := ([], node) :: visitsFrom 0 node.children
termination_by (node.size, 0)
decreasing_by
  rw [size_eq_sizeAll_children]
  exact .left _ _ (Nat.lt_succ_self _)

/-- The places of trees that are children with numbers from `i` on. -/
def visitsFrom (i : Nat) : List Node → List (List Nat × Node)
  | [] => []
  | child :: rest =>
    child.visits.map (fun visit => (i :: visit.1, visit.2)) ++ visitsFrom (i + 1) rest
termination_by nodes => (sizeAll nodes, 1)
decreasing_by
  · rw [sizeAll]
    rcases Nat.eq_zero_or_pos (sizeAll rest) with hzero | hpos
    · rw [hzero]
      exact .right _ (by decide)
    · exact .left _ _ (Nat.lt_add_of_pos_right hpos)
  · rw [sizeAll, size_eq_sizeAll_children]
    exact .left _ _ (by omega)
end

/-! ## Every place is visited once -/

/-- A visit of the trees from number `i` on is one of a child, which has one of these numbers. -/
theorem mem_visitsFrom {i : Nat} {nodes : List Node} {visit : List Nat × Node} :
    visit ∈ visitsFrom i nodes ↔
      ∃ j path child, visit.1 = (i + j) :: path ∧ nodes[j]? = some child ∧
        (path, visit.2) ∈ child.visits := by
  induction nodes generalizing i with
  | nil => simp [visitsFrom]
  | cons first rest ih =>
    rw [visitsFrom, List.mem_append, ih, List.mem_map]
    have hnumber (j : Nat) : i + 1 + j = i + (j + 1) := by omega
    constructor
    · rintro (⟨below, hbelow, rfl⟩ | ⟨j, path, child, hplace, hchild, hpath⟩)
      · exact ⟨0, below.1, first, rfl, rfl, hbelow⟩
      · exact ⟨j + 1, path, child, hnumber j ▸ hplace, hchild, hpath⟩
    · rintro ⟨j, path, child, hplace, hchild, hpath⟩
      cases j with
      | zero =>
        obtain rfl : first = child := by simpa using hchild
        exact .inl ⟨_, hpath, Prod.ext hplace.symm rfl⟩
      | succ j => exact .inr ⟨j, path, child, hnumber j ▸ hplace, hchild, hpath⟩

/-- The visits of a tree are its places with their nodes. -/
theorem mem_visits {node below : Node} {path : List Nat} :
    (path, below) ∈ node.visits ↔ node.subtreeAt path = some below := by
  induction path generalizing node with
  | nil =>
    rw [visits, List.mem_cons, mem_visitsFrom, subtreeAt]
    simp [eq_comm]
  | cons i path ih =>
    rw [visits, List.mem_cons, mem_visitsFrom, subtreeAt]
    cases hchild : node.children[i]? with
    | none => simp [hchild]
    | some child => simp [hchild, ih]

/-- The visits of trees with numbers in order are in order if those of each tree are. -/
theorem sorted_visitsFrom (i : Nat) {nodes : List Node}
    (h : ∀ child ∈ nodes, child.visits.Pairwise fun first second => first.1 < second.1) :
    (visitsFrom i nodes).Pairwise fun first second => first.1 < second.1 := by
  induction nodes generalizing i with
  | nil =>
    rw [visitsFrom]
    exact .nil
  | cons child rest ih =>
    obtain ⟨hchild, hrest⟩ := List.forall_mem_cons.mp h
    rw [visitsFrom, List.pairwise_append]
    refine ⟨List.pairwise_map.mpr (hchild.imp List.cons_lt_cons_self.mpr), ih (i + 1) hrest, ?_⟩
    intro first hfirst second hsecond
    obtain ⟨below, -, rfl⟩ := List.mem_map.mp hfirst
    obtain ⟨j, path, -, hplace, -⟩ := mem_visitsFrom.mp hsecond
    rw [hplace]
    exact List.cons_lt_cons_iff.mpr (.inl (by omega))

/-- The places of a tree are visited in the order of their numbers. -/
theorem sorted_visits (node : Node) :
    node.visits.Pairwise fun first second => first.1 < second.1 := by
  induction node using childInduction with
  | step node ih =>
    rw [visits, List.pairwise_cons]
    refine ⟨fun visit hvisit => ?_, sorted_visitsFrom 0 ih⟩
    obtain ⟨j, path, -, hplace, -⟩ := mem_visitsFrom.mp hvisit
    rw [hplace]
    exact List.nil_lt_cons _ _

/-! ## The order of a walk -/

/-- What is read off the nodes and their depths, for trees that are children. -/
theorem map_visitsFrom {α : Type} (read : Nat → Node → α) (i : Nat) (nodes : List Node) :
    (visitsFrom i nodes).map (fun visit => read visit.1.length visit.2) =
      nodes.flatMap fun child => child.visits.map fun visit => read (visit.1.length + 1) visit.2 := by
  induction nodes generalizing i with
  | nil => rw [visitsFrom, List.map_nil, List.flatMap_nil]
  | cons child rest ih =>
    rw [visitsFrom, List.map_append, ih, List.map_map, List.flatMap_cons]
    rfl

/-- A walk meets the nodes in the order of the visits. -/
theorem map_snd_visits (node : Node) : node.visits.map Prod.snd = node.walk := by
  induction node using childInduction with
  | step node ih =>
    have hbelow := map_visitsFrom (fun _ below => below) 0 node.children
    rw [visits, List.map_cons, hbelow, List.flatMap_congr ih, walk_eq]

/-! ## The order of a dump -/

/-- A line of a dump is that of a node, not the label of a field. -/
def isHeaderLine (line : String) : Bool := line.toList.getLast?.any (· != ':')

/-- What a line is depends on its end. -/
theorem isHeaderLine_append {front last : String} (hlast : last ≠ "") :
    isHeaderLine (front ++ last) = isHeaderLine last := by
  have hchars : last.toList ≠ [] := by simpa using hlast
  rw [isHeaderLine, String.toList_append, List.getLast?_append_of_ne_nil _ hchars]
  rfl

/-- The label of a field is told from the line of a node. -/
theorem isHeaderLine_fieldLabel (indent : Int) (name : String) :
    isHeaderLine (fieldLabel indent name) = false := by
  rw [fieldLabel, isHeaderLine_append (by decide)]
  decide

/-- The line of a node ends in a title, a parenthesis or an angle bracket. -/
theorem isHeaderLine_header (node : Node) : isHeaderLine node.header = true := by
  have htitle : ∀ kind : NodeKind, isHeaderLine kind.title = true := by
    intro kind
    cases kind <;> decide
  have hfields : isHeaderLine (node.kind.title ++ fieldList node.plainFields) = true := by
    unfold fieldList
    split
    · rw [String.append_empty]
      exact htitle _
    · rw [← String.append_assoc, isHeaderLine_append (by decide)]
      decide
  unfold header literalTag
  split_ifs
  · rw [String.append_empty]
    exact hfields
  · rw [← String.append_assoc, isHeaderLine_append (by decide)]
    decide

/-- The line of a node is that of a node wherever it stands. -/
theorem isHeaderLine_indented (indent : Int) (node : Node) :
    isHeaderLine (indentation indent ++ node.header) = true := by
  have hheader := isHeaderLine_header node
  rw [isHeaderLine_append, hheader]
  intro hempty
  rw [hempty] at hheader
  exact absurd hheader (by decide)

/-- The lines of nodes that a field adds are those of its nodes. -/
theorem filter_fieldLines (indent : Int) (field : String × List Node) :
    (fieldLines indent field).filter isHeaderLine =
      field.2.flatMap fun child => (child.dump (indent + 2)).filter isHeaderLine := by
  unfold fieldLines
  split_ifs with hempty
  · rw [hempty]
    rfl
  · rw [List.filter_cons_of_neg (by simp [isHeaderLine_fieldLabel]), List.filter_flatMap]

/-- The lines of nodes in a dump are those of the visits, four spaces further in for each step down. -/
theorem filter_dump (indent : Nat) (node : Node) :
    (node.dump indent).filter isHeaderLine = node.visits.map fun visit =>
      indentation (indent + 2 * visit.1.length : Nat) ++ visit.2.header := by
  induction node using childInduction generalizing indent with
  | step node ih =>
    have hbelow : node.nodeFields.flatMap (fun field =>
          field.2.flatMap fun child => (child.dump (indent + 2 : Nat)).filter isHeaderLine) =
        node.children.flatMap fun child => child.visits.map fun visit =>
          indentation (indent + 2 * (visit.1.length + 1) : Nat) ++ visit.2.header := by
      rw [← List.flatMap_assoc, ← children_eq_flatMap_nodeFields]
      refine List.flatMap_congr fun child hchild => ?_
      rw [ih child hchild (indent + 2)]
      refine List.map_congr_left fun visit _ => ?_
      congr 3
      omega
    have hread := map_visitsFrom
      (fun depth below => indentation (indent + 2 * depth : Nat) ++ below.header) 0 node.children
    rw [dump_eq, List.filter_cons_of_pos (isHeaderLine_indented _ _), List.filter_flatMap, visits,
      List.map_cons, hread, ← hbelow]
    simp only [filter_fieldLines]
    rfl

/-- A walk is the recursive pre-order of a tree, and a dump goes through the tree in the same order.

The visits are the places of the tree, each with its node, in the order of the child numbers, so each of them
occurs once. A dump puts the fields of a node one after the other, and the nodes of these are those below the
node from left to right; so its lines of nodes, which are known by their text alone, are those of the visits. -/
theorem walk_and_dump_in_preorder (node : Node) :
    node.walk = node :: node.children.flatMap walk ∧
      node.visits.map Prod.snd = node.walk ∧
      (∀ path below, (path, below) ∈ node.visits ↔ node.subtreeAt path = some below) ∧
      (node.visits.Pairwise fun first second => first.1 < second.1) ∧
      (∀ indent, node.dump indent =
        (indentation indent ++ node.header) :: node.nodeFields.flatMap (fieldLines indent)) ∧
      node.nodeFields.flatMap Prod.snd = node.children ∧
      (node.dump 0).filter isHeaderLine = node.visits.map fun visit =>
        String.ofList (List.replicate (4 * visit.1.length) ' ') ++ visit.2.header := by
  refine ⟨walk_eq node, map_snd_visits node, fun _ _ => mem_visits, sorted_visits node,
    fun indent => dump_eq indent node, (children_eq_flatMap_nodeFields node).symm, ?_⟩
  refine (filter_dump 0 node).trans (List.map_congr_left fun visit _ => ?_)
  rw [indentation]
  congr 3
  omega

end Monkey.Node
