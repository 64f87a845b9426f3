import Mathlib
import Monkey.Proofs.Outline

/-!
# The dump of a part is a part of the dump

Indentation says how far in the first line of a dump stands, and nothing else depends on it: two spaces in
front of every line are one step more of it. The members of a list are dumped where the list is, and the
trees below a node two steps further in than the node. So a dump has the dump of each part of the value in
one piece, only further in.

This needs an indentation that is not negative. The label of a field is written after two more spaces
whatever the indentation of its node is, and the nodes of the field are not.
-/

namespace Monkey

/-- A step of indentation is two spaces. -/
theorem indentation_natCast (n : Nat) : indentation n = String.ofList (List.replicate (2 * n) ' ') := rfl

/-- Steps of indentation add up. -/
theorem indentation_add (i j : Nat) : indentation (i + j) = indentation j ++ indentation i := by
  have hspaces : 2 * (i + j) = 2 * j + 2 * i := by omega
  rw [← Int.natCast_add, indentation_natCast, hspaces, List.replicate_add, String.ofList_append]
  rfl

/-- A line with more indentation has the further spaces in front. -/
theorem indentation_add_append (i j : Nat) (text : String) :
    indentation (i + j) ++ text = indentation j ++ (indentation i ++ text) := by
  rw [indentation_add, String.append_assoc]

/-- What is put together from parts has each of them in one piece. -/
theorem infix_flatMap {α β : Type} {x : α} {xs : List α} (h : x ∈ xs) (f : α → List β) :
    f x <:+: xs.flatMap f := by
  rw [List.flatMap_def]
  exact List.infix_of_mem_flatten (List.mem_map_of_mem h)

namespace Node

theorem fieldLabel_add (i j : Nat) (name : String) :
    fieldLabel (i + j) name = indentation j ++ fieldLabel i name := by
  simp only [fieldLabel, String.append_assoc]
  exact indentation_add_append i j _

/-- What a field adds is indented as its nodes are. -/
theorem fieldLines_add {field : String × List Node} (i j : Nat)
    (h : ∀ child ∈ field.2, child.dump ((i + 2 : Nat) + j) =
      (child.dump (i + 2 : Nat)).map (indentation j ++ ·)) :
    fieldLines (i + j) field = (fieldLines i field).map (indentation j ++ ·) := by
  have hnodes : field.2.flatMap (dump (i + j + 2)) =
      (field.2.flatMap (dump (i + 2))).map (indentation j ++ ·) := by
    have hindent : (i + j + 2 : Int) = (i + 2 : Nat) + j := by omega
    rw [List.map_flatMap, hindent]
    exact List.flatMap_congr h
  unfold fieldLines
  split_ifs with hempty
  · rfl
  · rw [List.map_cons, fieldLabel_add, hnodes]

/-- A tree that is dumped further in has the further spaces in front of every line. -/
theorem dump_add (node : Node) (i j : Nat) :
    node.dump (i + j) = (node.dump i).map (indentation j ++ ·) := by
  induction node using childInduction generalizing i with
  | step node ih =>
    rw [dump_eq, dump_eq, List.map_cons, List.map_flatMap, indentation_add_append]
    congr 1
    refine List.flatMap_congr fun field hfield => fieldLines_add i j fun child hchild => ?_
    exact ih child (mem_children_of_mem_nodeFields hfield hchild) (i + 2)

/-- The dump of a tree below the root stands in one piece in the dump of the whole. -/
theorem dump_infix_of_mem_children {node child : Node} (h : child ∈ node.children) (indent : Int) :
    child.dump (indent + 2) <:+: node.dump indent := by
  rw [children_eq_flatMap_nodeFields] at h
  obtain ⟨⟨name, nodes⟩, hfield, hchild⟩ := List.mem_flatMap.mp h
  have hnodes : child.dump (indent + 2) <:+: nodes.flatMap (dump (indent + 2)) :=
    infix_flatMap hchild (dump (indent + 2))
  have hlines : nodes.flatMap (dump (indent + 2)) <:+: fieldLines indent (name, nodes) := by
    rw [fieldLines, if_neg (List.ne_nil_of_mem hchild)]
    exact List.infix_cons (List.infix_refl _)
  rw [dump_eq indent node]
  exact (hnodes.trans hlines).trans (List.infix_cons (infix_flatMap hfield (fieldLines indent)))

end Node

namespace DumpValue

theorem dumpAll_eq_flatMap (indent : Int) (values : List DumpValue) :
    dumpAll indent values = values.flatMap (dump indent) := by
  induction values with
  | nil => rfl
  | cons value rest ih => rw [dumpAll, ih, List.flatMap_cons]

mutual
/-- A value that is dumped further in has the further spaces in front of every line. -/
theorem dump_add (i j : Nat) : ∀ value : DumpValue,
    value.dump (i + j) = (value.dump i).map (indentation j ++ ·)
  | node tree => by
    rw [dump, dump]
    exact tree.dump_add i j
  | list values => by
    rw [dump, dump]
    exact dumpAll_add i j values
  | int _ | text _ | bool _ | nothing | other _ => by
    simp only [dump, List.map_cons, List.map_nil, indentation_add_append]

theorem dumpAll_add (i j : Nat) : ∀ values : List DumpValue,
    dumpAll (i + j) values = (dumpAll i values).map (indentation j ++ ·)
  | [] => rfl
  | value :: rest => by
    rw [dumpAll, dumpAll, List.map_append, dump_add i j value, dumpAll_add i j rest]
end

/-- A value is a part of another one, and stands so many steps further in: the members of a list stand
where the list does, and the trees below a node two steps further in than the node. -/
inductive PartAt : Nat → DumpValue → DumpValue → Prop
  | refl (value : DumpValue) : PartAt 0 value value
  | member {depth : Nat} {part value : DumpValue} {values : List DumpValue} :
      value ∈ values → PartAt depth part value → PartAt depth part (list values)
  | child {depth : Nat} {part : DumpValue} {tree below : Node} :
      below ∈ tree.children → PartAt depth part (node below) → PartAt (depth + 2) part (node tree)

/-- The dump of a part stands in one piece in the dump of the whole. -/
theorem PartAt.dump_isInfix {depth : Nat} {part value : DumpValue} (h : PartAt depth part value)
    (indent : Int) : part.dump (indent + depth) <:+: value.dump indent := by
  induction h generalizing indent with
  | refl value => simp
  | member hmember _ ih =>
    rw [dump, dumpAll_eq_flatMap]
    exact (ih indent).trans (infix_flatMap hmember (dump indent))
  | @child depth part tree below hbelow _ ih =>
    have hdepth : (indent + 2 + depth : Int) = indent + (depth + 2 : Nat) := by omega
    have hinside := ih (indent + 2)
    rw [hdepth] at hinside
    exact hinside.trans (Node.dump_infix_of_mem_children hbelow indent)

/-- Indentation is uniform. With `j` steps more, every line of a dump has `2 * j` spaces more in front, and
the dump of a part stands in the dump of the whole with as many more as the part stands further in. -/
theorem dump_indents_uniformly (value : DumpValue) (i j : Nat) :
    value.dump (i + j) =
        (value.dump i).map (fun line => String.ofList (List.replicate (2 * j) ' ') ++ line) ∧
      ∀ depth part, PartAt depth part value →
        (part.dump 0).map (fun line => String.ofList (List.replicate (2 * (i + depth)) ' ') ++ line) <:+:
          value.dump i := by
  refine ⟨dump_add i j value, fun depth part hpart => ?_⟩
  have hown := dump_add 0 (i + depth) part
  rw [Int.natCast_zero, Int.zero_add, indentation_natCast] at hown
  rw [← hown]
  exact hpart.dump_isInfix i

/-- A name in a statement in a list in a list. -/
def listedName : DumpValue :=
  .list [.nothing, .list [.node (.expressionStatement ⟨.ident, "a"⟩ (.identifier ⟨.ident, "a"⟩ "a"))]]

set_option maxRecDepth 20000 in
/-- One step further in every line of it has two spaces more, and the line of the name stands two steps
further in than the lists. -/
theorem dump_listedName :
    listedName.dump (1 + 1) =
        ["    None", "    ExpressionStatement <'a'>", "      expression:",
          "        Identifier(value='a') <'a'>"] ∧
      listedName.dump (1 + 1) = (listedName.dump 1).map ("  " ++ ·) ∧
      PartAt 2 (.node (.identifier ⟨.ident, "a"⟩ "a")) listedName ∧
      ["      Identifier(value='a') <'a'>"] <:+: listedName.dump 1 := by
  have hpart : PartAt 2 (.node (.identifier ⟨.ident, "a"⟩ "a")) listedName :=
    .member (List.mem_cons_of_mem _ List.mem_cons_self)
      (.member List.mem_cons_self (.child List.mem_cons_self (.refl _)))
  obtain ⟨hmore, hparts⟩ := dump_indents_uniformly listedName 1 1
  refine ⟨by cbv, hmore, hpart, ?_⟩
  have hname : ((DumpValue.node (.identifier ⟨.ident, "a"⟩ "a")).dump 0).map
      (fun line => String.ofList (List.replicate (2 * (1 + 2)) ' ') ++ line) =
        ["      Identifier(value='a') <'a'>"] := by cbv
  exact hname ▸ hparts 2 _ hpart

end DumpValue

end Monkey
