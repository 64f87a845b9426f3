import Mathlib.Algebra.GroupWithZero.Nat
import Monkey.Node.Walk

/-!
# The nodes of a tree

A walk meets a node and then the nodes of each tree below it. So what holds everywhere in a tree, and
what is added up over a tree, is determined by its root and the trees below the root, and a fact about
all trees follows by induction on these.
-/

namespace Monkey.Node

/-- A stack of trees is walked one tree after the other. -/
theorem walkStack_eq_flatMap (stack : List Node) : walkStack [] stack = stack.flatMap walk := by
  induction hsize : sizeAll stack using Nat.strongRecOn generalizing stack with
  | ind size ih =>
    cases stack with
    | nil => simp [walkStack]
    | cons node rest =>
      have hroot := size_eq_sizeAll_children node
      simp only [sizeAll] at hsize
      have hrest : walkStack [] rest = rest.flatMap walk := ih _ (by omega) rest rfl
      have hnode : walk node = node :: node.children.flatMap walk := by
        rw [walk, walkStack, walkStack_eq, List.append_nil, ih _ (by omega) node.children rfl]
        rfl
      have happend : walkStack [] (node.children ++ rest) =
          node.children.flatMap walk ++ rest.flatMap walk := by
        rw [ih _ ?_ (node.children ++ rest) rfl, List.flatMap_append]
        rw [sizeAll_append]
        omega
      rw [walkStack, walkStack_eq, happend, List.flatMap_cons, hnode]
      simp

/-- A walk meets the root and then the nodes of the trees below it. -/
theorem walk_eq (node : Node) : node.walk = node :: node.children.flatMap walk := by
  rw [walk, walkStack, walkStack_eq, List.append_nil, walkStack_eq_flatMap]
  rfl

/-- A tree below the root is smaller than the whole tree. -/
theorem size_lt_of_mem_children {node child : Node} (h : child ∈ node.children) :
    child.size < node.size := by
  have hle : ∀ nodes : List Node, child ∈ nodes → child.size ≤ sizeAll nodes := by
    intro nodes hmem
    induction nodes with
    | nil => cases hmem
    | cons first rest ih =>
      rw [sizeAll]
      rcases List.mem_cons.mp hmem with rfl | hrest
      · omega
      · exact Nat.le_trans (ih hrest) (Nat.le_add_left _ _)
  have hall := hle node.children h
  have hroot := size_eq_sizeAll_children node
  omega

/-- What holds of a tree whenever it holds of the trees below its root holds of all trees. -/
theorem childInduction {motive : Node → Prop}
    (step : ∀ node, (∀ child ∈ node.children, motive child) → motive node) (node : Node) :
    motive node := by
  induction hsize : node.size using Nat.strongRecOn generalizing node with
  | ind size ih =>
    exact step node fun child hchild =>
      ih child.size (hsize ▸ size_lt_of_mem_children hchild) child rfl

/-- A property of all nodes of a tree. -/
def Everywhere (p : Node → Prop) (node : Node) : Prop := ∀ m ∈ node.walk, p m

instance {p : Node → Prop} [DecidablePred p] (node : Node) : Decidable (node.Everywhere p) :=
  inferInstanceAs (Decidable (∀ m ∈ node.walk, p m))

/-- A property holds everywhere if it holds of the root and everywhere below it. -/
theorem everywhere_iff {p : Node → Prop} {node : Node} :
    node.Everywhere p ↔ p node ∧ ∀ child ∈ node.children, child.Everywhere p := by
  simp only [Everywhere, walk_eq node, List.forall_mem_cons, List.mem_flatMap, forall_exists_index,
    and_imp]
  exact and_congr_right fun _ => ⟨fun h child hchild m => h m child hchild,
    fun h m child hchild => h child hchild m⟩

/-- The sum of a weight over all nodes of a tree. -/
def total (weight : Node → Nat) (node : Node) : Nat := (node.walk.map weight).sum

/-- The sum over a list of trees. -/
def totalAll (weight : Node → Nat) (nodes : List Node) : Nat := (nodes.map (total weight)).sum

@[simp]
theorem totalAll_nil (weight : Node → Nat) : totalAll weight [] = 0 := rfl

@[simp]
theorem totalAll_cons (weight : Node → Nat) (node : Node) (rest : List Node) :
    totalAll weight (node :: rest) = total weight node + totalAll weight rest := rfl

theorem totalAll_append (weight : Node → Nat) (front back : List Node) :
    totalAll weight (front ++ back) = totalAll weight front + totalAll weight back := by
  simp [totalAll]

/-- The sum over a tree is that of its root and those of the trees below it. -/
theorem total_eq (weight : Node → Nat) (node : Node) :
    total weight node = weight node + totalAll weight node.children := by
  have hbelow : ∀ nodes : List Node,
      ((nodes.flatMap walk).map weight).sum = totalAll weight nodes := by
    intro nodes
    induction nodes with
    | nil => rfl
    | cons first rest ih =>
      rw [List.flatMap_cons, List.map_append, List.sum_append, ih]
      rfl
  rw [total, walk_eq, List.map_cons, List.sum_cons, hbelow]

/-- A sum is zero exactly if the weight is zero everywhere. -/
theorem total_eq_zero_iff {weight : Node → Nat} {node : Node} :
    total weight node = 0 ↔ node.Everywhere fun m => weight m = 0 := by
  simp [total, Everywhere, List.sum_eq_zero_iff_forall_eq_nat]

end Monkey.Node
