import Monkey.Node

/-!
# Walking a tree

A walk visits a node before the nodes below it, and those from left to right. It keeps the
trees that are still to be visited on a stack, next one first.
-/

namespace Monkey.Node

/-- Visit the trees of a stack after the nodes seen so far, the last one of which comes first. -/
def walkStack (seen : List Node) (stack : List Node) : List Node :=
  match stack with
  | [] => seen.reverse
  | node :: rest => walkStack (node :: seen) (node.children ++ rest)
termination_by sizeAll stack
decreasing_by
  simp only [sizeAll, sizeAll_append, size_eq_sizeAll_children]
  omega

/-- The nodes of a tree in the order of a walk. -/
def walk (node : Node) : List Node := walkStack [] [node]

/-- The nodes seen before a stack is walked come first. -/
theorem walkStack_eq (seen stack : List Node) :
    walkStack seen stack = seen.reverse ++ walkStack [] stack := by
  match stack with
  | [] => simp [walkStack]
  | node :: rest =>
    rw [walkStack, walkStack_eq (node :: seen), walkStack, walkStack_eq [node]]
    simp
termination_by sizeAll stack
decreasing_by
  all_goals
    simp only [sizeAll, sizeAll_append, size_eq_sizeAll_children]
    omega

end Monkey.Node
