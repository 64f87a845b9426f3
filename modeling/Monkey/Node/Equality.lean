import Monkey.Node

/-!
# Equality of trees

Two trees are the same when they agree in shape, in every field and in every token.
-/

namespace Monkey.Node

mutual
/-- Whether two trees are the same, tokens included. -/
def same : Node → Node → Bool
  | program t statements, other =>
    match other with
    | program t' statements' => decide (t = t') && sameAll statements statements'
    | _ => false
  | letStatement t name value, other =>
    match other with
    | letStatement t' name' value' => decide (t = t') && name.same name' && value.same value'
    | _ => false
  | identifier t value, other =>
    match other with
    | identifier t' value' => decide (t = t') && decide (value = value')
    | _ => false
  | returnStatement t value, other =>
    match other with
    | returnStatement t' value' => decide (t = t') && value.same value'
    | _ => false
  | expressionStatement t expression, other =>
    match other with
    | expressionStatement t' expression' => decide (t = t') && expression.same expression'
    | _ => false
  | integer t value, other =>
    match other with
    | integer t' value' => decide (t = t') && decide (value = value')
    | _ => false
  | prefixOp t operator right, other =>
    match other with
    | prefixOp t' operator' right' =>
      decide (t = t') && decide (operator = operator') && right.same right'
    | _ => false
  | infixOp t left operator right, other =>
    match other with
    | infixOp t' left' operator' right' =>
      decide (t = t') && decide (operator = operator') && left.same left' && right.same right'
    | _ => false
  | boolean t value, other =>
    match other with
    | boolean t' value' => decide (t = t') && decide (value = value')
    | _ => false
  | conditional t condition consequence none, other =>
    match other with
    | conditional t' condition' consequence' none =>
      decide (t = t') && condition.same condition' && consequence.same consequence'
    | _ => false
  | conditional t condition consequence (some alternative), other =>
    match other with
    | conditional t' condition' consequence' (some alternative') =>
      decide (t = t') && condition.same condition' && consequence.same consequence' &&
        alternative.same alternative'
    | _ => false
  | block t statements, other =>
    match other with
    | block t' statements' => decide (t = t') && sameAll statements statements'
    | _ => false
  | function t parameters body, other =>
    match other with
    | function t' parameters' body' =>
      decide (t = t') && sameAll parameters parameters' && body.same body'
    | _ => false
  | call t callee arguments, other =>
    match other with
    | call t' callee' arguments' =>
      decide (t = t') && callee.same callee' && sameAll arguments arguments'
    | _ => false

/-- Whether two lists hold the same trees in the same order. -/
def sameAll : List Node → List Node → Bool
  | [], others => others.isEmpty
  | node :: rest, others =>
    match others with
    | other :: others' => node.same other && sameAll rest others'
    | [] => false
end

mutual
/-- A tree is the same as another exactly when they are equal. -/
theorem same_iff : ∀ node other : Node, node.same other = true ↔ node = other
  | program t statements, other => by
    cases other <;> simp [same, sameAll_iff statements]
  | letStatement t name value, other => by
    cases other <;> simp [same, same_iff name, same_iff value, and_assoc]
  | identifier t value, other => by
    cases other <;> simp [same]
  | returnStatement t value, other => by
    cases other <;> simp [same, same_iff value]
  | expressionStatement t expression, other => by
    cases other <;> simp [same, same_iff expression]
  | integer t value, other => by
    cases other <;> simp [same]
  | prefixOp t operator right, other => by
    cases other <;> simp [same, same_iff right, and_assoc]
  | infixOp t left operator right, other => by
    cases other <;> simp [same, same_iff left, same_iff right, and_assoc, and_left_comm]
  | boolean t value, other => by
    cases other <;> simp [same]
  | conditional t condition consequence none, other => by
    cases other with
    | conditional _ _ _ alternative' =>
      cases alternative' <;> simp [same, same_iff condition, same_iff consequence, and_assoc]
    | _ => simp [same]
  | conditional t condition consequence (some alternative), other => by
    cases other with
    | conditional _ _ _ alternative' =>
      cases alternative' <;>
        simp [same, same_iff condition, same_iff consequence, same_iff alternative, and_assoc]
    | _ => simp [same]
  | block t statements, other => by
    cases other <;> simp [same, sameAll_iff statements]
  | function t parameters body, other => by
    cases other <;> simp [same, sameAll_iff parameters, same_iff body, and_assoc]
  | call t callee arguments, other => by
    cases other <;> simp [same, same_iff callee, sameAll_iff arguments, and_assoc]

/-- Lists hold the same trees exactly when they are equal. -/
theorem sameAll_iff : ∀ nodes others : List Node, sameAll nodes others = true ↔ nodes = others
  | [], others => by
    cases others <;> simp [sameAll]
  | node :: rest, others => by
    cases others <;> simp [sameAll, same_iff node, sameAll_iff rest]
end

instance : DecidableEq Node := fun node other =>
  decidable_of_iff (node.same other = true) (same_iff node other)

end Monkey.Node
