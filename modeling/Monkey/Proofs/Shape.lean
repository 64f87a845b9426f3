import Monkey.Node.Canonical
import Monkey.Proofs.Tally
import Monkey.Proofs.WellFormed

/-!
# Trees up to tokens

The shape of a tree is what is left when its tokens are ignored. For this every token is replaced by
one that depends on the kind of its node only. Well-formed trees of one shape have the same text, and
trees of one shape have the same number of words and calls.
-/

namespace Monkey.Node

mutual

/-- The tree with a fixed token in every node of a kind: the keyword that the text of the node starts
with, or else the end of input. -/
def withoutTokens : Node → Node
  | program _ statements => .program .endOfInput (withoutTokensEach statements)
  | letStatement _ name value => .letStatement ⟨.kwLet, "let"⟩ name.withoutTokens value.withoutTokens
  | identifier _ value => .identifier .endOfInput value
  | returnStatement _ value => .returnStatement ⟨.kwReturn, "return"⟩ value.withoutTokens
  | expressionStatement _ expression => .expressionStatement .endOfInput expression.withoutTokens
  | integer _ value => .integer .endOfInput value
  | prefixOp _ operator right => .prefixOp .endOfInput operator right.withoutTokens
  | infixOp _ left operator right =>
    .infixOp .endOfInput left.withoutTokens operator right.withoutTokens
  | boolean _ value => .boolean .endOfInput value
  | conditional _ condition consequence none =>
    .conditional ⟨.kwIf, "if"⟩ condition.withoutTokens consequence.withoutTokens none
  | conditional _ condition consequence (some alternative) =>
    .conditional ⟨.kwIf, "if"⟩ condition.withoutTokens consequence.withoutTokens
      (some alternative.withoutTokens)
  | block _ statements => .block .endOfInput (withoutTokensEach statements)
  | function _ parameters body =>
    .function ⟨.kwFunction, "fn"⟩ (withoutTokensEach parameters) body.withoutTokens
  | call _ callee arguments => .call .endOfInput callee.withoutTokens (withoutTokensEach arguments)

/-- The trees of a list with fixed tokens. -/
def withoutTokensEach : List Node → List Node
  | [] => []
  | node :: rest => node.withoutTokens :: withoutTokensEach rest

end

/-- The trees of a list are replaced one by one. -/
theorem withoutTokensEach_eq_map (nodes : List Node) :
    withoutTokensEach nodes = nodes.map withoutTokens := by
  induction nodes with
  | nil => rfl
  | cons node rest ih => simp [withoutTokensEach, ih]

@[simp]
theorem kind_withoutTokens (node : Node) : node.withoutTokens.kind = node.kind := by
  cases node with
  | conditional t condition consequence alternative => cases alternative <;> rfl
  | _ => rfl

/-- The trees below the root are replaced one by one. -/
theorem children_withoutTokens (node : Node) :
    node.withoutTokens.children = node.children.map withoutTokens := by
  cases node with
  | conditional t condition consequence alternative => cases alternative <;> rfl
  | _ => simp [withoutTokens, children, withoutTokensEach_eq_map]

/-- A sum of weights that ignore tokens ignores tokens. -/
theorem total_withoutTokens {weight : Node → Nat}
    (hweight : ∀ node, weight node.withoutTokens = weight node) (node : Node) :
    total weight node.withoutTokens = total weight node := by
  induction node using childInduction with
  | step node ih =>
    rw [total_eq, total_eq weight node, hweight, children_withoutTokens, totalAll, totalAll,
      List.map_map]
    congr 2
    exact List.map_congr_left ih

/-- Trees of one shape have the same number of words. -/
theorem total_wordWeight_withoutTokens (node : Node) :
    total wordWeight node.withoutTokens = total wordWeight node :=
  total_withoutTokens (fun node => by
    cases node with
    | conditional t condition consequence alternative => cases alternative <;> rfl
    | _ => rfl) node

/-- Trees of one shape have the same number of calls. -/
theorem total_callWeight_withoutTokens (node : Node) :
    total callWeight node.withoutTokens = total callWeight node :=
  total_withoutTokens (fun node => by
    cases node with
    | conditional t condition consequence alternative => cases alternative <;> rfl
    | _ => rfl) node

@[simp]
theorem isParenthesized_withoutTokens (node : Node) :
    node.withoutTokens.isParenthesized = node.isParenthesized := by
  cases node with
  | conditional t condition consequence alternative => cases alternative <;> rfl
  | _ => rfl

/-- The text of a well-formed tree does not depend on its tokens. -/
theorem canonical_withoutTokens {node : Node} (h : node.WellFormed) :
    node.withoutTokens.canonical = node.canonical := by
  induction node using childInduction with
  | step node ih =>
    obtain ⟨hfit, hchildren⟩ := wellFormed_iff.mp h
    have ihall : ∀ nodes : List Node, (∀ n ∈ nodes, n ∈ node.children) →
        canonicalEach (withoutTokensEach nodes) = canonicalEach nodes := by
      intro nodes hnodes
      rw [canonicalEach_eq_map, canonicalEach_eq_map, withoutTokensEach_eq_map, List.map_map]
      exact List.map_congr_left fun n hn => ih n (hnodes n hn) (hchildren n (hnodes n hn))
    have ihone : ∀ n ∈ node.children, n.withoutTokens.canonical = n.canonical :=
      fun n hn => ih n hn (hchildren n hn)
    cases node with
    | program t statements | block t statements =>
      simp only [withoutTokens, canonical, ihall statements fun _ hn => hn]
    | letStatement t name value =>
      simp only [withoutTokens, canonical, ihone name (by simp [children]),
        ihone value (by simp [children]), hfit.1]
    | returnStatement t value =>
      simp only [withoutTokens, canonical, ihone value (by simp [children]), hfit.1]
    | expressionStatement t expression =>
      simp only [withoutTokens, canonical, ihone expression (by simp [children])]
    | prefixOp t operator right =>
      simp only [withoutTokens, canonical, ihone right (by simp [children])]
    | infixOp t left operator right =>
      simp only [withoutTokens, canonical, ihone left (by simp [children]),
        ihone right (by simp [children])]
    | identifier | integer | boolean => simp only [withoutTokens, canonical]
    | conditional t condition consequence alternative =>
      cases alternative with
      | none =>
        simp only [withoutTokens, canonical, isParenthesized_withoutTokens,
          ihone condition (by simp [children]), ihone consequence (by simp [children]), hfit.1]
      | some other =>
        simp only [withoutTokens, canonical, isParenthesized_withoutTokens,
          ihone condition (by simp [children]), ihone consequence (by simp [children]),
          ihone other (by simp [children]), hfit.1]
    | function t parameters body =>
      simp only [withoutTokens, canonical, ihall parameters (by simp +contextual [children]),
        ihone body (by simp [children]), hfit.1]
    | call t callee arguments =>
      simp only [withoutTokens, canonical, ihall arguments (by simp +contextual [children]),
        ihone callee (by simp [children])]

end Monkey.Node
