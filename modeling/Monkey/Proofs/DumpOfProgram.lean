import Monkey.Proofs.DumpReading
import Monkey.Proofs.SourceTokens
import Monkey.Proofs.TokenBoundary

/-!
# The dump of a program determines the program

A dump shows the text of tokens and not their kind. In a program that is parsed from a text nothing is
lost by that: the kind of a token of the text depends on its text only, a call has an opening parenthesis
as its token, and a program has the end of input. So the lines of nodes tell their tokens, and two
programs have the same dump only if they are the same, tokens included.
-/

namespace Monkey

/-- A token of a text is what its own text says. -/
theorem eq_ofLexeme_of_mem_tokens {t : Token} {text : List Char} (h : t ∈ tokens text) :
    t = .ofLexeme t.literal.toList := by
  obtain ⟨lexeme, -, rfl⟩ := exists_ofLexeme_of_mem_tokens h
  rw [Token.ofLexeme, String.toList_ofList, Token.ofLexeme]

namespace Node

/-- The token of a node is told by its kind and its text: it is the end of input for a program, an opening
parenthesis for a call, and else what its text alone says. -/
def HasToldToken : Node → Prop
  | program t _ => t = .endOfInput
  | call t _ _ => t.kind = .lparen
  | node => node.token = .ofLexeme node.token.literal.toList

/-- In such trees the line of a node tells its token. -/
theorem headersTellTokens_hasToldToken : HeadersTellTokens HasToldToken := by
  intro a b ha hb h
  obtain ⟨hkind, -, hliteral⟩ := header_inj h
  have hlexeme : ∀ {t u : Token}, t = .ofLexeme t.literal.toList → u = .ofLexeme u.literal.toList →
      t.literal = u.literal → t = u := by
    intro t u ht hu htext
    rw [ht, hu, htext]
  cases a <;> cases b <;> cases hkind
  case program.program => exact ha.trans hb.symm
  case call.call t _ _ u _ _ =>
    obtain ⟨kind, text⟩ := t
    obtain ⟨kind', text'⟩ := u
    obtain rfl : kind = .lparen := ha
    obtain rfl : kind' = .lparen := hb
    exact congrArg (Token.mk .lparen) hliteral
  all_goals exact hlexeme ha hb hliteral

/-! ## Tokens of parsed programs -/

theorem sourceTokensAll_eq_flatMap (nodes : List Node) :
    sourceTokensAll nodes = nodes.flatMap sourceTokens := by
  induction nodes with
  | nil => rfl
  | cons node rest ih => rw [sourceTokensAll, ih, List.flatMap_cons]

/-- The tokens of a tree below the root are tokens of the whole tree. -/
theorem mem_sourceTokens_of_mem_child {node child : Node} {t : Token} (hchild : child ∈ node.children)
    (ht : t ∈ child.sourceTokens) : t ∈ node.sourceTokens := by
  cases node with
  | conditional _ condition consequence alternative =>
    cases alternative <;> simp only [children, sourceTokens] at hchild ⊢ <;> grind
  | _ => simp only [children, sourceTokens, sourceTokensAll_eq_flatMap] at hchild ⊢; grind

/-- The token of a node is a token of the tree, except for programs, expression statements and calls. -/
theorem token_mem_sourceTokens {node : Node} (hprogram : node.kind ≠ .program)
    (hstatement : node.kind ≠ .expressionStatement) (hcall : node.kind ≠ .call) :
    node.token ∈ node.sourceTokens := by
  cases node with
  | program => exact absurd rfl hprogram
  | expressionStatement => exact absurd rfl hstatement
  | call => exact absurd rfl hcall
  | conditional _ _ _ alternative => cases alternative <;> simp [token, sourceTokens]
  | _ => simp [token, sourceTokens]

/-- The tokens of a tree somewhere in a tree are tokens of the whole tree. -/
theorem mem_sourceTokens_of_mem_walk {node below : Node} {t : Token} (hbelow : below ∈ node.walk)
    (ht : t ∈ below.sourceTokens) : t ∈ node.sourceTokens := by
  induction node using childInduction with
  | step node ih =>
    rw [walk_eq, List.mem_cons, List.mem_flatMap] at hbelow
    rcases hbelow with rfl | ⟨child, hchild, hmem⟩
    · exact ht
    · exact mem_sourceTokens_of_mem_child hchild (ih child hchild hmem)

/-- A node that agrees with its token has a token that is told, if the tokens of the tree are those of a
text. -/
theorem hasToldToken_of_agreesWithToken {text : List Char} {node : Node}
    (hagrees : node.AgreesWithToken (tokens text))
    (htokens : ∀ t ∈ node.sourceTokens, t ∈ tokens text) : node.HasToldToken := by
  have hown : node.kind ≠ .program → node.kind ≠ .expressionStatement → node.kind ≠ .call →
      node.token = .ofLexeme node.token.literal.toList := fun hprogram hstatement hcall =>
    eq_ofLexeme_of_mem_tokens (htokens _ (token_mem_sourceTokens hprogram hstatement hcall))
  cases node with
  | program t statements => exact hagrees
  | call t callee arguments => exact hagrees
  | expressionStatement t expression =>
    obtain ⟨input, after, hsuffix, hhead, -⟩ := hagrees
    exact eq_ofLexeme_of_mem_tokens (hsuffix.subset (List.mem_of_mem_head? hhead))
  | _ => exact hown (by simp [kind]) (by simp [kind]) (by simp [kind])

end Node

/-- In a parsed program every node has a token that is told by its kind and its text. -/
theorem everywhere_hasToldToken {levels : Nat} {source : String} {node : Node}
    (h : parseTokens .standard levels (tokens source.toList) = .ok node) :
    node.Everywhere Node.HasToldToken := by
  obtain ⟨hstatements⟩ := derivation_of_parseTokens (unended_tokens _) h
  rename_i statements
  have hagrees : (Node.program .endOfInput statements).Faithful (tokens source.toList) :=
    Node.faithful_iff.mpr
      ⟨rfl, hstatements.faithful ⟨spelled_of_mem_tokens, List.suffix_refl _⟩⟩
  intro below hbelow
  refine Node.hasToldToken_of_agreesWithToken (hagrees below hbelow) fun t ht => ?_
  have hkept : t ∈ kept (tokens source.toList) := by
    rw [hstatements.kept_eq, kept_nil, List.append_nil]
    exact Node.mem_sourceTokens_of_mem_walk hbelow ht
  exact List.mem_of_mem_filter hkept

/-- Two programs that are parsed from texts have the same dump, as a text, exactly if they are the same in
every node, field and token, even where the limits on nesting differ. -/
theorem dump_eq_iff_of_parse {levels levels' : Nat} {source source' : String} {program other : Node}
    (h : parseTokens .standard levels (tokens source.toList) = .ok program)
    (h' : parseTokens .standard levels' (tokens source'.toList) = .ok other) :
    "\n".intercalate (program.dump 0) = "\n".intercalate (other.dump 0) ↔ program = other := by
  constructor
  · intro htext
    exact Node.eq_of_dump_eq Node.headersTellTokens_hasToldToken (everywhere_hasToldToken h)
      (everywhere_hasToldToken h') (Node.dump_eq_of_text_eq htext)
  · rintro rfl
    rfl

set_option maxRecDepth 20000 in
/-- Parentheses around a statement leave its canonical form as it is, and show in the dump. -/
theorem dump_ne_in_parentheses :
    ∃ program other, parse "-a" = .ok program ∧ parse "(-a)" = .ok other ∧
      program.canonical = other.canonical ∧
      "\n".intercalate (program.dump 0) ≠ "\n".intercalate (other.dump 0) := by
  have hplain : parse "-a" = .ok (.program .endOfInput
      [.expressionStatement ⟨.minus, "-"⟩
        (.prefixOp ⟨.minus, "-"⟩ "-" (.identifier ⟨.ident, "a"⟩ "a"))]) := by cbv
  have hgroup : parse "(-a)" = .ok (.program .endOfInput
      [.expressionStatement ⟨.lparen, "("⟩
        (.prefixOp ⟨.minus, "-"⟩ "-" (.identifier ⟨.ident, "a"⟩ "a"))]) := by cbv
  refine ⟨_, _, hplain, hgroup, by cbv, fun htext => ?_⟩
  exact absurd ((dump_eq_iff_of_parse hplain hgroup).mp htext) (by simp)

end Monkey
