import Mathlib
import Monkey.Proofs.Extension
import Monkey.Proofs.Numeral
import Monkey.Proofs.Soundness

/-!
# The tokens of a parsed tree

A tree keeps the words, numbers, operators and opening braces of the text that it is parsed from, and
nothing else of it. Read in source order, its tokens are those of the text without the punctuation: none
is lost, doubled or out of place. Every node says of itself what its token says.

Both facts are read off a derivation, one rule at a time; how the parser moves from token to token does
not matter here.
-/

namespace Monkey

/-- The kinds of tokens that a tree keeps. -/
def TokenKind.isKept : TokenKind → Bool
  | ident | int | kwTrue | kwFalse | kwLet | kwReturn | kwIf | kwFunction | lbrace | bang
  | plus | minus | asterisk | slash | lt | gt | eq | notEq => true
  | _ => false

/-- The tokens of a stream that a tree keeps. -/
def kept (stream : List Token) : List Token := stream.filter fun t => t.kind.isKept

@[simp]
theorem kept_nil : kept [] = [] := rfl

theorem kept_cons_of_isKept {t : Token} (h : t.kind.isKept = true) (rest : List Token) :
    kept (t :: rest) = t :: kept rest := List.filter_cons_of_pos h

theorem kept_cons_of_not {t : Token} (h : t.kind.isKept = false) (rest : List Token) :
    kept (t :: rest) = kept rest := List.filter_cons_of_neg (by simp [h])

/-- Operators between two operands are kept. -/
theorem isKept_of_mem_operators {level : Precedence} {kind : TokenKind}
    (h : kind ∈ level.operators) : kind.isKept = true := by
  cases level <;> simp only [Precedence.operators, List.mem_cons, List.not_mem_nil, or_false] at h <;>
    rcases h with rfl | rfl <;> rfl

namespace Node

mutual

/-- The tokens of the nodes of a tree in source order. An operator stands between its operands and a
callee before its arguments; any other node comes before what is below it. Programs and expression
statements have no token of their own, and that of a call is punctuation. -/
def sourceTokens : Node → List Token
  | program _ statements => sourceTokensAll statements
  | letStatement t name value => t :: (name.sourceTokens ++ value.sourceTokens)
  | identifier t _ | integer t _ | boolean t _ => [t]
  | returnStatement t value => t :: value.sourceTokens
  | expressionStatement _ expression => expression.sourceTokens
  | prefixOp t _ right => t :: right.sourceTokens
  | infixOp t left _ right => left.sourceTokens ++ t :: right.sourceTokens
  | conditional t condition consequence none =>
    t :: (condition.sourceTokens ++ consequence.sourceTokens)
  | conditional t condition consequence (some alternative) =>
    t :: (condition.sourceTokens ++ (consequence.sourceTokens ++ alternative.sourceTokens))
  | block t statements => t :: sourceTokensAll statements
  | function t parameters body => t :: (sourceTokensAll parameters ++ body.sourceTokens)
  | call _ callee arguments => callee.sourceTokens ++ sourceTokensAll arguments

/-- The tokens of the trees of a list, one after the other. -/
def sourceTokensAll : List Node → List Token
  | [] => []
  | node :: rest => node.sourceTokens ++ sourceTokensAll rest

end

/-- The fields of a node are what its token says. The token of an expression statement is the first one
of the tokens in a stream that the statement is derived from. -/
def AgreesWithToken (stream : List Token) : Node → Prop
  | program t _ => t = .endOfInput
  | letStatement t _ _ => t.kind = .kwLet
  | identifier t value => t.kind = .ident ∧ value = t.literal
  | returnStatement t _ => t.kind = .kwReturn
  | expressionStatement t expression => ∃ input after, input <:+ stream ∧ input.head? = some t ∧
      Derivation.Statement input (.expressionStatement t expression) after
  | integer t value =>
    t.kind = .int ∧ IsNumber t.literal.toList ∧ value = Text.Decimal.asciiValue t.literal ∧
      0 ≤ value ∧ value ≤ 2 ^ 63 - 1
  | prefixOp t operator _ => (t.kind = .bang ∨ t.kind = .minus) ∧ operator = t.literal
  | infixOp t _ operator _ =>
    (∃ level : Precedence, t.kind ∈ level.operators) ∧ operator = t.literal
  | boolean t value =>
    (t.kind = .kwTrue ∨ t.kind = .kwFalse) ∧ (value = true ↔ t.kind = .kwTrue)
  | conditional t _ _ _ => t.kind = .kwIf
  | block t _ => t.kind = .lbrace
  | function t _ _ => t.kind = .kwFunction
  | call t _ _ => t.kind = .lparen

/-- Every node of a tree agrees with its token. -/
def Faithful (stream : List Token) (node : Node) : Prop := node.Everywhere (AgreesWithToken stream)

/-- A tree is faithful if its root agrees with its token and the trees below it are faithful. -/
theorem faithful_iff {stream : List Token} {node : Node} :
    node.Faithful stream ↔
      node.AgreesWithToken stream ∧ ∀ child ∈ node.children, child.Faithful stream := everywhere_iff

end Node

namespace Derivation

open Node

/-! ## Source order -/

/-- What ends a statement is not kept. -/
theorem StatementEnd.kept_eq {input after : List Token} (h : StatementEnd input after) :
    kept input = kept after := by
  cases h with
  | semicolon ht => exact kept_cons_of_not (by rw [ht]; rfl) _
  | bare => rfl

theorem MoreParameters.kept_eq {input after : List Token} {more : List Node}
    (h : MoreParameters input more after) : kept input = sourceTokensAll more ++ kept after := by
  induction h with
  | close ht => exact kept_cons_of_not (by rw [ht]; rfl) _
  | comma hcomma hname _ ih =>
    rw [kept_cons_of_not (by rw [hcomma]; rfl), kept_cons_of_isKept (by rw [hname]; rfl), ih]
    rfl

theorem Parameters.kept_eq {input after : List Token} {parameters : List Node}
    (h : Parameters input parameters after) :
    kept input = sourceTokensAll parameters ++ kept after := by
  cases h with
  | none ht => exact kept_cons_of_not (by rw [ht]; rfl) _
  | some hname hmore =>
    rw [kept_cons_of_isKept (by rw [hname]; rfl), hmore.kept_eq]
    rfl

mutual

theorem Statements.kept_eq {input after : List Token} {statements : List Node} :
    Statements input statements after → kept input = sourceTokensAll statements ++ kept after
  | .nil => rfl
  | .cons hfirst hmore => by
    rw [hfirst.kept_eq, hmore.kept_eq, sourceTokensAll, List.append_assoc]

theorem Statement.kept_eq {input after : List Token} {node : Node} :
    Statement input node after → kept input = node.sourceTokens ++ kept after
  | .letStatement hlet hname hassign hvalue hend => by
    rw [kept_cons_of_isKept (by rw [hlet]; rfl), kept_cons_of_isKept (by rw [hname]; rfl),
      kept_cons_of_not (by rw [hassign]; rfl), hvalue.kept_eq, hend.kept_eq]
    rfl
  | .returnStatement hreturn hvalue hend => by
    rw [kept_cons_of_isKept (by rw [hreturn]; rfl), hvalue.kept_eq, hend.kept_eq]
    rfl
  | .expressionStatement hvalue hend => by
    rw [hvalue.kept_eq, hend.kept_eq]
    rfl

theorem Block.kept_eq {input after : List Token} {node : Node} :
    Block input node after → kept input = node.sourceTokens ++ kept after
  | .closed ht hstatements hclose => by
    rw [kept_cons_of_isKept (by rw [ht]; rfl), hstatements.kept_eq,
      kept_cons_of_not (by rw [hclose]; rfl)]
    rfl
  | .unclosed ht hstatements => by
    rw [kept_cons_of_isKept (by rw [ht]; rfl), hstatements.kept_eq]
    rfl

theorem Expression.kept_eq {level : Precedence} {input after : List Token} {node : Node} :
    Expression level input node after → kept input = node.sourceTokens ++ kept after
  | .infixOp hop hleft hright => by
    rw [hleft.kept_eq, kept_cons_of_isKept (isKept_of_mem_operators hop), hright.kept_eq,
      sourceTokens, List.append_assoc, List.cons_append]
  | .tighter _ h => h.kept_eq
  | .prefixOp hop hright => by
    rw [kept_cons_of_isKept (by rcases hop with hop | hop <;> rw [hop] <;> rfl), hright.kept_eq]
    rfl
  | .call hcallee hparen harguments => by
    rw [hcallee.kept_eq, kept_cons_of_not (by rw [hparen]; rfl), harguments.kept_eq, sourceTokens,
      List.append_assoc]
  | .identifier h | .integer h _ _ | .yes h | .no h => kept_cons_of_isKept (by rw [h]; rfl) _
  | .group ht hinner hclose => by
    rw [kept_cons_of_not (by rw [ht]; rfl), hinner.kept_eq, kept_cons_of_not (by rw [hclose]; rfl)]
  | @Expression.conditional _ _ _ _ _ _ _ _ alternative hif hopen hcondition hclose hbranches => by
    rw [kept_cons_of_isKept (by rw [hif]; rfl), kept_cons_of_not (by rw [hopen]; rfl),
      hcondition.kept_eq, kept_cons_of_not (by rw [hclose]; rfl), hbranches.kept_eq]
    cases alternative <;> simp [sourceTokens, sourceTokensAll]
  | .function hfn hopen hparameters hbody => by
    rw [kept_cons_of_isKept (by rw [hfn]; rfl), kept_cons_of_not (by rw [hopen]; rfl),
      hparameters.kept_eq, hbody.kept_eq, sourceTokens, List.cons_append, List.append_assoc]

theorem Branches.kept_eq {input after : List Token} {consequence : Node}
    {alternative : Option Node} :
    Branches input consequence alternative after →
      kept input = consequence.sourceTokens ++ (sourceTokensAll alternative.toList ++ kept after)
  | .one hblock => hblock.kept_eq
  | .two hfirst helse hsecond => by
    rw [hfirst.kept_eq, kept_cons_of_not (by rw [helse]; rfl), hsecond.kept_eq]
    simp [sourceTokensAll]

theorem Arguments.kept_eq {input after : List Token} {arguments : List Node} :
    Arguments input arguments after → kept input = sourceTokensAll arguments ++ kept after
  | .none ht => kept_cons_of_not (by rw [ht]; rfl) _
  | .some hfirst hmore => by
    rw [hfirst.kept_eq, hmore.kept_eq, sourceTokensAll, List.append_assoc]

theorem MoreArguments.kept_eq {input after : List Token} {more : List Node} :
    MoreArguments input more after → kept input = sourceTokensAll more ++ kept after
  | .close ht => kept_cons_of_not (by rw [ht]; rfl) _
  | .comma hcomma hargument hmore => by
    rw [kept_cons_of_not (by rw [hcomma]; rfl), hargument.kept_eq, hmore.kept_eq, sourceTokensAll,
      List.append_assoc]

end

/-! ## Agreement of nodes with their tokens -/

variable {stream : List Token}

/-- A name agrees with its token. -/
theorem faithful_identifier {t : Token} (h : t.kind = .ident) :
    (Node.identifier t t.literal).Faithful stream :=
  faithful_iff.mpr ⟨⟨h, rfl⟩, by simp [children]⟩

theorem MoreParameters.faithful {input after : List Token} {more : List Node}
    (h : MoreParameters input more after) : ∀ p ∈ more, p.Faithful stream := by
  induction h with
  | close => simp
  | comma _ hname _ ih => exact List.forall_mem_cons.mpr ⟨faithful_identifier hname, ih⟩

theorem Parameters.faithful {input after : List Token} {parameters : List Node}
    (h : Parameters input parameters after) : ∀ p ∈ parameters, p.Faithful stream := by
  cases h with
  | none => simp
  | some hname hmore => exact List.forall_mem_cons.mpr ⟨faithful_identifier hname, hmore.faithful⟩

/-- A number has the decimal value of its token if that is spelled as a number. -/
theorem faithful_integer {t : Token} {value : Nat} (h : t.kind = .int) (hspelled : t.Spelled)
    (hread : Text.Decimal.read t.literal = .ok value) (hle : value ≤ 2 ^ 63 - 1) :
    (Node.integer t value).Faithful stream := by
  have hnumber := hspelled.int h
  rw [Text.Decimal.read_of_isNumber hnumber] at hread
  split at hread
  · obtain rfl := Except.ok.inj hread
    exact faithful_iff.mpr ⟨⟨h, hnumber, rfl, by omega, by omega⟩, by simp [children]⟩
  · cases hread

/-- What is left of a stream of spelled tokens. -/
structure Remains (stream input : List Token) : Prop where
  spelled : ∀ t ∈ stream, t.Spelled
  suffix : input <:+ stream

theorem Remains.after {input after : List Token} (h : Remains stream input) (hafter : after <:+ input) :
    Remains stream after := ⟨h.spelled, hafter.trans h.suffix⟩

theorem Remains.tail {t : Token} {input : List Token} (h : Remains stream (t :: input)) :
    Remains stream input := h.after (List.suffix_cons t input)

theorem Remains.head {t : Token} {input : List Token} (h : Remains stream (t :: input)) :
    t.Spelled := h.spelled t (h.suffix.subset List.mem_cons_self)

mutual

theorem Statements.faithful {input after : List Token} {statements : List Node} :
    Statements input statements after → Remains stream input → ∀ s ∈ statements, s.Faithful stream
  | .nil, _ => by simp
  | .cons hfirst hmore, hinput => by
    obtain ⟨front, n, hextends⟩ := hfirst.extends
    exact List.forall_mem_cons.mpr
      ⟨hfirst.faithful hinput, hmore.faithful (hinput.after hextends.suffix)⟩

theorem Statement.faithful {input after : List Token} {node : Node} :
    Statement input node after → Remains stream input → node.Faithful stream
  | .letStatement hlet hname _ hvalue _, hinput => by
    have hwhole := hvalue.faithful hinput.tail.tail.tail
    exact faithful_iff.mpr ⟨hlet, by simp [children, faithful_identifier hname, hwhole]⟩
  | .returnStatement hreturn hvalue _, hinput => by
    have hwhole := hvalue.faithful hinput.tail
    exact faithful_iff.mpr ⟨hreturn, by simp [children, hwhole]⟩
  | .expressionStatement hvalue hend, hinput => by
    have hwhole := hvalue.faithful hinput
    exact faithful_iff.mpr ⟨⟨_, _, hinput.suffix, rfl, .expressionStatement hvalue hend⟩,
      by simp [children, hwhole]⟩

theorem Block.faithful {input after : List Token} {node : Node} :
    Block input node after → Remains stream input → node.Faithful stream
  | .closed ht hstatements _, hinput | .unclosed ht hstatements, hinput =>
    faithful_iff.mpr ⟨ht, hstatements.faithful hinput.tail⟩

theorem Expression.faithful {level : Precedence} {input after : List Token} {node : Node} :
    Expression level input node after → Remains stream input → node.Faithful stream
  | .infixOp hop hleft hright, hinput => by
    have hmid := (hinput.after hleft.extensible.suffix).tail
    have hl := hleft.faithful hinput
    have hr := hright.faithful hmid
    exact faithful_iff.mpr ⟨⟨⟨_, hop⟩, rfl⟩, by simp [children, hl, hr]⟩
  | .tighter _ h, hinput => h.faithful hinput
  | .prefixOp hop hright, hinput => by
    have hr := hright.faithful hinput.tail
    exact faithful_iff.mpr ⟨⟨hop, rfl⟩, by simp [children, hr]⟩
  | .call hcallee hparen harguments, hinput => by
    have hmid := (hinput.after hcallee.extensible.suffix).tail
    have hc := hcallee.faithful hinput
    have ha := harguments.faithful hmid
    exact faithful_iff.mpr ⟨hparen, List.forall_mem_cons.mpr ⟨hc, ha⟩⟩
  | .identifier h, _ => faithful_identifier h
  | .integer h hread hle, hinput => faithful_integer h hinput.head hread hle
  | .yes h, _ => faithful_iff.mpr ⟨⟨.inl h, by simp [h]⟩, by simp [children]⟩
  | .no h, _ => faithful_iff.mpr ⟨⟨.inr h, by simp [h]⟩, by simp [children]⟩
  | .group _ hinner _, hinput => hinner.faithful hinput.tail
  | .conditional hif _ hcondition _ hbranches, hinput => by
    have hinner := hinput.tail.tail
    have hmid := (hinner.after hcondition.extensible.suffix).tail
    have hc := hcondition.faithful hinner
    have hb := hbranches.faithful hmid
    exact faithful_iff.mpr ⟨hif, List.forall_mem_cons.mpr ⟨hc, hb⟩⟩
  | .function hfn _ hparameters hbody, hinput => by
    have hinner := hinput.tail.tail
    have hb := hbody.faithful (hinner.after hparameters.extensible.suffix)
    refine faithful_iff.mpr ⟨hfn, fun child hchild => ?_⟩
    rcases List.mem_append.mp hchild with hparameter | hlast
    · exact hparameters.faithful child hparameter
    · exact List.mem_singleton.mp hlast ▸ hb

theorem Branches.faithful {input after : List Token} {consequence : Node}
    {alternative : Option Node} :
    Branches input consequence alternative after → Remains stream input →
      ∀ b ∈ consequence :: alternative.toList, b.Faithful stream
  | .one hblock, hinput => by simp [hblock.faithful hinput]
  | .two hfirst _ hsecond, hinput => by
    have hmid := (hinput.after hfirst.extensible.suffix).tail
    simp [hfirst.faithful hinput, hsecond.faithful hmid]

theorem Arguments.faithful {input after : List Token} {arguments : List Node} :
    Arguments input arguments after → Remains stream input → ∀ a ∈ arguments, a.Faithful stream
  | .none _, _ => by simp
  | .some hfirst hmore, hinput => List.forall_mem_cons.mpr
    ⟨hfirst.faithful hinput, hmore.faithful (hinput.after hfirst.extensible.suffix)⟩

theorem MoreArguments.faithful {input after : List Token} {more : List Node} :
    MoreArguments input more after → Remains stream input → ∀ a ∈ more, a.Faithful stream
  | .close _, _ => by simp
  | .comma _ hargument hmore, hinput => by
    have hrest := hinput.tail
    exact List.forall_mem_cons.mpr
      ⟨hargument.faithful hrest, hmore.faithful (hrest.after hargument.extensible.suffix)⟩

end

end Derivation

/-- A parsed program has the tokens of its source in order. It is derived from them by the reference
grammar, so that an expression statement starts at its token; and every node agrees with its token. -/
theorem parsed_tree_faithful {levels : Nat} {source : String} {node : Node}
    (h : parseTokens .standard levels (tokens source.toList) = .ok node) :
    node.sourceTokens = kept (tokenize source) ∧
      Derivation.Program (tokens source.toList) node ∧
      node.Everywhere (Node.AgreesWithToken (tokens source.toList)) := by
  have hended : TokenStream.Unended (tokens source.toList) := fun t ht =>
    (spelled_of_mem_tokens t ht).kind_ne_eof
  have hprogram := derivation_of_parseTokens hended h
  refine ⟨?_, hprogram, ?_⟩
  · obtain ⟨hstatements⟩ := hprogram
    have hkept := hstatements.kept_eq
    rw [tokenize, kept, List.filter_append]
    simpa [kept, TokenKind.isKept, Node.sourceTokens] using hkept.symm
  · obtain ⟨hstatements⟩ := hprogram
    exact Node.faithful_iff.mpr
      ⟨rfl, hstatements.faithful ⟨spelled_of_mem_tokens, List.suffix_refl _⟩⟩

set_option maxRecDepth 20000 in
/-- A statement may start at a parenthesis, which the tree keeps for the statement only, and a block may
be closed by the end of input. -/
theorem parsed_tree_faithful_group_and_open_block :
    ∃ node, parse "(-a)(7); if (b) \x7b c" = .ok node ∧
      node.sourceTokens = [⟨.minus, "-"⟩, ⟨.ident, "a"⟩, ⟨.int, "7"⟩, ⟨.kwIf, "if"⟩, ⟨.ident, "b"⟩,
        ⟨.lbrace, "\x7b"⟩, ⟨.ident, "c"⟩] ∧
      Derivation.Program (tokens "(-a)(7); if (b) \x7b c".toList) node ∧
      node.Everywhere (Node.AgreesWithToken (tokens "(-a)(7); if (b) \x7b c".toList)) := by
  have hagain : ∃ node, parse "(-a)(7); if (b) \x7b c" = .ok node := ⟨_, by cbv⟩
  obtain ⟨node, hnode⟩ := hagain
  obtain ⟨htokens, hprogram, hagrees⟩ := parsed_tree_faithful hnode
  refine ⟨node, hnode, htokens.trans ?_, hprogram, hagrees⟩
  cbv

end Monkey
