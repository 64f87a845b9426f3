import Mathlib.Algebra.Group.Int.Defs
import Monkey.Proofs.Derivation
import Monkey.Proofs.Lexeme
import Monkey.Proofs.Subtree

/-!
# Well-formed trees

A tree is well-formed if the fields of every node are what the text of such a node consists of: names
are words that are no keywords, numbers are in range, operators and keywords have their spelling, and
what stands below a node is of the category that belongs there. Nothing is said about the tokens of a
node other than the keywords that its text starts with.

Every tree that is derived from the tokens of a text is well-formed.
-/

namespace Monkey

/-- The spellings of the operators between two operands. -/
def binaryOperators : List String := ["+", "-", "*", "/", "==", "!=", "<", ">"]

/-- The kinds of nodes that a list of statements holds. -/
def NodeKind.isListed : NodeKind → Bool
  | letStatement | returnStatement | expressionStatement => true
  | _ => false

namespace Node

/-- The fields of a node are what its text consists of. -/
def FieldsFit : Node → Prop
  | program _ statements | block _ statements => ∀ s ∈ statements, s.kind.isListed = true
  | letStatement t name value =>
    t.literal = "let" ∧ name.kind = .identifier ∧ value.kind.isExpression = true
  | identifier _ value => IsWord value.toList ∧ keywords.lookup value = none
  | returnStatement t value => t.literal = "return" ∧ value.kind.isExpression = true
  | expressionStatement _ expression => expression.kind.isExpression = true
  | integer _ value => 0 ≤ value ∧ value ≤ 2 ^ 63 - 1
  | prefixOp _ operator right =>
    (operator = "!" ∨ operator = "-") ∧ right.kind.isExpression = true
  | infixOp _ left operator right =>
    operator ∈ binaryOperators ∧ left.kind.isExpression = true ∧ right.kind.isExpression = true
  | boolean _ _ => True
  | conditional t condition consequence alternative =>
    t.literal = "if" ∧ condition.kind.isExpression = true ∧ consequence.kind = .block ∧
      ∀ other ∈ alternative, other.kind = .block
  | function t parameters body =>
    t.literal = "fn" ∧ (∀ p ∈ parameters, p.kind = .identifier) ∧ body.kind = .block
  | call _ callee arguments =>
    callee.kind.isExpression = true ∧ ∀ a ∈ arguments, a.kind.isExpression = true

instance : DecidablePred FieldsFit
  | program _ statements | block _ statements =>
    inferInstanceAs (Decidable (∀ s ∈ statements, s.kind.isListed = true))
  | letStatement .. | prefixOp .. | infixOp .. => inferInstanceAs (Decidable (_ ∧ _))
  | identifier .. | returnStatement .. | integer .. => inferInstanceAs (Decidable (_ ∧ _))
  | expressionStatement .. => inferInstanceAs (Decidable (_ = true))
  | boolean .. => isTrue trivial
  | conditional t condition consequence none =>
    decidable_of_iff (t.literal = "if" ∧ condition.kind.isExpression = true ∧
      consequence.kind = .block) (by simp [FieldsFit])
  | conditional t condition consequence (some other) =>
    decidable_of_iff (t.literal = "if" ∧ condition.kind.isExpression = true ∧
      consequence.kind = .block ∧ other.kind = .block) (by simp [FieldsFit])
  | function t parameters body =>
    inferInstanceAs (Decidable (t.literal = "fn" ∧ (∀ p ∈ parameters, p.kind = .identifier) ∧
      body.kind = .block))
  | call _ callee arguments =>
    inferInstanceAs (Decidable (callee.kind.isExpression = true ∧
      ∀ a ∈ arguments, a.kind.isExpression = true))

/-- The fields of every node fit. -/
def WellFormed (node : Node) : Prop := node.Everywhere FieldsFit

instance (node : Node) : Decidable node.WellFormed :=
  inferInstanceAs (Decidable (node.Everywhere FieldsFit))

/-- A tree is well-formed if its root fits and the trees below it are well-formed. -/
theorem wellFormed_iff {node : Node} :
    node.WellFormed ↔ node.FieldsFit ∧ ∀ child ∈ node.children, child.WellFormed := everywhere_iff

/-- An expression is no program. -/
theorem ne_program_of_isExpression {node : Node} (h : node.kind.isExpression = true) :
    node.kind ≠ .program := by
  intro hkind
  rw [hkind] at h
  cases h

/-- A statement of a list is no program. -/
theorem ne_program_of_isListed {node : Node} (h : node.kind.isListed = true) :
    node.kind ≠ .program := by
  intro hkind
  rw [hkind] at h
  cases h

/-- There are no programs below a node. -/
theorem FieldsFit.ne_program {node : Node} (h : node.FieldsFit) :
    ∀ child ∈ node.children, child.kind ≠ .program := by
  cases node with
  | program t statements | block t statements => exact fun s hs => ne_program_of_isListed (h s hs)
  | letStatement t name value =>
    simp [children, h.2.1, ne_program_of_isExpression h.2.2]
  | returnStatement t value => simp [children, ne_program_of_isExpression h.2]
  | expressionStatement t expression => simp [children, ne_program_of_isExpression h]
  | identifier | integer | boolean => simp [children]
  | prefixOp t operator right => simp [children, ne_program_of_isExpression h.2]
  | infixOp t left operator right =>
    simp [children, ne_program_of_isExpression h.2.1, ne_program_of_isExpression h.2.2]
  | conditional t condition consequence alternative =>
    cases alternative with
    | none => simp [children, ne_program_of_isExpression h.2.1, h.2.2.1]
    | some other => simp [children, ne_program_of_isExpression h.2.1, h.2.2.1, h.2.2.2 other rfl]
  | function t parameters body =>
    simp +contextual [children, or_imp, h.2.1, h.2.2]
  | call t callee arguments =>
    simp +contextual [children, ne_program_of_isExpression h.1, ne_program_of_isExpression, h.2]

end Node

/-- All tokens of a list are spelled as their kinds require. -/
def AllSpelled (stream : List Token) : Prop := ∀ t ∈ stream, t.Spelled

@[simp]
theorem allSpelled_cons (t : Token) (rest : List Token) :
    AllSpelled (t :: rest) ↔ t.Spelled ∧ AllSpelled rest := List.forall_mem_cons

namespace Derivation

/-- A name is well-formed. -/
theorem wellFormed_identifier {t : Token} (h : t.Spelled) (hkind : t.kind = .ident) :
    (Node.identifier t t.literal).WellFormed := by
  exact Node.wellFormed_iff.mpr ⟨h.ident hkind, by simp [Node.children]⟩

theorem StatementEnd.allSpelled {input after : List Token} (h : StatementEnd input after)
    (hinput : AllSpelled input) : AllSpelled after := by
  cases h with
  | semicolon => exact ((allSpelled_cons _ _).mp hinput).2
  | bare => exact hinput

/-- The names of a list of parameters are well-formed. -/
theorem MoreParameters.wellFormed {input after : List Token} {more : List Node}
    (h : MoreParameters input more after) (hinput : AllSpelled input) :
    (∀ p ∈ more, p.WellFormed ∧ p.kind = .identifier) ∧ AllSpelled after := by
  induction h with
  | close => exact ⟨by simp, ((allSpelled_cons _ _).mp hinput).2⟩
  | comma _ hname _ ih =>
    simp only [allSpelled_cons] at hinput
    obtain ⟨hmore, hafter⟩ := ih hinput.2.2
    exact ⟨List.forall_mem_cons.mpr ⟨⟨wellFormed_identifier hinput.2.1 hname, rfl⟩, hmore⟩, hafter⟩

theorem Parameters.wellFormed {input after : List Token} {parameters : List Node}
    (h : Parameters input parameters after) (hinput : AllSpelled input) :
    (∀ p ∈ parameters, p.WellFormed ∧ p.kind = .identifier) ∧ AllSpelled after := by
  cases h with
  | none => exact ⟨by simp, ((allSpelled_cons _ _).mp hinput).2⟩
  | some hname hmore =>
    simp only [allSpelled_cons] at hinput
    obtain ⟨hall, hafter⟩ := hmore.wellFormed hinput.2
    exact ⟨List.forall_mem_cons.mpr ⟨⟨wellFormed_identifier hinput.1 hname, rfl⟩, hall⟩, hafter⟩

/-- The literal of an operator is one of the spellings of operators. -/
theorem literal_mem_binaryOperators {level : Precedence} {op : Token} (h : op.Spelled)
    (hop : op.kind ∈ level.operators) : op.literal ∈ binaryOperators := by
  cases level <;> simp only [Precedence.operators, List.mem_cons, List.not_mem_nil, or_false] at hop <;>
    rcases hop with hop | hop <;> rw [h.literal_eq hop (by decide)] <;> decide

mutual

theorem Statements.wellFormed {input after : List Token} {statements : List Node} :
    Statements input statements after → AllSpelled input →
      (∀ s ∈ statements, s.WellFormed ∧ s.kind.isListed = true) ∧ AllSpelled after
  | .nil, hinput => ⟨by simp, hinput⟩
  | .cons hfirst hmore, hinput => by
    obtain ⟨hnode, hmid⟩ := hfirst.wellFormed hinput
    obtain ⟨hrest, hafter⟩ := hmore.wellFormed hmid
    exact ⟨List.forall_mem_cons.mpr ⟨hnode, hrest⟩, hafter⟩

theorem Statement.wellFormed {input after : List Token} {node : Node} :
    Statement input node after → AllSpelled input →
      (node.WellFormed ∧ node.kind.isListed = true) ∧ AllSpelled after
  | .letStatement hlet hname _ hvalue hend, hinput => by
    simp only [allSpelled_cons] at hinput
    obtain ⟨ht, hn, -, hrest⟩ := hinput
    obtain ⟨⟨hwell, hexpr⟩, hmid⟩ := hvalue.wellFormed hrest
    have hlit := ht.literal_eq hlet (by decide)
    refine ⟨⟨Node.wellFormed_iff.mpr ⟨⟨hlit, rfl, hexpr⟩, ?_⟩, rfl⟩, hend.allSpelled hmid⟩
    simp [Node.children, wellFormed_identifier hn hname, hwell]
  | .returnStatement hreturn hvalue hend, hinput => by
    simp only [allSpelled_cons] at hinput
    obtain ⟨⟨hwell, hexpr⟩, hmid⟩ := hvalue.wellFormed hinput.2
    have hlit := hinput.1.literal_eq hreturn (by decide)
    refine ⟨⟨Node.wellFormed_iff.mpr ⟨⟨hlit, hexpr⟩, ?_⟩, rfl⟩, hend.allSpelled hmid⟩
    simp [Node.children, hwell]
  | .expressionStatement hvalue hend, hinput => by
    obtain ⟨⟨hwell, hexpr⟩, hmid⟩ := hvalue.wellFormed hinput
    refine ⟨⟨Node.wellFormed_iff.mpr ⟨hexpr, ?_⟩, rfl⟩, hend.allSpelled hmid⟩
    simp [Node.children, hwell]

theorem Block.wellFormed {input after : List Token} {node : Node} :
    Block input node after → AllSpelled input →
      (node.WellFormed ∧ node.kind = .block) ∧ AllSpelled after
  | .closed _ hstatements _, hinput => by
    simp only [allSpelled_cons] at hinput
    obtain ⟨hall, hafter⟩ := hstatements.wellFormed hinput.2
    simp only [allSpelled_cons] at hafter
    exact ⟨⟨Node.wellFormed_iff.mpr ⟨fun s hs => (hall s hs).2, fun s hs => (hall s hs).1⟩, rfl⟩,
      hafter.2⟩
  | .unclosed _ hstatements, hinput => by
    simp only [allSpelled_cons] at hinput
    obtain ⟨hall, hafter⟩ := hstatements.wellFormed hinput.2
    exact ⟨⟨Node.wellFormed_iff.mpr ⟨fun s hs => (hall s hs).2, fun s hs => (hall s hs).1⟩, rfl⟩,
      hafter⟩

theorem Expression.wellFormed {level : Precedence} {input after : List Token} {node : Node} :
    Expression level input node after → AllSpelled input →
      (node.WellFormed ∧ node.kind.isExpression = true) ∧ AllSpelled after
  | .infixOp hop hleft hright, hinput => by
    obtain ⟨⟨hl, hlexpr⟩, hmid⟩ := hleft.wellFormed hinput
    simp only [allSpelled_cons] at hmid
    obtain ⟨⟨hr, hrexpr⟩, hafter⟩ := hright.wellFormed hmid.2
    refine ⟨⟨Node.wellFormed_iff.mpr
      ⟨⟨literal_mem_binaryOperators hmid.1 hop, hlexpr, hrexpr⟩, ?_⟩, rfl⟩, hafter⟩
    simp [Node.children, hl, hr]
  | .tighter _ h, hinput => h.wellFormed hinput
  | .prefixOp hop hright, hinput => by
    simp only [allSpelled_cons] at hinput
    obtain ⟨⟨hr, hexpr⟩, hafter⟩ := hright.wellFormed hinput.2
    have hlit := hop.imp (fun h => hinput.1.literal_eq h (by decide))
      (fun h => hinput.1.literal_eq h (by decide))
    refine ⟨⟨Node.wellFormed_iff.mpr ⟨⟨hlit, hexpr⟩, ?_⟩, rfl⟩, hafter⟩
    simp [Node.children, hr]
  | .call hcallee _ harguments, hinput => by
    obtain ⟨⟨hwell, hexpr⟩, hmid⟩ := hcallee.wellFormed hinput
    simp only [allSpelled_cons] at hmid
    obtain ⟨hall, hafter⟩ := harguments.wellFormed hmid.2
    refine ⟨⟨Node.wellFormed_iff.mpr ⟨⟨hexpr, fun a ha => (hall a ha).2⟩, ?_⟩, rfl⟩, hafter⟩
    exact List.forall_mem_cons.mpr ⟨hwell, fun a ha => (hall a ha).1⟩
  | .identifier h, hinput => by
    simp only [allSpelled_cons] at hinput
    exact ⟨⟨wellFormed_identifier hinput.1 h, rfl⟩, hinput.2⟩
  | .integer _ _ hle, hinput => by
    simp only [allSpelled_cons] at hinput
    refine ⟨⟨Node.wellFormed_iff.mpr ⟨⟨by omega, by omega⟩, by simp [Node.children]⟩, rfl⟩, hinput.2⟩
  | .yes _, hinput | .no _, hinput => by
    simp only [allSpelled_cons] at hinput
    exact ⟨⟨Node.wellFormed_iff.mpr ⟨trivial, by simp [Node.children]⟩, rfl⟩, hinput.2⟩
  | .group _ hinner _, hinput => by
    simp only [allSpelled_cons] at hinput
    obtain ⟨hnode, hclose⟩ := hinner.wellFormed hinput.2
    simp only [allSpelled_cons] at hclose
    exact ⟨hnode, hclose.2⟩
  | .conditional hif _ hcondition _ hbranches, hinput => by
    simp only [allSpelled_cons] at hinput
    obtain ⟨⟨hcond, hexpr⟩, hmid⟩ := hcondition.wellFormed hinput.2.2
    simp only [allSpelled_cons] at hmid
    obtain ⟨⟨hcons, hblock⟩, halt, hafter⟩ := hbranches.wellFormed hmid.2
    have hlit := hinput.1.literal_eq hif (by decide)
    refine ⟨⟨Node.wellFormed_iff.mpr ⟨⟨hlit, hexpr, hblock, fun a ha => (halt a ha).2⟩, ?_⟩, rfl⟩,
      hafter⟩
    refine List.forall_mem_cons.mpr ⟨hcond, List.forall_mem_cons.mpr ⟨hcons, fun a ha => ?_⟩⟩
    exact (halt a (Option.mem_toList.mp ha)).1
  | .function hfn _ hparameters hbody, hinput => by
    simp only [allSpelled_cons] at hinput
    obtain ⟨hall, hmid⟩ := hparameters.wellFormed hinput.2.2
    obtain ⟨⟨hwell, hblock⟩, hafter⟩ := hbody.wellFormed hmid
    have hlit := hinput.1.literal_eq hfn (by decide)
    refine ⟨⟨Node.wellFormed_iff.mpr ⟨⟨hlit, fun p hp => (hall p hp).2, hblock⟩, ?_⟩, rfl⟩, hafter⟩
    intro child hchild
    rcases List.mem_append.mp hchild with hp | hb
    · exact (hall child hp).1
    · exact List.mem_singleton.mp hb ▸ hwell

theorem Branches.wellFormed {input after : List Token} {consequence : Node}
    {alternative : Option Node} :
    Branches input consequence alternative after → AllSpelled input →
      (consequence.WellFormed ∧ consequence.kind = .block) ∧
      (∀ other ∈ alternative, other.WellFormed ∧ other.kind = .block) ∧ AllSpelled after
  | .one hblock, hinput => by
    obtain ⟨hwell, hafter⟩ := hblock.wellFormed hinput
    exact ⟨hwell, by simp, hafter⟩
  | .two hfirst _ hsecond, hinput => by
    obtain ⟨hwell, hmid⟩ := hfirst.wellFormed hinput
    simp only [allSpelled_cons] at hmid
    obtain ⟨hother, hafter⟩ := hsecond.wellFormed hmid.2
    exact ⟨hwell, by simpa using hother, hafter⟩

theorem Arguments.wellFormed {input after : List Token} {arguments : List Node} :
    Arguments input arguments after → AllSpelled input →
      (∀ a ∈ arguments, a.WellFormed ∧ a.kind.isExpression = true) ∧ AllSpelled after
  | .none _, hinput => ⟨by simp, ((allSpelled_cons _ _).mp hinput).2⟩
  | .some hfirst hmore, hinput => by
    obtain ⟨hnode, hmid⟩ := hfirst.wellFormed hinput
    obtain ⟨hrest, hafter⟩ := hmore.wellFormed hmid
    exact ⟨List.forall_mem_cons.mpr ⟨hnode, hrest⟩, hafter⟩

theorem MoreArguments.wellFormed {input after : List Token} {more : List Node} :
    MoreArguments input more after → AllSpelled input →
      (∀ a ∈ more, a.WellFormed ∧ a.kind.isExpression = true) ∧ AllSpelled after
  | .close _, hinput => ⟨by simp, ((allSpelled_cons _ _).mp hinput).2⟩
  | .comma _ hargument hmore, hinput => by
    simp only [allSpelled_cons] at hinput
    obtain ⟨hnode, hmid⟩ := hargument.wellFormed hinput.2
    obtain ⟨hrest, hafter⟩ := hmore.wellFormed hmid
    exact ⟨List.forall_mem_cons.mpr ⟨hnode, hrest⟩, hafter⟩

end

/-- A program that is derived from spelled tokens is well-formed. -/
theorem Program.wellFormed {stream : List Token} {node : Node} (h : Program stream node)
    (hstream : AllSpelled stream) : node.kind = .program ∧ node.WellFormed := by
  obtain ⟨hstatements⟩ := h
  obtain ⟨hall, -⟩ := hstatements.wellFormed hstream
  exact ⟨rfl, Node.wellFormed_iff.mpr ⟨fun s hs => (hall s hs).2, fun s hs => (hall s hs).1⟩⟩

end Derivation

end Monkey
