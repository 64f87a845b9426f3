import Mathlib
import Monkey.Proofs.Gluing
import Monkey.Proofs.PrintedDerivation
import Monkey.Proofs.ReferenceGrammar

/-!
# Parsing what was printed

The canonical form of a well-formed program is parsed back to a program of its shape exactly if no
statement in it runs into the next one. Two statements run into each other in two ways: the last word
or number of the first one is glued to the second one, or the second one starts with a parenthesis and
is read as the arguments of a call of the first one.

Each way leaves a trace that no other part of the text can make up for. Glued words are missing from
the words that the tokens hold, and where none are glued every statement that is called adds a call.
-/

namespace Monkey

namespace Node

/-- A statement runs into the statement after it: it is an expression, and the next statement starts
with a parenthesis, or it is a name or a truth value, or it is a number and a digit comes next. -/
def RunsInto : Node → Node → Prop
  | expressionStatement _ expression, second =>
    second.canonical.toList.head? = some '(' ∨
      expression.kind = .identifier ∨ expression.kind = .boolean ∨
      expression.kind = .integer ∧ second.canonical.toList.head?.any isDigit = true
  | _, _ => False

instance : DecidableRel RunsInto
  | expressionStatement .., _ => inferInstanceAs (Decidable (_ ∨ _ ∨ _ ∨ _ ∧ _))
  | program .., _ | letStatement .., _ | identifier .., _ | returnStatement .., _ | integer .., _
  | prefixOp .., _ | infixOp .., _ | boolean .., _ | conditional .., _ | block .., _
  | function .., _ | call .., _ => isFalse id

/-- No statement of a program, or of a block in it, runs into the next one. -/
def Separated (node : Node) : Prop :=
  node.Everywhere fun m => m.statements.IsChain fun first second => ¬ RunsInto first second

instance (node : Node) : Decidable node.Separated :=
  inferInstanceAs (Decidable (node.Everywhere _))

/-- A statement runs into the next one by calling it or by being glued to it. -/
theorem runsInto_iff {first second : Node} (hfirst : first.kind.isListed = true)
    (h : second.StartsAlike) :
    RunsInto first second ↔ CalledBy first second ∨ GluedTo first second := by
  obtain ⟨c, chars, t, rest, htext, hprinted, hstart⟩ := h
  have hhead : second.canonical.toList.head? = some c := congrArg List.head? htext
  have hparen : c = '(' ↔ t.kind = .lparen := by
    rcases hstart with ⟨hc, ht⟩ | ⟨hc, ht⟩
    · exact ⟨fun _ => ht, fun _ => hc⟩
    · constructor
      · rintro rfl
        rcases hc with hc | hc <;> exact absurd hc (by decide)
      · intro hlparen
        rw [hlparen] at ht
        cases ht
  have hword : c = '(' ∨ isWordChar c = true := by
    rcases hstart with ⟨hc, -⟩ | ⟨hc | hc, -⟩
    · exact .inl hc
    · exact .inr (isWordChar_of_isWordStart hc)
    · exact .inr (isWordChar_of_isDigit hc)
  cases first with
  | expressionStatement t' expression =>
    have hcalled : CalledBy (expressionStatement t' expression) second ↔ c = '(' := by
      simp [CalledBy, kind, hprinted, hparen]
    have hglued : GluedTo (expressionStatement t' expression) second ↔
        expression.kind.goesOn c = true := by
      simp [GluedTo, gluedInto, startsWith, htext, lastKind]
    have hruns : RunsInto (expressionStatement t' expression) second ↔
        (c = '(' ∨ expression.kind = .identifier ∨ expression.kind = .boolean ∨
          expression.kind = .integer ∧ isDigit c = true) := by
      simp [RunsInto, hhead]
    rw [hcalled, hglued, hruns]
    cases expression.kind <;> simp [NodeKind.goesOn, hword]
  | letStatement t' name value =>
    have hclosed : (letStatement t' name value).gluedInto second.text = 0 := gluedInto_of_closed rfl _
    simp [RunsInto, CalledBy, kind, GluedTo, hclosed]
  | returnStatement t' value =>
    have hclosed : (returnStatement t' value).gluedInto second.text = 0 := gluedInto_of_closed rfl _
    simp [RunsInto, CalledBy, kind, GluedTo, hclosed]
  | _ => cases hfirst

/-- The statements of a well-formed node are well-formed. -/
theorem WellFormed.statements {node : Node} (h : node.WellFormed) :
    ∀ s ∈ node.statements, s.WellFormed ∧ s.kind.isListed = true := by
  obtain ⟨hfit, hchildren⟩ := wellFormed_iff.mp h
  cases node with
  | program t all | block t all => exact fun s hs => ⟨hchildren s hs, hfit s hs⟩
  | _ => exact fun s hs => absurd hs List.not_mem_nil

/-- All nodes of a well-formed tree are roots of well-formed trees. -/
theorem WellFormed.everywhere {node : Node} (h : node.WellFormed) : node.Everywhere WellFormed := by
  induction node using childInduction with
  | step node ih =>
    have hchildren := (wellFormed_iff.mp h).2
    exact everywhere_iff.mpr ⟨h, fun child hchild => ih child hchild (hchildren child hchild)⟩

/-- In a list of statements none runs into the next one exactly if none is called and none is glued. -/
theorem isChain_iff {statements : List Node}
    (h : ∀ s ∈ statements, s.WellFormed ∧ s.kind.isListed = true) :
    (statements.IsChain fun first second => ¬ RunsInto first second) ↔
      pairCount CalledBy statements = 0 ∧ pairCount GluedTo statements = 0 := by
  induction statements with
  | nil => simp [pairCount]
  | cons first rest ih =>
    obtain ⟨⟨-, hlisted⟩, hrest⟩ := List.forall_mem_cons.mp h
    cases rest with
    | nil => simp [pairCount]
    | cons second rest =>
      obtain ⟨⟨hsecond, hkind⟩, -⟩ := List.forall_mem_cons.mp hrest
      have hruns := runsInto_iff hlisted (startsAlike hsecond (.inr hkind))
      rw [List.isChain_cons_cons, ih hrest, hruns, pairCount, pairCount]
      by_cases hcalled : CalledBy first second <;> by_cases hglued : GluedTo first second <;>
        simp [hcalled, hglued]

/-- A well-formed tree is separated exactly if no statement is called and none is glued. -/
theorem separated_iff {node : Node} (h : node.WellFormed) :
    node.Separated ↔ total calledWeight node = 0 ∧ total gluedWeight node = 0 := by
  rw [total_eq_zero_iff, total_eq_zero_iff]
  have hiff (m : Node) (hm : m ∈ node.walk) :
      (m.statements.IsChain fun first second => ¬ RunsInto first second) ↔
        calledWeight m = 0 ∧ gluedWeight m = 0 := isChain_iff (h.everywhere m hm).statements
  constructor
  · intro hseparated
    exact ⟨fun m hm => ((hiff m hm).mp (hseparated m hm)).1,
      fun m hm => ((hiff m hm).mp (hseparated m hm)).2⟩
  · rintro ⟨hcalled, hglued⟩ m hm
    exact (hiff m hm).mpr ⟨hcalled m hm, hglued m hm⟩

end Node

open Node

/-- The tokens of a text are all spelled and come before the end of input. -/
theorem unended_tokens (chars : List Char) : TokenStream.Unended (tokens chars) :=
  fun t ht => (spelled_of_mem_tokens t ht).kind_ne_eof

/-- What is parsed from a text is a well-formed program. -/
theorem wellFormed_of_parseTokens {levels : Nat} {chars : List Char} {node : Node}
    (h : parseTokens .standard levels (tokens chars) = .ok node) :
    node.kind = .program ∧ node.WellFormed :=
  (derivation_of_parseTokens (unended_tokens chars) h).wellFormed spelled_of_mem_tokens

/-- A derived program of the shape of a well-formed one forces that one to be separated. -/
theorem separated_of_derivation {node q : Node} (hkind : node.kind = .program)
    (h : node.WellFormed) (hq : q.SameShape node) (hderived : Derivation.Program (tokens node.text) q) :
    node.Separated := by
  obtain ⟨hwords, hcalls⟩ := hderived.tallied
  rw [← total_wordWeight_withoutTokens, hq.eq, total_wordWeight_withoutTokens] at hwords
  rw [← total_callWeight_withoutTokens, hq.eq, total_callWeight_withoutTokens] at hcalls
  have hfused := fusedBy_program h hkind
  have hle := hfused.words_le
  rw [wordCount_printed h, hwords] at hle
  have hglued : total gluedWeight node = 0 := by omega
  rw [hfused.eq_of_zero hglued, callCount_program h hkind] at hcalls
  exact (separated_iff h).mpr ⟨by omega, hglued⟩

/-- The text of a separated program holds its tokens. -/
theorem tokens_of_separated {node : Node} (hkind : node.kind = .program) (h : node.WellFormed)
    (hseparated : node.Separated) : tokens node.text = node.printed :=
  (fusedBy_program h hkind).eq_of_zero ((separated_iff h).mp hseparated).2

/-- The text of a separated program is parsed to a program of its shape, unless nesting is too deep. -/
theorem exists_parse_of_separated {node : Node} (hkind : node.kind = .program) (h : node.WellFormed)
    (hseparated : node.Separated) {levels : Nat}
    (hlimit : ∀ t, parseTokens .standard levels (tokens node.text) ≠
      .error (.invalid (.nestingTooDeep t))) :
    ∃ q, parseTokens .standard levels (tokens node.text) = .ok q ∧ q.SameShape node := by
  obtain ⟨q, hq, hderived⟩ := exists_derivation_printed h hkind
    (total_eq_zero_iff.mp ((separated_iff h).mp hseparated).1)
  rw [← tokens_of_separated hkind h hseparated] at hderived
  exact ⟨q, parseTokens_of_derivation hderived hlimit, hq⟩

/-- All parsed programs are well-formed, and the canonical form of a well-formed program is parsed to a
program of the same shape exactly if no statement in it runs into the next one. -/
theorem parses_back_iff_separated :
    (∀ (levels : Nat) (source : String) (node : Node),
      parseTokens .standard levels (tokens source.toList) = .ok node →
        node.kind = .program ∧ node.WellFormed) ∧
    ∀ (levels : Nat) (node : Node), node.kind = .program → node.WellFormed →
      (∀ t, parseTokens .standard levels (tokens node.canonical.toList) ≠
        .error (.invalid (.nestingTooDeep t))) →
      ((∃ q, parseTokens .standard levels (tokens node.canonical.toList) = .ok q ∧
        q.withoutTokens = node.withoutTokens) ↔ node.Separated) := by
  refine ⟨fun levels source node h => wellFormed_of_parseTokens h, ?_⟩
  intro levels node hkind h hlimit
  constructor
  · rintro ⟨q, hparse, hq⟩
    exact separated_of_derivation hkind h hq (derivation_of_parseTokens (unended_tokens _) hparse)
  · exact fun hseparated => exists_parse_of_separated hkind h hseparated hlimit

set_option maxRecDepth 20000 in
/-- A number is not glued to the keyword after it. -/
theorem parses_back_number_before_return :
    ∃ q, parse "1return 2;" = .ok q ∧ q.withoutTokens = Node.withoutTokens
      (.program .endOfInput [.expressionStatement ⟨.int, "1"⟩ (.integer ⟨.int, "1"⟩ 1),
        .returnStatement ⟨.kwReturn, "return"⟩ (.integer ⟨.int, "2"⟩ 2)]) := by
  have htext : Node.canonical
      (.program .endOfInput [.expressionStatement ⟨.int, "1"⟩ (.integer ⟨.int, "1"⟩ 1),
        .returnStatement ⟨.kwReturn, "return"⟩ (.integer ⟨.int, "2"⟩ 2)]) = "1return 2;" := by cbv
  have hparse : ∃ q, parse "1return 2;" = .ok q := ⟨_, by cbv⟩
  obtain ⟨q, hq⟩ := hparse
  rw [parse, ← htext] at hq ⊢
  refine (parses_back_iff_separated.2 _ _ rfl (by decide +kernel) fun t => ?_).mpr
    (by decide +kernel)
  rw [hq]
  simp

end Monkey
