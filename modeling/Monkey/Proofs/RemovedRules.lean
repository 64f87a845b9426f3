import Mathlib
import Monkey.Proofs.Refinement

/-!
# Parsing with fewer rules

A rule that is removed is missed where it would be applied first, and the parse ends there. A token keeps
its precedence without its rule, so the operator that has lost its rule neither ends the expression before
it nor starts a statement of its own. Until then nothing has changed. So with fewer rules a text has the
same tree, or the same error, or is refused for want of a rule that was removed.
-/

namespace Monkey

namespace Rules

/-- The rules without those for expressions that start with a token of certain kinds and without those that
continue an expression by a token of certain kinds. -/
def without (rules : Rules) (prefixes infixes : List TokenKind) : Rules :=
  infixes.foldl withoutInfix (prefixes.foldl withoutPrefix rules)

theorem prefixRule?_foldl_withoutPrefix (kinds : List TokenKind) (rules : Rules) (kind : TokenKind) :
    (kinds.foldl withoutPrefix rules).prefixRule? kind =
      if kind ∈ kinds then none else rules.prefixRule? kind := by
  induction kinds generalizing rules with
  | nil => simp
  | cons first kinds ih =>
    rw [List.foldl_cons, ih, prefixRule?_withoutPrefix]
    by_cases hfirst : kind = first <;> simp [hfirst]

theorem infixRule?_foldl_withoutInfix (kinds : List TokenKind) (rules : Rules) (kind : TokenKind) :
    (kinds.foldl withoutInfix rules).infixRule? kind =
      if kind ∈ kinds then none else rules.infixRule? kind := by
  induction kinds generalizing rules with
  | nil => simp
  | cons first kinds ih =>
    rw [List.foldl_cons, ih, infixRule?_withoutInfix]
    by_cases hfirst : kind = first <;> simp [hfirst]

theorem infixRule?_foldl_withoutPrefix (kinds : List TokenKind) (rules : Rules) :
    (kinds.foldl withoutPrefix rules).infixRule? = rules.infixRule? := by
  induction kinds generalizing rules with
  | nil => rfl
  | cons first kinds ih => exact ih (rules.withoutPrefix first)

theorem prefixRule?_foldl_withoutInfix (kinds : List TokenKind) (rules : Rules) :
    (kinds.foldl withoutInfix rules).prefixRule? = rules.prefixRule? := by
  induction kinds generalizing rules with
  | nil => rfl
  | cons first kinds ih => exact ih (rules.withoutInfix first)

variable (rules : Rules) (prefixes infixes : List TokenKind) (kind : TokenKind)

/-- The rules of the given kinds are no longer there, and the others are unchanged. -/
theorem prefixRule?_without : (rules.without prefixes infixes).prefixRule? kind =
    if kind ∈ prefixes then none else rules.prefixRule? kind := by
  rw [without, prefixRule?_foldl_withoutInfix, prefixRule?_foldl_withoutPrefix]

theorem infixRule?_without : (rules.without prefixes infixes).infixRule? kind =
    if kind ∈ infixes then none else rules.infixRule? kind := by
  rw [without, infixRule?_foldl_withoutInfix, infixRule?_foldl_withoutPrefix]

end Rules

/-- A parse failed for want of a rule that there was before rules of certain kinds were removed. -/
inductive ParseFailure.IsRemoval (rules : Rules) (prefixes infixes : List TokenKind) : ParseFailure → Prop
  | prefixRule {t : Token} : t.kind ∈ prefixes → rules.prefixRule? t.kind ≠ none →
      IsRemoval rules prefixes infixes (.invalid (.missingPrefixRule t))
  | infixRule {t : Token} : t.kind ∈ infixes → rules.infixRule? t.kind ≠ none →
      IsRemoval rules prefixes infixes (.invalid (.missingInfixRule t))

namespace Grammar

variable {excused : ParseFailure → Prop} {fewer rules : Rules}

theorem rulesRefine_without (rules : Rules) (prefixes infixes : List TokenKind) :
    RulesRefine (ParseFailure.IsRemoval rules prefixes infixes) (rules.without prefixes infixes) rules where
  prefixRule t := by
    rw [Rules.prefixRule?_without]
    by_cases hrule : rules.prefixRule? t.kind = none
    · exact .inl (by simp [hrule])
    · by_cases hremoved : t.kind ∈ prefixes
      · exact .inr ⟨if_pos hremoved, .prefixRule hremoved hrule⟩
      · exact .inl (if_neg hremoved)
  infixRule t := by
    rw [Rules.infixRule?_without]
    by_cases hrule : rules.infixRule? t.kind = none
    · exact .inl (by simp [hrule])
    · by_cases hremoved : t.kind ∈ infixes
      · exact .inr ⟨if_pos hremoved, .infixRule hremoved hrule⟩
      · exact .inl (if_neg hremoved)

/-- Missing rules make no difference to expressions other than that they are missed, at any limit on
nesting. -/
theorem nestedRefines_of_rulesRefine (h : RulesRefine excused fewer rules) (levels : Nat) :
    NestedRefines excused (expression fewer levels) (expression rules levels) := by
  induction levels with
  | zero => exact fun _ => .refl _
  | succ levels ih => exact ih.expressionFrom h

end Grammar

/-- With fewer rules, and at any limit on nesting, a parse ends as with all of them, in the same tree or with
the same failure, or fails for want of a rule that was removed, at a token of its kind. So every text that is
accepted has the same tree with all rules. -/
theorem removing_rules_only_removes_programs (rules : Rules) (prefixes infixes : List TokenKind) (levels : Nat)
    (stream : TokenStream) :
    (parseTokens (rules.without prefixes infixes) levels stream = parseTokens rules levels stream ∨
      (∃ t, t.kind ∈ prefixes ∧ rules.prefixRule? t.kind ≠ none ∧
        parseTokens (rules.without prefixes infixes) levels stream =
          .error (.invalid (.missingPrefixRule t))) ∨
      ∃ t, t.kind ∈ infixes ∧ rules.infixRule? t.kind ≠ none ∧
        parseTokens (rules.without prefixes infixes) levels stream =
          .error (.invalid (.missingInfixRule t))) ∧
    ∀ node, parseTokens (rules.without prefixes infixes) levels stream = .ok node →
      parseTokens rules levels stream = .ok node := by
  have hrules := Grammar.rulesRefine_without rules prefixes infixes
  rcases (Grammar.nestedRefines_of_rulesRefine hrules levels).program stream with
    ⟨failure, rest, hremoval, hrun⟩ | hsame
  · have hfails : parseTokens (rules.without prefixes infixes) levels stream = .error failure := by
      rw [parseTokens, hrun]
      rfl
    refine ⟨.inr ?_, fun node hnode => ?_⟩
    · cases hremoval with
      | prefixRule hkind hrule => exact .inl ⟨_, hkind, hrule, hfails⟩
      | infixRule hkind hrule => exact .inr ⟨_, hkind, hrule, hfails⟩
    · rw [hfails] at hnode
      cases hnode
  · have hresult : parseTokens (rules.without prefixes infixes) levels stream =
        parseTokens rules levels stream := congrArg Outcome.result hsame
    exact ⟨.inl hresult, fun node hnode => hresult.symm.trans hnode⟩

set_option maxRecDepth 20000 in
/-- A text without the operators that have lost their rules is accepted with the same tree. -/
theorem accepted_without_minus :
    ∃ node, parseTokens (Rules.standard.without [.minus] [.minus, .lparen]) 10
        (tokens "let a = !b + 1; (a)".toList) = .ok node ∧
      parseTokens .standard 10 (tokens "let a = !b + 1; (a)".toList) = .ok node := by
  have haccepted : ∃ node, parseTokens (Rules.standard.without [.minus] [.minus, .lparen]) 10
      (tokens "let a = !b + 1; (a)".toList) = .ok node := ⟨_, by cbv⟩
  obtain ⟨node, hnode⟩ := haccepted
  exact ⟨node, hnode, (removing_rules_only_removes_programs .standard _ _ 10 _).2 node hnode⟩

end Monkey
