import Monkey.Node.Equality
import Monkey.Proofs.RoundTrip

/-!
# Canonical forms that are their own canonical form

Statements follow each other without a separator in a canonical form, so the canonical form of a program
need not be read as that program, and what it is read as need not have the same canonical form. It has
exactly if the text is the canonical form of a program whose statements do not run into each other, be it
the program that was printed or another one.
-/

namespace Monkey

open Node

/-- Programs of the same shape have the same canonical form. -/
theorem canonical_eq_of_sameShape {node q : Node} (h : node.WellFormed) (hq : q.WellFormed)
    (hshape : q.SameShape node) : q.canonical = node.canonical := by
  rw [← canonical_withoutTokens hq, hshape.eq, canonical_withoutTokens h]

/-- The canonical form of a parsed program is parsed to a program with the same canonical form exactly
if it is the canonical form of a separated program. In particular it is if the parsed program is
separated. -/
theorem canonical_idempotent_iff {levels : Nat} {source : String} {node : Node}
    (hparse : parseTokens .standard levels (tokens source.toList) = .ok node)
    (hlimit : ∀ t, parseTokens .standard levels (tokens node.canonical.toList) ≠
      .error (.invalid (.nestingTooDeep t))) :
    ((∃ q, parseTokens .standard levels (tokens node.canonical.toList) = .ok q ∧
        q.canonical = node.canonical) ↔
      ∃ r : Node, r.kind = .program ∧ r.WellFormed ∧ r.Separated ∧ r.canonical = node.canonical) ∧
    (node.Separated → ∃ q, parseTokens .standard levels (tokens node.canonical.toList) = .ok q ∧
      q.canonical = node.canonical) := by
  have hof (r : Node) (hkind : r.kind = .program) (hr : r.WellFormed) (hseparated : r.Separated)
      (heq : r.canonical = node.canonical) :
      ∃ q, parseTokens .standard levels (tokens node.canonical.toList) = .ok q ∧
        q.canonical = node.canonical := by
    rw [← heq] at hlimit ⊢
    obtain ⟨q, hq, hshape⟩ := exists_parse_of_separated hkind hr hseparated hlimit
    exact ⟨q, hq, canonical_eq_of_sameShape hr (wellFormed_of_parseTokens hq).2 hshape⟩
  obtain ⟨hkind, hwell⟩ := wellFormed_of_parseTokens hparse
  refine ⟨⟨?_, fun ⟨r, hrkind, hr, hseparated, heq⟩ => hof r hrkind hr hseparated heq⟩,
    fun hseparated => hof node hkind hwell hseparated rfl⟩
  rintro ⟨q, hq, heq⟩
  obtain ⟨hqkind, hqwell⟩ := wellFormed_of_parseTokens hq
  have hderived := derivation_of_parseTokens (unended_tokens _) hq
  refine ⟨q, hqkind, hqwell, separated_of_derivation hqkind hqwell rfl ?_, heq⟩
  rw [Node.text, heq]
  exact hderived

set_option maxRecDepth 20000 in
/-- A number and a declaration stay apart when they are printed without a space. -/
theorem canonical_idempotent_number_before_let :
    ∃ q, parse "1let a = (!b);" = .ok q ∧ q.canonical = "1let a = (!b);" := by
  have hparse : parse "1 let a = !b;" = .ok
      (.program .endOfInput [.expressionStatement ⟨.int, "1"⟩ (.integer ⟨.int, "1"⟩ 1),
        .letStatement ⟨.kwLet, "let"⟩ (.identifier ⟨.ident, "a"⟩ "a")
          (.prefixOp ⟨.bang, "!"⟩ "!" (.identifier ⟨.ident, "b"⟩ "b"))]) := by decide +kernel
  have htext : Node.canonical
      (.program .endOfInput [.expressionStatement ⟨.int, "1"⟩ (.integer ⟨.int, "1"⟩ 1),
        .letStatement ⟨.kwLet, "let"⟩ (.identifier ⟨.ident, "a"⟩ "a")
          (.prefixOp ⟨.bang, "!"⟩ "!" (.identifier ⟨.ident, "b"⟩ "b"))]) = "1let a = (!b);" := by
    decide +kernel
  have hagain : ∃ q, parse "1let a = (!b);" = .ok q := ⟨_, by cbv⟩
  obtain ⟨q, hq⟩ := hagain
  rw [parse, ← htext] at hq ⊢
  refine (canonical_idempotent_iff hparse fun t => ?_).2 (by decide +kernel)
  rw [hq]
  simp

set_option maxRecDepth 20000 in
/-- A name in front of an operator becomes a call of the name, whose canonical form is longer. -/
theorem canonical_not_idempotent :
    ¬ ∀ (source : String) (node : Node), parse source = .ok node →
      (∀ t, parse node.canonical ≠ .error (.invalid (.nestingTooDeep t))) →
      ∃ q, parse node.canonical = .ok q ∧ q.canonical = node.canonical := by
  intro hidempotent
  have hparse : parse "a; !b" = .ok (.program .endOfInput
      [.expressionStatement ⟨.ident, "a"⟩ (.identifier ⟨.ident, "a"⟩ "a"),
        .expressionStatement ⟨.bang, "!"⟩
          (.prefixOp ⟨.bang, "!"⟩ "!" (.identifier ⟨.ident, "b"⟩ "b"))]) := by decide +kernel
  have htext : Node.canonical (.program .endOfInput
      [.expressionStatement ⟨.ident, "a"⟩ (.identifier ⟨.ident, "a"⟩ "a"),
        .expressionStatement ⟨.bang, "!"⟩
          (.prefixOp ⟨.bang, "!"⟩ "!" (.identifier ⟨.ident, "b"⟩ "b"))]) = "a(!b)" := by decide +kernel
  have hagain : ∃ q, parse "a(!b)" = .ok q ∧ q.canonical = "a((!b))" := ⟨_, by cbv, by cbv⟩
  obtain ⟨q, hq, hqtext⟩ := hagain
  have hresult := hidempotent _ _ hparse
  rw [htext, hq] at hresult
  obtain ⟨p, hp, hptext⟩ := hresult (by simp)
  cases hp
  rw [hqtext] at hptext
  exact absurd hptext (by decide)

end Monkey
