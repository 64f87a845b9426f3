import Mathlib
import Monkey.Proofs.Completeness
import Monkey.Proofs.Soundness
import Monkey.Proofs.Stop

/-!
# Parsing agrees with the reference grammar

A stream is parsed to a program exactly when the reference grammar derives the program from it, as
long as the limit on nesting is not reached. A stream derives at most one program, and one that
derives none is answered with a syntax error.

The limit is no part of the grammar, so completeness is first shown for all sufficiently large
limits; that a smaller one makes no difference unless it is reported comes in afterwards.
-/

namespace Monkey

open Filter Grammar

variable {stream : List Token} {node other : Node}

/-- A derived program is parsed with every sufficiently large limit on nesting. -/
theorem eventually_parseTokens (h : Derivation.Program stream node) :
    ∀ᶠ levels in atTop, parseTokens .standard levels stream = .ok node := by
  obtain ⟨hstatements⟩ := h
  filter_upwards [eventually_statements hstatements] with levels hturns
  have hrun := run_program_eq_done.mpr ⟨_, hturns .eof (by simp) (.inl rfl), rfl⟩
  rw [parseTokens, hrun]
  rfl

/-- A derived program is parsed with every limit on nesting that is not reached. -/
theorem parseTokens_of_derivation {levels : Nat} (h : Derivation.Program stream node)
    (hlimit : ∀ t, parseTokens .standard levels stream ≠ .error (.invalid (.nestingTooDeep t))) :
    parseTokens .standard levels stream = .ok node := by
  obtain ⟨more, hle, hmore⟩ :=
    ((eventually_ge_atTop levels).and (eventually_parseTokens h)).exists
  rcases parseTokens_of_le .standard hle stream with ⟨t, hdeep⟩ | heq
  · exact absurd hdeep (hlimit t)
  · rw [heq, hmore]

/-- A stream derives at most one program. -/
theorem Derivation.Program.unique (h : Derivation.Program stream node)
    (hother : Derivation.Program stream other) : node = other := by
  obtain ⟨levels, hnode, hother⟩ :=
    ((eventually_parseTokens h).and (eventually_parseTokens hother)).exists
  exact Except.ok.inj (hnode.symm.trans hother)

/-- Parsing decides the reference grammar: it finds the only program that a stream derives, and it
ends in a syntax error if there is none. -/
theorem parseTokens_decides_derivation {levels : Nat} (hstream : TokenStream.Unended stream)
    (hread : ∀ t ∈ stream, t.kind = .int → ∃ value, Text.Decimal.read t.literal = .ok value)
    (hlimit : ∀ t, parseTokens .standard levels stream ≠ .error (.invalid (.nestingTooDeep t))) :
    (∀ node, parseTokens .standard levels stream = .ok node ↔ Derivation.Program stream node) ∧
      (∀ node other, Derivation.Program stream node → Derivation.Program stream other →
        node = other) ∧
      ((∀ node, ¬ Derivation.Program stream node) →
        ∃ error, parseTokens .standard levels stream = .error (.invalid error)) := by
  have hiff : ∀ node, parseTokens .standard levels stream = .ok node ↔
      Derivation.Program stream node := fun node =>
    ⟨derivation_of_parseTokens hstream, fun h => parseTokens_of_derivation h hlimit⟩
  refine ⟨hiff, fun node other h hother => h.unique hother, fun hnone => ?_⟩
  cases hparse : parseTokens .standard levels stream with
  | ok node => exact absurd ((hiff node).mp hparse) (hnone node)
  | error failure =>
    obtain ⟨error, rfl⟩ := exists_invalid_of_parseTokens hread hparse
    exact ⟨error, rfl⟩

set_option maxRecDepth 20000 in
/-- The block of `fn() { 1` is not closed, and the stream holds a program nevertheless. -/
theorem derivation_of_unclosed_function :
    Derivation.Program
      [⟨.kwFunction, "fn"⟩, ⟨.lparen, "("⟩, ⟨.rparen, ")"⟩, ⟨.lbrace, "\x7b"⟩, ⟨.int, "1"⟩]
      (.program .endOfInput [.expressionStatement ⟨.kwFunction, "fn"⟩ (.function ⟨.kwFunction, "fn"⟩ []
        (.block ⟨.lbrace, "\x7b"⟩ [.expressionStatement ⟨.int, "1"⟩ (.integer ⟨.int, "1"⟩ 1)]))]) := by
  have hparse : parseTokens .standard nestingLimit
      [⟨.kwFunction, "fn"⟩, ⟨.lparen, "("⟩, ⟨.rparen, ")"⟩, ⟨.lbrace, "\x7b"⟩, ⟨.int, "1"⟩] =
      .ok (.program .endOfInput [.expressionStatement ⟨.kwFunction, "fn"⟩ (.function ⟨.kwFunction, "fn"⟩
        [] (.block ⟨.lbrace, "\x7b"⟩ [.expressionStatement ⟨.int, "1"⟩ (.integer ⟨.int, "1"⟩ 1)]))]) := by
    cbv
  refine ((parseTokens_decides_derivation ?_ ?_ ?_).1 _).mp hparse
  · intro t ht
    simp only [List.mem_cons, List.not_mem_nil, or_false] at ht
    rcases ht with rfl | rfl | rfl | rfl | rfl <;> decide
  · intro t ht hint
    simp only [List.mem_cons, List.not_mem_nil, or_false] at ht
    rcases ht with rfl | rfl | rfl | rfl | rfl <;> simp at hint
    exact ⟨1, by cbv⟩
  · intro t hdeep
    rw [hparse] at hdeep
    cases hdeep

end Monkey
