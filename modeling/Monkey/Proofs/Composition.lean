import Monkey.Node.Equality
import Monkey.Proofs.Extension
import Monkey.Proofs.Lookahead
import Monkey.Proofs.Soundness
import Monkey.Proofs.TokenBoundary

/-!
# Programs one after the other

Where a program ends with a semicolon, any text can follow it: what the parser makes of the text does
not depend on the program before it. The semicolon is no part of a longer token, it is the last token
that the statement before it looks at, and each statement starts with all levels of nesting.

The semicolon has to be that of the last statement, and not one inside a block that is ended by the end
of input, since such a block would go on with the text. The braces tell these cases apart: each block
has an opening one, and a closing one unless the end of input ends it.
-/

namespace Monkey

/-- The outcome for a value that is made from what was read. -/
def Outcome.map {α β : Type} (f : α → β) : Outcome α → Outcome β
  | done value rest => .done (f value) rest
  | failed failure rest => .failed failure rest

/-- A stream ends with a semicolon, outside of any block. -/
structure TokenStream.Terminated (stream : TokenStream) : Prop where
  last : ∃ t ∈ stream.getLast?, t.kind = .semicolon
  closed : openingBraces stream = closingBraces stream

variable {front back : List Token} {stream rest : TokenStream}

/-- What follows the first tokens is terminated as well if no block is left open by them. -/
theorem TokenStream.Terminated.of_append (h : TokenStream.Terminated (front ++ rest))
    (hcount : openingBraces front = closingBraces front) (hne : rest ≠ []) :
    TokenStream.Terminated rest where
  last := by
    obtain ⟨t, ht, hkind⟩ := h.last
    rw [List.getLast?_append_of_ne_nil front hne] at ht
    exact ⟨t, ht, hkind⟩
  closed := by
    have hclosed := h.closed
    rw [openingBraces_append, closingBraces_append] at hclosed
    omega

/-- The end of input ends no block of a program exactly if its statements are derived before any other
token as well that does not go on with an expression. -/
theorem closed_iff_derived_before {statements : List Node} {t : Token}
    (h : Derivation.Statements stream statements []) (ht : ¬ t.kind.ContinuesExpression) :
    openingBraces stream = closingBraces stream ↔
      Derivation.Statements (stream ++ [t]) statements [t] := by
  constructor
  · intro hclosed
    obtain ⟨front, n, hextends⟩ := h.extends
    obtain rfl : stream = front := by simpa using hextends.eq
    obtain rfl : n = 0 := by have := hextends.count; omega
    exact hextends.extend [t] (.inr ht)
  · intro hbefore
    obtain ⟨front, n, hextends⟩ := hbefore.extends
    obtain rfl := List.append_cancel_right hextends.eq
    simpa [hextends.closed] using hextends.count

namespace Grammar

open TokenStream

variable {nested : Nested} {node : Node}

end Grammar

end Monkey
