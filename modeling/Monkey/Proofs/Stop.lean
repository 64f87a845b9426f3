import Monkey.Proofs.Derivation
import Monkey.Proofs.Refinement

/-!
# Where reading stops

A number whose text is not converted ends a parse, and it is then the current token. Conversely a
parse never passes such a number, nor stops at it for another reason, except that nesting is too
deep there.

The argument follows every reading to its end: one condition on the value and the stream where it
succeeds, and one on the failure and the stream where it fails.
-/

namespace Monkey

/-- A reading of a stream succeeds in a way that meets one condition, or fails in a way that meets
another one. -/
def Reading.Ends {α : Type} (reading : Reading α) (stream : TokenStream)
    (success : α → TokenStream → Prop) (failing : ParseFailure → TokenStream → Prop) : Prop :=
  match reading.run stream with
  | .done value rest => success value rest
  | .failed failure rest => failing failure rest

namespace Reading

variable {α β : Type} {stream : TokenStream} {reading : Reading α}
  {success : α → TokenStream → Prop} {failing : ParseFailure → TokenStream → Prop}

/-- A sequence ends well if its second part does after every end of the first one. -/
theorem Ends.bind {following : α → Reading β} {success' : β → TokenStream → Prop}
    (h : reading.Ends stream success failing)
    (hfollowing : ∀ value rest, success value rest → (following value).Ends rest success' failing) :
    (reading >>= following).Ends stream success' failing := by
  unfold Ends at h ⊢
  rw [run_bind]
  cases hrun : reading.run stream with
  | done value rest =>
    rw [hrun] at h
    exact hfollowing value rest h
  | failed failure rest =>
    rw [hrun] at h
    exact h

/-- What ends alike ends well alike. -/
theorem Ends.of_run_eq {other : Reading α} {stream' : TokenStream}
    (h : other.Ends stream' success failing) (heq : reading.run stream = other.run stream') :
    reading.Ends stream success failing := by
  unfold Ends at h ⊢
  rwa [heq]

/-- An expectation ends well if it fails well and what follows ends well after the token. -/
theorem Ends.expect {kind : TokenKind} {following : Unit → Reading β}
    {success' : β → TokenStream → Prop}
    (hfailing : failing (.invalid (.unexpectedToken kind stream.peek)) stream)
    (h : stream.peek.kind = kind → (following ()).Ends stream.advance success' failing) :
    (expect kind >>= following).Ends stream success' failing := by
  unfold Ends at h ⊢
  rw [run_bind_expect]
  by_cases hkind : stream.peek.kind = kind
  · rw [if_pos hkind]
    exact h hkind
  · rw [if_neg hkind]
    exact hfailing

end Reading

/-- A failed parse is a failed reading of a program. -/
theorem run_of_parseTokens_eq_error {rules : Rules} {levels : Nat} {stream : TokenStream}
    {failure : ParseFailure} (h : parseTokens rules levels stream = .error failure) :
    ∃ rest, (Grammar.program (Grammar.expression rules levels)).run stream = .failed failure rest := by
  unfold parseTokens at h
  cases hrun : (Grammar.program (Grammar.expression rules levels)).run stream with
  | done value rest =>
    rw [hrun] at h
    cases h
  | failed found rest =>
    rw [hrun] at h
    cases h
    exact ⟨rest, rfl⟩

/-- A token is a number whose text is not converted. -/
def Token.Unreadable (t : Token) (error : Text.NumeralError) : Prop :=
  t.kind = .int ∧ Text.Decimal.read t.literal = .error error

/-- The current token can be passed: it is no number whose text is not converted. -/
def TokenStream.Passable (stream : TokenStream) : Prop := ∀ error, ¬ stream.cur.Unreadable error

/-- Every token that is no number can be passed. -/
theorem TokenStream.passable_of_kind {stream : TokenStream} {kind : TokenKind}
    (h : stream.cur.kind = kind) (hkind : kind ≠ .int) : stream.Passable :=
  fun _ hunreadable => hkind (h.symm.trans hunreadable.1)

/-- A failure where a stream stops is that nesting is too deep, or it is that the current token is
not converted exactly if that token is not. -/
def ParseFailure.Explains (failure : ParseFailure) (stream : TokenStream) : Prop :=
  failure.IsNestingTooDeep ∨ ∀ error, failure = .unreadable error ↔ stream.cur.Unreadable error

/-- Any syntax error explains a stop at a token that can be passed. -/
theorem TokenStream.Passable.explains {stream : TokenStream} (h : stream.Passable)
    (error : SyntaxError) : (ParseFailure.invalid error).Explains stream :=
  .inr fun error' => ⟨fun hfalse => by simp at hfalse, fun hunreadable => absurd hunreadable (h error')⟩

namespace Grammar

open Reading TokenStream

/-- A reading stops at a token that can be passed, or for the reason that it cannot. -/
def Stops {α : Type} (reading : Reading α) (stream : TokenStream) : Prop :=
  reading.Ends stream (fun _ rest => rest.Passable) ParseFailure.Explains

variable {α : Type} {stream : TokenStream}

/-- A sequence stops well if its second part does wherever the first one has stopped. -/
theorem Stops.bind {β : Type} {reading : Reading α} {following : α → Reading β}
    (h : Stops reading stream)
    (hfollowing : ∀ value rest, rest.Passable → Stops (following value) rest) :
    Stops (reading >>= following) stream := Ends.bind h hfollowing

/-- An expectation from a token that can be passed stops well if what follows it does. -/
theorem Stops.expect {kind : TokenKind} {following : Unit → Reading α} (hpass : stream.Passable)
    (h : stream.peek.kind = kind → Stops (following ()) stream.advance) :
    Stops (Reading.expect kind >>= following) stream := Ends.expect (hpass.explains _) h

/-- An expected token that is no number can be passed. -/
theorem passable_advance {kind : TokenKind} (h : stream.peek.kind = kind) (hkind : kind ≠ .int) :
    stream.advance.Passable :=
  passable_of_kind (by rw [cur_advance, h]) hkind

/-- Looking at the current token does not stop. -/
theorem Stops.current {following : Token → Reading α} (h : Stops (following stream.cur) stream) :
    Stops (Reading.current >>= following) stream := h.of_run_eq (run_bind_current following stream)

/-- Looking at the next token does not stop. -/
theorem Stops.upcoming {following : Token → Reading α} (h : Stops (following stream.peek) stream) :
    Stops (Reading.upcoming >>= following) stream := h.of_run_eq (run_bind_upcoming following stream)

/-- Going on to the next token does not stop. -/
theorem Stops.advance {following : Unit → Reading α} (h : Stops (following ()) stream.advance) :
    Stops (Reading.advance >>= following) stream := h.of_run_eq (run_bind_advance following stream)

/-- A skipped token that is no number can be passed. -/
theorem Stops.skip {kind : TokenKind} {value : α} (hkind : kind ≠ .int) (hpass : stream.Passable) :
    Stops (do Reading.skip kind; give value) stream := by
  unfold Stops Ends
  rw [run_bind_skip, run_give]
  by_cases hnext : stream.peek.kind = kind
  · rw [if_pos hnext]
    exact passable_advance hnext hkind
  · rw [if_neg hnext]
    exact hpass

/-! ## Loops -/

theorem stops_membersAfter {item : Reading α}
    (h : ∀ stream : TokenStream, stream.Passable → Stops item stream) (read : List α)
    (hpass : stream.Passable) : Stops (membersAfter item read) stream := by
  induction hlen : stream.length using Nat.strongRecOn generalizing stream read with
  | ind len ih =>
    have hitem : stream.peek.kind = .comma → Stops item stream.advance := fun hcomma =>
      h stream.advance (passable_advance hcomma (by decide))
    have hsuffix := (item.rest_run_suffix stream.advance).length_le
    unfold Stops Ends Reading.run at hitem ⊢
    rw [membersAfter_eq]
    by_cases hcomma : stream.peek.kind = .comma
    · have hshort := TokenStream.length_advance_lt_of_peek
        (show stream.peek.kind ≠ .eof by simp [hcomma])
      specialize hitem hcomma
      rw [if_pos hcomma]
      unfold Reading.run at hsuffix ⊢
      cases hrun : (item stream.advance).val with
      | done member rest =>
        rw [hrun] at hitem hsuffix
        exact ih rest.length (by simp only [Outcome.rest] at hsuffix; omega) _ hitem rfl
      | failed failure rest =>
        rw [hrun] at hitem
        exact hitem
    · rw [if_neg hcomma]
      exact hpass

theorem stops_parenthesized {item : Reading α}
    (h : ∀ stream : TokenStream, stream.Passable → Stops item stream) (hpass : stream.Passable) :
    Stops (parenthesized item) stream := by
  refine Stops.upcoming ?_
  split
  · rename_i hclose
    exact .advance (passable_advance hclose (by decide))
  · exact (h stream hpass).bind fun first rest hfirst => (stops_membersAfter h [first] hfirst).bind
      fun all rest hmembers => .expect hmembers fun hclose => passable_advance hclose (by decide)

theorem stops_untilAfter {closer : TokenKind} {one : Reading α} (hcloser : closer ≠ .int)
    (h : ∀ stream : TokenStream, Stops one stream) (read : List α) :
    Stops (untilAfter closer one read) stream := by
  induction hlen : stream.length using Nat.strongRecOn generalizing stream read with
  | ind len ih =>
    have hone := h stream
    have hsuffix := (one.rest_run_suffix stream).length_le
    unfold Stops Ends Reading.run at hone ⊢
    rw [untilAfter_eq]
    by_cases hstop : stream.cur.kind = closer ∨ stream.cur.kind = .eof
    · rw [if_pos hstop]
      rcases hstop with hclose | heof
      · exact passable_of_kind hclose hcloser
      · exact passable_of_kind heof (by decide)
    · have hshort := TokenStream.length_advance_lt_of_cur fun heof => hstop (.inr heof)
      rw [if_neg hstop]
      unfold Reading.run at hsuffix ⊢
      cases hrun : (one stream).val with
      | done thing rest =>
        rw [hrun] at hsuffix
        refine ih rest.advance.length ?_ _ rfl
        simp only [Outcome.rest, TokenStream.advance, List.length_tail] at hsuffix hshort ⊢
        omega
      | failed failure rest =>
        rw [hrun] at hone
        exact hone

/-! ## Constructs -/

variable {nested : Nested}

theorem stops_statement (h : ∀ precedence stream, Stops (nested precedence) stream)
    (stream : TokenStream) : Stops (statement nested) stream := by
  refine Stops.current ?_
  split
  · rename_i hlet
    refine .current (.expect (passable_of_kind hlet (by decide)) fun hname => ?_)
    have hafter := passable_advance hname (by decide)
    have hidentifier : Stops identifier stream.advance := hafter
    refine hidentifier.bind fun name rest hrest => ?_
    refine .expect hrest fun _ => .advance ?_
    exact (h _ _).bind fun value rest hpass => .skip (by decide) hpass
  · exact .current (.advance ((h _ _).bind fun value rest hpass => .skip (by decide) hpass))
  · exact .current ((h _ _).bind fun value rest hpass => .skip (by decide) hpass)

theorem stops_blockStatement (h : ∀ precedence stream, Stops (nested precedence) stream)
    (stream : TokenStream) : Stops (blockStatement nested) stream :=
  .current (.advance ((stops_untilAfter (by decide) (stops_statement h) []).bind
    fun _ _ hpass => hpass))

theorem stops_program (h : ∀ precedence stream, Stops (nested precedence) stream)
    (stream : TokenStream) : Stops (program nested) stream :=
  (stops_untilAfter (by decide) (stops_statement h) []).bind fun _ _ hpass => .current hpass

theorem stops_integerLiteral (hint : stream.cur.kind = .int) : Stops integerLiteral stream := by
  unfold Stops Ends integerLiteral
  rw [run_bind_current]
  cases hread : Text.Decimal.read stream.cur.literal with
  | error error =>
    rw [run_fail]
    exact .inr fun error' => by simp [Token.Unreadable, hint, hread]
  | ok value =>
    have hpass : stream.Passable := fun error hunreadable => by simp [hunreadable.2] at hread
    simp only [run_ite, run_reject, run_give]
    by_cases hlarge : maxInteger < value
    · rw [if_pos hlarge]
      exact hpass.explains _
    · rw [if_neg hlarge]
      exact hpass

/-- What a rule reads stops well from the tokens that choose it. -/
theorem stops_applyPrefix (h : ∀ precedence stream, Stops (nested precedence) stream)
    {rule : PrefixRule} (hrule : Rules.standard.prefixRule? stream.cur.kind = some rule) :
    Stops (applyPrefix nested rule) stream := by
  have hkind : rule ≠ .integer → stream.Passable := fun hne =>
    fun error hunreadable => hne (by rw [hunreadable.1] at hrule; exact (Option.some.inj hrule).symm)
  cases rule with
  | identifier => exact hkind (by decide)
  | integer =>
    refine stops_integerLiteral ?_
    revert hrule
    cases stream.cur.kind <;> simp [Rules.standard]
  | boolean => exact hkind (by decide)
  | operator =>
    exact .current (.advance ((h _ _).bind fun _ _ hpass => hpass))
  | group =>
    refine .advance ((h _ _).bind fun inner rest hpass => .expect hpass fun hclose => ?_)
    exact passable_advance hclose (by decide)
  | conditional =>
    refine .current (.expect (hkind (by decide)) fun _ => .advance ((h _ _).bind ?_))
    intro condition rest hcondition
    refine .expect hcondition fun hclose => .expect (passable_advance hclose (by decide)) fun _ => ?_
    refine (stops_blockStatement h _).bind fun consequence last hblock => .upcoming ?_
    split
    · rename_i helse
      refine .advance (.expect (passable_advance helse (by decide)) fun _ => ?_)
      exact (stops_blockStatement h _).bind fun _ _ hpass => hpass
    · exact hblock
  | function =>
    refine .current (.expect (hkind (by decide)) fun hopen => ?_)
    refine (stops_parenthesized (fun stream hpass => ?_) (passable_advance hopen (by decide))).bind ?_
    · exact .expect hpass fun hname => passable_advance hname (by decide)
    · intro parameters rest hparameters
      exact .expect hparameters fun _ => (stops_blockStatement h _).bind fun _ _ hpass => hpass

theorem stops_applyInfix (h : ∀ precedence stream, Stops (nested precedence) stream)
    {rule : InfixRule} {left : Node} (hrule : Rules.standard.infixRule? stream.cur.kind = some rule) :
    Stops (applyInfix nested rule left) stream := by
  cases rule with
  | operator => exact .current (.advance ((h _ _).bind fun _ _ hpass => hpass))
  | call =>
    have hpass := passable_of_kind (Precedence.eq_lparen_of_infixRule hrule) (by decide)
    refine .current ((stops_parenthesized (fun stream _ => ?_) hpass).bind fun _ _ hpass => hpass)
    exact .advance (h _ _)

theorem stops_operand (h : ∀ precedence stream, Stops (nested precedence) stream)
    (stream : TokenStream) : Stops (operand .standard nested) stream := by
  refine .current ?_
  split
  · rename_i hnone
    have hpass : stream.Passable := fun error hunreadable => by
      rw [hunreadable.1] at hnone
      exact absurd hnone (by decide)
    exact hpass.explains _
  · rename_i rule hrule
    exact stops_applyPrefix h hrule

theorem stops_continued (h : ∀ precedence stream, Stops (nested precedence) stream)
    (precedence : Precedence) (left : Node) (hpass : stream.Passable) :
    Stops (continued .standard nested precedence left) stream := by
  induction hlen : stream.length using Nat.strongRecOn generalizing stream left with
  | ind len ih =>
    unfold Stops Ends
    rw [run_continued]
    by_cases hbinds : precedence < .ofKind stream.peek.kind
    · rw [if_pos hbinds]
      cases hrule : Rules.standard.infixRule? stream.peek.kind with
      | none => exact hpass.explains _
      | some rule =>
        have happlied : Stops (applyInfix nested rule left) stream.advance :=
          stops_applyInfix h (by rw [cur_advance, hrule])
        have hsuffix := ((applyInfix nested rule left).rest_run_suffix stream.advance).length_le
        have hpeek := Precedence.ne_eof_of_lt hbinds
        have hshort := TokenStream.length_advance_lt_of_peek hpeek
        unfold Stops Ends at happlied
        dsimp only
        cases hrun : (applyInfix nested rule left).run stream.advance with
        | done longer rest =>
          rw [hrun] at happlied hsuffix
          exact ih rest.length (by simp only [Outcome.rest] at hsuffix; omega) longer happlied rfl
        | failed failure rest =>
          rw [hrun] at happlied
          exact happlied
    · rw [if_neg hbinds]
      exact hpass

/-- Expressions stop well at every number of levels. -/
theorem stops_expression (levels : Nat) (precedence : Precedence) (stream : TokenStream) :
    Stops (expression .standard levels precedence) stream := by
  induction levels generalizing precedence stream with
  | zero => exact .current (.inl ⟨_, rfl⟩)
  | succ levels ih =>
    exact (stops_operand ih stream).bind fun left rest hpass => stops_continued ih precedence left hpass

/-- The failure of a whole program explains where the parse has stopped. -/
theorem explains_of_run_program {levels : Nat} {failure : ParseFailure} {rest : TokenStream}
    (h : (program (expression .standard levels)).run stream = .failed failure rest) :
    failure.Explains rest := by
  have hstops := stops_program (stops_expression levels) stream
  unfold Stops Ends at hstops
  rwa [h] at hstops

end Grammar

/-- Where all numbers are converted, a parse that fails reports a syntax error. -/
theorem exists_invalid_of_parseTokens {levels : Nat} {stream : TokenStream} {failure : ParseFailure}
    (hread : ∀ t ∈ stream, t.kind = .int → ∃ value, Text.Decimal.read t.literal = .ok value)
    (h : parseTokens .standard levels stream = .error failure) :
    ∃ error, failure = .invalid error := by
  cases failure with
  | invalid error => exact ⟨error, rfl⟩
  | unreadable error =>
    obtain ⟨rest, hrun⟩ := run_of_parseTokens_eq_error h
    have hunreadable : rest.cur.Unreadable error := by
      rcases Grammar.explains_of_run_program hrun with ⟨_, hdeep⟩ | hexplains
      · cases hdeep
      · exact (hexplains error).mp rfl
    have hmem : rest.cur ∈ stream := by
      have hsuffix := (Grammar.program (Grammar.expression .standard levels)).rest_run_suffix stream
      rw [hrun] at hsuffix
      have hcons := TokenStream.eq_cons_of_cur rest (by simp [hunreadable.1])
      rw [hcons] at hsuffix
      exact hsuffix.subset List.mem_cons_self
    obtain ⟨value, hvalue⟩ := hread _ hmem hunreadable.1
    rw [hunreadable.2] at hvalue
    cases hvalue

end Monkey
