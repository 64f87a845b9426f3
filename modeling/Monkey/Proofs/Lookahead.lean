import Monkey.Proofs.Run

/-!
# How far a reading looks

No reading looks further than the token after the current one. Two streams that agree up to a certain
token are therefore read alike as long as the reading ends before that token: with the same value or the
same failure, after the same tokens.

What a reading has not looked at is determined by how it ended. It has seen the token after the current
one if it succeeded, or if that token was refused; it may not have seen it if the current token was
refused. This distinction is what makes the statement compose, since going on to the next token is no
reason to look beyond it.
-/

namespace Monkey

/-- An error concerns the token after the current one. -/
def SyntaxError.isAtNext : SyntaxError → Bool
  | unexpectedToken .. | missingInfixRule _ => true
  | missingPrefixRule _ | invalidInteger _ | nestingTooDeep _ => false

/-- A failure concerns the token after the current one. -/
def ParseFailure.isAtNext : ParseFailure → Bool
  | invalid error => error.isAtNext
  | unreadable _ => false

/-- The stream from the token on at which a failed reading noticed its failure. -/
def ParseFailure.unread (failure : ParseFailure) (stream : TokenStream) : TokenStream :=
  if failure.isAtNext then stream.advance else stream

namespace Outcome

variable {α : Type}

/-- The stream from the token on that follows what was read, or at which the failure was noticed. -/
def unread : Outcome α → TokenStream
  | done _ rest => rest.advance
  | failed failure rest => failure.unread rest

/-- The same end of two readings, with other tokens after those that are common to both streams. -/
inductive Alike (back other : List Token) : Outcome α → Outcome α → Prop
  | done (value : α) (front : List Token) :
      Alike back other (.done value (front ++ back)) (.done value (front ++ other))
  | failed (failure : ParseFailure) (front : List Token) :
      Alike back other (.failed failure (front ++ back)) (.failed failure (front ++ other))

/-- What is unread is left. -/
theorem unread_suffix_rest (outcome : Outcome α) : outcome.unread <:+ outcome.rest := by
  cases outcome with
  | done value rest => exact rest.advance_suffix
  | failed failure rest =>
    simp only [unread, ParseFailure.unread, Outcome.rest]
    split
    · exact rest.advance_suffix
    · exact List.suffix_refl rest

end Outcome

namespace Reading

variable {α β : Type} {reading : Reading α} {front back other : List Token}

/-- What is unread after a reading is a suffix of what it was given. -/
theorem unread_suffix (reading : Reading α) (stream : TokenStream) :
    (reading.run stream).unread <:+ stream :=
  (reading.run stream).unread_suffix_rest.trans (reading.rest_run_suffix stream)

/-- Streams that start with the same tokens are read alike if the reading ends before these tokens do. -/
def Local (reading : Reading α) (front : List Token) : Prop :=
  ∀ back other : List Token, back.length < (reading.run (front ++ back)).unread.length →
    (reading.run (front ++ back)).Alike back other (reading.run (front ++ other))

/-- A reading never refuses the current token. -/
def Onward (reading : Reading α) : Prop :=
  ∀ stream : TokenStream, (reading.run stream).unread <:+ stream.advance

/-- A reading that ends before the front does has a token in front of it. -/
theorem exists_cons_of_unread {suffix : TokenStream} (hsuffix : suffix <:+ front ++ back)
    (h : back.length < suffix.length) : ∃ t more, front = t :: more := by
  cases front with
  | nil => exact absurd hsuffix.length_le (by simpa using h)
  | cons t more => exact ⟨t, more, rfl⟩

/-- A reading that ends before the front does and never refuses the current token has two tokens in
front of it. -/
theorem exists_cons_cons_of_unread {suffix : TokenStream}
    (hsuffix : suffix <:+ TokenStream.advance (front ++ back)) (h : back.length < suffix.length) :
    ∃ t next more, front = t :: next :: more := by
  have hle := hsuffix.length_le
  match front with
  | [] =>
    simp only [TokenStream.advance, List.nil_append, List.length_tail] at hle
    omega
  | [t] =>
    simp only [TokenStream.advance, List.singleton_append, List.tail_cons] at hle
    omega
  | t :: next :: more => exact ⟨t, next, more, rfl⟩

/-- Readings that run alike are local alike. -/
theorem Local.of_run_eq {same : Reading α} (h : same.Local front)
    (heq : ∀ stream, reading.run stream = same.run stream) : reading.Local front := by
  intro back other hlength
  rw [heq] at hlength
  rw [heq, heq]
  exact h back other hlength

theorem Onward.of_run_eq {same : Reading α} (h : same.Onward)
    (heq : ∀ stream, reading.run stream = same.run stream) : reading.Onward := by
  intro stream
  rw [heq]
  exact h stream

/-! ## Simple readings -/

theorem onward_give (value : α) : Onward (give value) := fun stream => List.suffix_refl stream.advance

theorem local_give (value : α) : Local (give value) front := fun _ _ _ => .done value front

theorem local_fail (failure : ParseFailure) : Local (fail failure : Reading α) front :=
  fun _ _ _ => .failed failure front

/-- An error at the next token does not refuse the current one. -/
theorem onward_reject {error : SyntaxError} (h : error.isAtNext = true) :
    Onward (reject error : Reading α) := by
  intro stream
  simp only [run_reject, Outcome.unread, ParseFailure.unread, ParseFailure.isAtNext, h, if_true]
  exact List.suffix_refl stream.advance

variable {following : Unit → Reading β} {byToken : Token → Reading β} {byValue : α → Reading β}

/-- The current token is in front. -/
theorem Local.current (h : ∀ t, (byToken t).Local front) : (current >>= byToken).Local front := by
  intro back other hlength
  rw [run_bind_current] at hlength
  obtain ⟨t, more, rfl⟩ := exists_cons_of_unread ((byToken _).unread_suffix _) hlength
  rw [run_bind_current, run_bind_current]
  exact h t back other hlength

theorem Onward.current (h : ∀ t, (byToken t).Onward) : (current >>= byToken).Onward := by
  intro stream
  rw [run_bind_current]
  exact h _ stream

theorem Onward.upcoming (h : ∀ t, (byToken t).Onward) : (upcoming >>= byToken).Onward := by
  intro stream
  rw [run_bind_upcoming]
  exact h _ stream

/-- The next token is in front if the current one is not refused. -/
theorem Local.upcoming (h : ∀ t, (byToken t).Local front) (honward : ∀ t, (byToken t).Onward) :
    (upcoming >>= byToken).Local front := by
  intro back other hlength
  rw [run_bind_upcoming] at hlength
  obtain ⟨t, next, more, rfl⟩ := exists_cons_cons_of_unread (honward _ _) hlength
  rw [run_bind_upcoming, run_bind_upcoming]
  exact h next back other hlength

theorem Onward.advance : (advance >>= following).Onward := by
  intro stream
  rw [run_bind_advance]
  exact (following ()).unread_suffix _

/-- What follows has one token less in front of it. -/
theorem Local.advance (h : ∀ more : List Token, more.length < front.length → (following ()).Local more) :
    (advance >>= following).Local front := by
  intro back other hlength
  rw [run_bind_advance] at hlength
  have hsuffix := ((following ()).unread_suffix (TokenStream.advance (front ++ back))).trans
    (TokenStream.advance_suffix _)
  obtain ⟨t, more, rfl⟩ := exists_cons_of_unread hsuffix hlength
  rw [run_bind_advance, run_bind_advance]
  exact h more (by simp) back other hlength

/-! ## Sequences and choices -/

theorem Local.ite {p : Prop} [Decidable p] {no : Reading α} (hyes : p → reading.Local front)
    (hno : ¬ p → no.Local front) : (if p then reading else no).Local front := by
  split
  · exact hyes ‹p›
  · exact hno ‹¬ p›

theorem Onward.ite {p : Prop} [Decidable p] {no : Reading α} (hyes : reading.Onward)
    (hno : no.Onward) : (if p then reading else no).Onward := by
  split
  · exact hyes
  · exact hno

theorem Onward.bind (h : reading.Onward) (hfollowing : ∀ value, (byValue value).Onward) :
    (reading >>= byValue).Onward := by
  intro stream
  have hunread := h stream
  have hrest := reading.rest_run_suffix stream
  rw [run_bind]
  cases hrun : reading.run stream with
  | failed failure rest => rwa [hrun] at hunread
  | done value rest =>
    rw [hrun] at hunread
    exact (hfollowing value rest).trans hunread

/-- A second reading that never refuses the current token leaves no more unread than the first one
does. -/
theorem Local.bind (h : reading.Local front)
    (hfollowing : ∀ value more, more.length ≤ front.length → (byValue value).Local more)
    (honward : ∀ value, (byValue value).Onward) : (reading >>= byValue).Local front := by
  intro back other hlength
  have halike := h back other
  have hsuffix := reading.rest_run_suffix (front ++ back)
  rw [run_bind] at hlength
  rw [run_bind, run_bind]
  generalize reading.run (front ++ other) = outcome at halike ⊢
  cases hrun : reading.run (front ++ back) with
  | failed failure rest =>
    rw [hrun] at hlength halike
    cases halike hlength with
    | failed _ more => exact .failed failure more
  | done value rest =>
    rw [hrun] at hlength halike hsuffix
    have hfirst : back.length < (Outcome.done value rest : Outcome α).unread.length :=
      Nat.lt_of_lt_of_le hlength (honward value rest).length_le
    cases halike hfirst with
    | done _ more =>
      have hle : (more ++ back).length ≤ (front ++ back).length := hsuffix.length_le
      simp only [List.length_append, Nat.add_le_add_iff_right] at hle
      exact hfollowing value more hle back other hlength

theorem Onward.expect {kind : TokenKind} : (expect kind >>= following).Onward := by
  intro stream
  rw [run_bind_expect]
  split
  · exact (following ()).unread_suffix _
  · exact List.suffix_refl stream.advance

theorem Local.expect {kind : TokenKind}
    (h : ∀ more : List Token, more.length < front.length → (following ()).Local more) :
    (Reading.expect kind >>= following).Local front := by
  have hsame : ((do
      let next ← Reading.upcoming
      if next.kind = kind then do Reading.advance; following ()
      else reject (.unexpectedToken kind next)) : Reading β).Local front :=
    .upcoming (fun t => .ite (fun _ => .advance h) fun _ => local_fail _)
      fun t => .ite .advance (onward_reject rfl)
  refine hsame.of_run_eq fun stream => ?_
  rw [run_bind_expect, run_bind_upcoming, run_ite, run_bind_advance, run_reject]

theorem Onward.skip {kind : TokenKind} (h : (following ()).Onward) :
    (skip kind >>= following).Onward := by
  intro stream
  rw [run_bind_skip]
  split
  · exact (following ()).unread_suffix _
  · exact h stream

theorem Local.skip {kind : TokenKind}
    (h : ∀ more : List Token, more.length ≤ front.length → (following ()).Local more)
    (honward : (following ()).Onward) : (Reading.skip kind >>= following).Local front := by
  have hsame : ((do
      let next ← Reading.upcoming
      if next.kind = kind then do Reading.advance; following ()
      else following ()) : Reading β).Local front :=
    .upcoming (fun t => .ite (fun _ => .advance fun more hmore => h more (Nat.le_of_lt hmore))
      fun _ => h front (Nat.le_refl _)) fun t => .ite .advance honward
  refine hsame.of_run_eq fun stream => ?_
  rw [run_bind_skip, run_bind_upcoming, run_ite, run_bind_advance]
  split <;> rfl

end Reading

namespace Grammar

open Reading

variable {α : Type} {front : List Token}

/-! ## Loops -/

/-- One turn of the loop over the members of a list. -/
theorem run_membersAfter (item : Reading α) (read : List α) (stream : TokenStream) :
    Reading.run (membersAfter item read) stream = ((do
      let next ← upcoming
      if next.kind = .comma then do
        advance
        let member ← item
        membersAfter item (member :: read)
      else give read.reverse) : Reading (List α)).run stream := by
  change (membersAfter item read stream).val = _
  rw [membersAfter_eq, run_bind_upcoming, run_ite, run_bind_advance]
  congr 1
  refine Eq.trans ?_ (run_bind item (fun member => membersAfter item (member :: read)) _).symm
  cases item.run stream.advance <;> rfl

theorem onward_membersAfter (item : Reading α) (read : List α) :
    Onward (membersAfter item read) :=
  (Onward.upcoming fun _ => .ite .advance (onward_give _)).of_run_eq (run_membersAfter item read)

theorem local_membersAfter {item : Reading α} (h : ∀ front, item.Local front) (read : List α) :
    Local (membersAfter item read) front := by
  induction hlen : front.length using Nat.strongRecOn generalizing front read with
  | ind len ih =>
    refine Local.of_run_eq (.upcoming (fun next => .ite (fun _ => .advance fun more hmore => ?_)
      fun _ => local_give _) fun next => .ite .advance (onward_give _)) (run_membersAfter item read)
    refine (h more).bind (fun member last hlast => ?_) fun member => onward_membersAfter item _
    exact ih last.length (by omega) _ rfl

theorem local_parenthesized {item : Reading α} (h : ∀ front, item.Local front)
    (honward : item.Onward) : (parenthesized item).Local front := by
  have hend : ∀ first : α, (do
      let all ← members item first
      expect .rparen
      give all : Reading (List α)).Onward := fun first =>
    (onward_membersAfter item _).bind fun _ => .expect
  refine .upcoming (fun next => .ite (fun _ => .advance fun _ _ => local_give _) fun _ => ?_)
    fun next => .ite .advance (honward.bind hend)
  refine (h front).bind (fun first more _ => ?_) hend
  exact (local_membersAfter h [first]).bind (fun all last _ => .expect fun _ _ => local_give _)
    fun _ => .expect

/-- One turn of the loop up to a closing token. -/
theorem run_untilAfter (closer : TokenKind) (one : Reading α) (read : List α)
    (stream : TokenStream) :
    Reading.run (untilAfter closer one read) stream = ((do
      let t ← current
      if t.kind = closer ∨ t.kind = .eof then give read.reverse
      else do
        let thing ← one
        advance
        untilAfter closer one (thing :: read)) : Reading (List α)).run stream := by
  change (untilAfter closer one read stream).val = _
  rw [untilAfter_eq, run_bind_current, run_ite]
  congr 1
  refine Eq.trans ?_ (run_bind one _ stream).symm
  cases one.run stream <;> rfl

theorem local_untilAfter {closer : TokenKind} {one : Reading α} (h : ∀ front, one.Local front)
    (read : List α) : Local (untilAfter closer one read) front := by
  induction hlen : front.length using Nat.strongRecOn generalizing front read with
  | ind len ih =>
    refine Local.of_run_eq (.current fun t => .ite (fun _ => local_give _) fun _ => ?_)
      (run_untilAfter closer one read)
    refine (h front).bind (fun thing more hmore => .advance fun last hlast => ?_) fun _ => .advance
    exact ih last.length (by omega) _ rfl

/-! ## Constructs -/

variable {nested : Nested}

theorem local_identifier : identifier.Local front := .current fun _ => local_give _

/-- The end of a statement: the semicolon that may follow it. -/
theorem onward_end {node : Node} : (do skip .semicolon; give node : Reading Node).Onward :=
  .skip (onward_give _)

theorem local_end {node : Node} : (do skip .semicolon; give node : Reading Node).Local front :=
  .skip (fun _ _ => local_give _) (onward_give _)

theorem local_statement (h : ∀ precedence front, (nested precedence).Local front) :
    (statement nested).Local front := by
  refine .current fun t => ?_
  split
  · refine .current fun _ => .expect fun more _ => ?_
    refine local_identifier.bind (fun name more _ => .expect fun more _ => .advance fun more _ => ?_)
      fun _ => .expect
    exact (h _ _).bind (fun _ _ _ => local_end) fun _ => onward_end
  · exact .current fun _ => .advance fun more _ =>
      (h _ _).bind (fun _ _ _ => local_end) fun _ => onward_end
  · exact .current fun _ => (h _ _).bind (fun _ _ _ => local_end) fun _ => onward_end

theorem local_blockStatement (h : ∀ precedence front, (nested precedence).Local front) :
    (blockStatement nested).Local front :=
  .current fun _ => .advance fun _ _ => (local_untilAfter (fun _ => local_statement h) []).bind
    (fun _ _ _ => local_give _) fun _ => onward_give _

theorem local_program (h : ∀ precedence front, (nested precedence).Local front) :
    (program nested).Local front :=
  (local_untilAfter (fun _ => local_statement h) []).bind
    (fun _ _ _ => .current fun _ => local_give _) fun _ => .current fun _ => onward_give _

theorem local_integerLiteral : integerLiteral.Local front := by
  refine .current fun t => ?_
  cases Text.Decimal.read t.literal with
  | error error => exact local_fail _
  | ok value => exact .ite (fun _ => local_fail _) fun _ => local_give _

theorem local_ifExpression (h : ∀ precedence front, (nested precedence).Local front) :
    (ifExpression nested).Local front := by
  refine .current fun t => .expect fun more _ => .advance fun more _ => ?_
  refine (h _ _).bind (fun condition more _ => .expect fun more _ => .expect fun more _ => ?_)
    fun _ => .expect
  have hend : ∀ next : Token, ∀ consequence : Node, Onward (if next.kind = .kwElse then do
      advance
      expect .lbrace
      let alternative ← blockStatement nested
      give (Node.conditional t condition consequence (some alternative))
    else give (Node.conditional t condition consequence none)) := fun _ _ => .ite .advance (onward_give _)
  refine (local_blockStatement h).bind (fun consequence more _ => ?_) fun _ => .upcoming fun _ => hend _ _
  refine .upcoming (fun next => .ite (fun _ => ?_) fun _ => local_give _) fun _ => hend _ _
  exact .advance fun more _ => .expect fun more _ => (local_blockStatement h).bind
    (fun _ _ _ => local_give _) fun _ => onward_give _

theorem local_applyPrefix (h : ∀ precedence front, (nested precedence).Local front)
    (rule : PrefixRule) : (applyPrefix nested rule).Local front := by
  cases rule with
  | identifier => exact local_identifier
  | integer => exact local_integerLiteral
  | boolean => exact .current fun _ => local_give _
  | operator =>
    exact .current fun _ => .advance fun _ _ => (h _ _).bind (fun _ _ _ => local_give _)
      fun _ => onward_give _
  | group =>
    exact .advance fun _ _ => (h _ _).bind (fun _ _ _ => .expect fun _ _ => local_give _)
      fun _ => .expect
  | conditional => exact local_ifExpression h
  | function =>
    refine .current fun _ => .expect fun more _ => ?_
    refine (local_parenthesized (fun _ => .expect fun _ _ => local_identifier) .expect).bind
      (fun _ _ _ => .expect fun _ _ => ?_) fun _ => .expect
    exact (local_blockStatement h).bind (fun _ _ _ => local_give _) fun _ => onward_give _

theorem local_applyInfix (h : ∀ precedence front, (nested precedence).Local front)
    (rule : InfixRule) (left : Node) : (applyInfix nested rule left).Local front := by
  cases rule with
  | operator =>
    exact .current fun _ => .advance fun _ _ => (h _ _).bind (fun _ _ _ => local_give _)
      fun _ => onward_give _
  | call =>
    refine .current fun _ => (local_parenthesized (fun _ => ?_) .advance).bind
      (fun _ _ _ => local_give _) fun _ => onward_give _
    exact .advance fun _ _ => h _ _

variable {rules : Rules}

/-- One turn of going on from an expression, as a reading. -/
theorem run_continued_eq (precedence : Precedence) (left : Node) (stream : TokenStream) :
    (continued rules nested precedence left).run stream = (do
      let next ← upcoming
      if precedence < .ofKind next.kind then
        match rules.infixRule? next.kind with
        | none => reject (.missingInfixRule next)
        | some rule => do
          advance
          let longer ← applyInfix nested rule left
          continued rules nested precedence longer
      else give left : Reading Node).run stream := by
  rw [run_bind_upcoming, run_ite, run_continued]
  congr 1
  cases rules.infixRule? stream.peek.kind with
  | none => rfl
  | some rule =>
    simp only [run_bind, run_advance]
    cases (applyInfix nested rule left).run stream.advance <;> rfl

theorem onward_continued (precedence : Precedence) (left : Node) :
    (continued rules nested precedence left).Onward := by
  refine (Onward.upcoming fun next => .ite ?_ (onward_give _)).of_run_eq
    (run_continued_eq precedence left)
  split
  · exact onward_reject rfl
  · exact .advance

theorem local_continued (h : ∀ precedence front, (nested precedence).Local front)
    (precedence : Precedence) (left : Node) :
    (continued rules nested precedence left).Local front := by
  induction hlen : front.length using Nat.strongRecOn generalizing front left with
  | ind len ih =>
    refine Local.of_run_eq (.upcoming (fun next => .ite (fun _ => ?_) fun _ => local_give _)
      fun next => .ite ?_ (onward_give _)) (run_continued_eq precedence left)
    · split
      · exact local_fail _
      · refine .advance fun more hmore => (local_applyInfix h _ _).bind (fun longer last hlast => ?_)
          fun _ => onward_continued _ _
        exact ih last.length (by omega) _ rfl
    · split
      · exact onward_reject rfl
      · exact .advance

theorem local_expressionFrom (h : ∀ precedence front, (nested precedence).Local front)
    (precedence : Precedence) : (expressionFrom rules nested precedence).Local front := by
  refine .bind (.current fun t => ?_) (fun left more _ => local_continued h precedence left)
    fun _ => onward_continued _ _
  split
  · exact local_fail _
  · exact local_applyPrefix h _

/-- Expressions look no further than at the token after them, at every number of levels of nesting. -/
theorem local_expression (levels : Nat) (precedence : Precedence) (front : List Token) :
    (expression rules levels precedence).Local front := by
  induction levels generalizing precedence front with
  | zero => exact .current fun _ => local_fail _
  | succ levels ih => exact local_expressionFrom ih precedence

end Grammar

end Monkey
