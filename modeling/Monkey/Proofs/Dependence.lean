import Monkey.Proofs.Refinement
import Monkey.Proofs.Repair

/-!
# What a construct reads

The expressions in a construct are read by a parameter of it. A construct reads an expression at a place
if it cannot but fail there once the expression does. A construct depends on what it reads alone, it
reads nothing outside of what is left of the stream, and that nesting is too deep it reports only if an
expression that it reads does.
-/

namespace Monkey.Grammar

open Reading

variable {α β : Type} {bound place stream : TokenStream}

/-! ## Later tokens -/

/-- What is left after another token is a part of the same stream. -/
theorem suffix_advance (h : stream <:+ bound) : stream.advance <:+ bound :=
  (TokenStream.advance_suffix stream).trans h

/-- Going on by a token keeps one stream a part of another one. -/
theorem advance_suffix_advance (h : place <:+ stream) :
    place.advance <:+ stream.advance := by
  obtain ⟨_ | ⟨token, front⟩, rfl⟩ := h
  · exact List.suffix_rfl
  · exact suffix_advance (List.suffix_append front place)

/-- One stream is what is left of another one from a later token on. -/
def Beyond (place stream : TokenStream) : Prop := place <:+ stream ∧ place.length < stream.length

theorem Beyond.trans {later : TokenStream} (h : Beyond later place) (h' : Beyond place stream) :
    Beyond later stream := ⟨h.1.trans h'.1, h.2.trans h'.2⟩

/-- What is left after the current token is beyond it, unless the current token is the end of input. -/
theorem beyond_of_cur (hcur : stream.cur.kind ≠ .eof) (h : place <:+ stream.advance) :
    Beyond place stream :=
  ⟨h.trans (TokenStream.advance_suffix stream),
    Nat.lt_of_le_of_lt h.length_le (TokenStream.length_advance_lt_of_cur hcur)⟩

/-- What is left after the current token is beyond it, unless the next token is the end of input. -/
theorem beyond_of_peek (hpeek : stream.peek.kind ≠ .eof) (h : place <:+ stream.advance) :
    Beyond place stream :=
  ⟨h.trans (TokenStream.advance_suffix stream),
    Nat.lt_of_le_of_lt h.length_le (TokenStream.length_advance_lt_of_peek hpeek)⟩

/-- What holds of a stream if it does of all that are beyond it holds of every stream. -/
theorem beyondInduction {motive : TokenStream → Prop}
    (step : ∀ stream, (∀ place, Beyond place stream → motive place) → motive stream)
    (stream : TokenStream) : motive stream := by
  induction hlen : stream.length using Nat.strongRecOn generalizing stream with
  | ind len ih => exact step stream fun place hplace => ih place.length (hlen ▸ hplace.2) place rfl

/-! ## Expressions at a place -/

/-- The same readings, but for one that fails. -/
def Nested.failingAt (nested : Nested) (precedence : Precedence) (place : TokenStream)
    (failure : ParseFailure) : Nested := fun other stream =>
  if other = precedence ∧ stream = place then fail failure stream else nested other stream

theorem Nested.run_failingAt (nested : Nested) (precedence other : Precedence) (place stream : TokenStream)
    (failure : ParseFailure) :
    (nested.failingAt precedence place failure other).run stream =
      if other = precedence ∧ stream = place then .failed failure stream
      else (nested other).run stream := by
  change (if other = precedence ∧ stream = place then fail failure stream else nested other stream).val = _
  split <;> rfl

/-- A construct reads an expression at a place: whatever failure the reading of it ends with, the construct
ends with the same one. -/
def ReadsAt (construct : Nested → Reading α) (nested : Nested) (stream : TokenStream)
    (precedence : Precedence) (place : TokenStream) : Prop :=
  ∀ failure, (construct (nested.failingAt precedence place failure)).run stream = .failed failure place

/-- The same readings but for one differ in this one only. -/
theorem Nested.eq_of_run_failingAt_ne {nested : Nested} {precedence other : Precedence}
    {place stream : TokenStream} {failure : ParseFailure}
    (h : (nested other).run stream ≠ (nested.failingAt precedence place failure other).run stream) :
    other = precedence ∧ stream = place := by
  by_contra hother
  rw [run_failingAt, if_neg hother] at h
  exact h rfl

/-- No failure is every failure. -/
theorem exists_failure_ne (failure : ParseFailure) : ∃ other : ParseFailure, other ≠ failure := by
  by_cases h : failure = .invalid (.missingPrefixRule .endOfInput)
  · exact ⟨.invalid (.missingInfixRule .endOfInput), by simp [h]⟩
  · exact ⟨_, Ne.symm h⟩

/-- What does not depend on the readings of expressions reads none. -/
theorem ReadsAt.not_forall_eq {construct : Nested → Reading α} {nested : Nested} {precedence : Precedence}
    {place : TokenStream} (h : ReadsAt construct nested stream precedence place) (outcome : Outcome α) :
    ¬ ∀ failure, (construct (nested.failingAt precedence place failure)).run stream = outcome := by
  intro hall
  cases outcome with
  | done value rest => exact nomatch (hall (.invalid (.missingPrefixRule .endOfInput))).symm.trans (h _)
  | failed failure rest =>
    obtain ⟨other, hother⟩ := exists_failure_ne failure
    exact hother (Outcome.failed.inj ((h other).symm.trans (hall other))).1

/-- A construct reads expressions in a part of the stream only. Where it ends in different ways, something
that it reads does. Where it reports that nesting is too deep, something that it reads does. It leaves no
more of the stream than what it reads. -/
structure ReadsWithin (bound : TokenStream) (construct : Nested → Reading α) (stream : TokenStream) :
    Prop where
  differ (nested other : Nested) : (construct nested).run stream ≠ (construct other).run stream →
    ∃ precedence place, place <:+ bound ∧ (nested precedence).run place ≠ (other precedence).run place ∧
      ReadsAt construct nested stream precedence place
  tooDeep (nested : Nested) : (construct nested).Fails stream fun failure rest =>
    failure.IsNestingTooDeep →
      ∃ precedence place, place <:+ bound ∧ (nested precedence).run place = .failed failure rest
  leaves (nested : Nested) (precedence : Precedence) (place : TokenStream) :
    ReadsAt construct nested stream precedence place →
      ((construct nested).run stream).rest <:+ ((nested precedence).run place).rest

/-- The members of a list after those read so far, as a reading. -/
def moreMembers (item : Reading α) (read : List α) : Reading (List α) := membersAfter item read

/-- Things up to a closing token after those read so far, as a reading. -/
def moreUntil (closer : TokenKind) (one : Reading α) (read : List α) : Reading (List α) :=
  untilAfter closer one read

theorem run_moreMembers (item : Reading α) (read : List α) (stream : TokenStream) :
    (moreMembers item read).run stream =
      (if stream.peek.kind = .comma then do
          advance
          let member ← item
          moreMembers item (member :: read)
        else give read.reverse).run stream := by
  change (membersAfter item read stream).val = _
  rw [membersAfter_eq, run_ite, run_bind_advance, run_bind, run_give]
  rfl

theorem run_moreUntil (closer : TokenKind) (one : Reading α) (read : List α) (stream : TokenStream) :
    (moreUntil closer one read).run stream =
      (if stream.cur.kind = closer ∨ stream.cur.kind = .eof then give read.reverse
        else do
          let thing ← one
          advance
          moreUntil closer one (thing :: read)).run stream := by
  change (untilAfter closer one read stream).val = _
  rw [untilAfter_eq, run_ite, run_bind, run_give]
  simp only [run_bind_advance]
  rfl

theorem run_continued_eq_bind (rules : Rules) (nested : Nested) (precedence : Precedence) (left : Node)
    (stream : TokenStream) :
    (continued rules nested precedence left).run stream =
      (if precedence < .ofKind stream.peek.kind then
          match rules.infixRule? stream.peek.kind with
          | none => reject (.missingInfixRule stream.peek)
          | some rule => do
            advance
            let longer ← applyInfix nested rule left
            continued rules nested precedence longer
        else give left).run stream := by
  rw [run_continued]
  by_cases hbinds : precedence < .ofKind stream.peek.kind
  · rw [if_pos hbinds, if_pos hbinds]
    cases rules.infixRule? stream.peek.kind with
    | none => rfl
    | some rule =>
      dsimp only
      rw [run_bind_advance, run_bind]
      cases (applyInfix nested rule left).run stream.advance <;> rfl
  · rw [if_neg hbinds, if_neg hbinds, run_give]

namespace ReadsWithin

variable {construct : Nested → Reading α}

/-- What ends alike reads alike. -/
theorem of_run_eq {same : Nested → Reading α} {stream' : TokenStream} (h : ReadsWithin bound same stream')
    (heq : ∀ nested, (construct nested).run stream = (same nested).run stream') :
    ReadsWithin bound construct stream := by
  refine ⟨fun nested other hne => ?_, fun nested => (h.tooDeep nested).of_run_eq (heq nested),
    fun nested precedence place hreads => ?_⟩
  · rw [heq, heq] at hne
    obtain ⟨precedence, place, hplace, hdiffer, hreads⟩ := h.differ nested other hne
    exact ⟨precedence, place, hplace, hdiffer, fun failure => (heq _).trans (hreads failure)⟩
  · rw [heq]
    exact h.leaves nested precedence place fun failure => (heq _).symm.trans (hreads failure)

/-- What reads no expressions reads them nowhere. -/
theorem of_fails {reading : Reading α}
    (h : reading.Fails stream fun failure _ => ¬ failure.IsNestingTooDeep) :
    ReadsWithin bound (fun _ => reading) stream :=
  ⟨fun _ _ hne => absurd rfl hne, fun _ => h.mono fun _ _ hfailure hdeep => absurd hdeep hfailure,
    fun _ _ _ hreads => absurd (fun _ => rfl) (hreads.not_forall_eq (reading.run stream))⟩

theorem give (value : α) : ReadsWithin bound (fun _ => Reading.give value) stream :=
  .of_fails (fails_give value)

theorem reject {error : SyntaxError} (h : ∀ t, error ≠ .nestingTooDeep t) :
    ReadsWithin bound (fun _ => (Reading.reject error : Reading α)) stream :=
  .of_fails (fails_reject fun ⟨t, ht⟩ => h t (ParseFailure.invalid.inj ht))

/-- An expression that is read from a place in the part is read within it. -/
theorem nested (h : stream <:+ bound) (precedence : Precedence) :
    ReadsWithin bound (fun nested => nested precedence) stream := by
  refine ⟨fun nested other hne => ⟨precedence, stream, h, hne, fun failure => ?_⟩,
    fun nested failure rest hrun _ => ⟨precedence, stream, h, hrun⟩,
    fun nested other place hreads => ?_⟩
  · rw [Nested.run_failingAt, if_pos ⟨rfl, rfl⟩]
  · by_cases hsame : precedence = other ∧ stream = place
    · obtain ⟨rfl, rfl⟩ := hsame
      exact List.suffix_rfl
    · refine absurd (fun failure => ?_) (hreads.not_forall_eq ((nested precedence).run stream))
      rw [Nested.run_failingAt, if_neg hsame]

/-- The first part of a sequence is the same without an expression that it does not read. -/
theorem run_failingAt_of_not_readsAt (h : ReadsWithin bound construct stream) {nested : Nested}
    {precedence : Precedence} {place : TokenStream}
    (hnot : ¬ ReadsAt construct nested stream precedence place) (failure : ParseFailure) :
    (construct (nested.failingAt precedence place failure)).run stream = (construct nested).run stream := by
  by_contra hne
  obtain ⟨_, _, -, hdiffer, hreads⟩ := h.differ nested _ (Ne.symm hne)
  obtain ⟨rfl, rfl⟩ := Nested.eq_of_run_failingAt_ne hdiffer
  exact hnot hreads

/-- A sequence reads what its first part reads, and what its second part reads on what is left. -/
theorem readsAt_bind_iff {following : Nested → α → Reading β} (h : ReadsWithin bound construct stream)
    {nested : Nested} {precedence : Precedence} {place : TokenStream} :
    ReadsAt (fun nested => construct nested >>= following nested) nested stream precedence place ↔
      ReadsAt construct nested stream precedence place ∨
        ∃ value rest, (construct nested).run stream = .done value rest ∧
          ReadsAt (following · value) nested rest precedence place := by
  by_cases hfirst : ReadsAt construct nested stream precedence place
  · refine iff_of_true (fun failure => ?_) (.inl hfirst)
    rw [run_bind, hfirst failure]
  -- A failure at the place leaves the first part as it is, so only the second part can meet it.
  have hsame := h.run_failingAt_of_not_readsAt hfirst
  refine ⟨fun hreads => .inr ?_, ?_⟩
  · cases hrun : (construct nested).run stream with
    | failed failure rest =>
      refine absurd (fun other => ?_) (hreads.not_forall_eq (.failed failure rest))
      rw [run_bind, hsame, hrun]
    | done value rest =>
      refine ⟨value, rest, rfl, fun failure => ?_⟩
      have hfailure := hreads failure
      rwa [run_bind, hsame, hrun] at hfailure
  · rintro (hreads | ⟨value, rest, hrun, hreads⟩) failure
    · exact absurd hreads hfirst
    · rw [run_bind, hsame, hrun]
      exact hreads failure

/-- A sequence reads within a part of the stream if both of its parts do. -/
theorem bind {following : Nested → α → Reading β} (h : ReadsWithin bound construct stream)
    (hfollowing : ∀ value (rest : TokenStream), rest <:+ stream →
      ReadsWithin bound (following · value) rest) :
    ReadsWithin bound (fun nested => construct nested >>= following nested) stream := by
  refine ⟨fun nested other hne => ?_, fun nested => ?_, fun nested precedence place hreads => ?_⟩
  · by_cases heq : (construct nested).run stream = (construct other).run stream
    · simp only [run_bind, ← heq] at hne
      cases hrun : (construct nested).run stream with
      | failed failure rest => simp [hrun] at hne
      | done value rest =>
        simp only [hrun] at hne
        obtain ⟨precedence, place, hplace, hdiffer, hreads⟩ :=
          (hfollowing value rest (suffix_of_run hrun)).differ nested other hne
        exact ⟨precedence, place, hplace, hdiffer,
          h.readsAt_bind_iff.mpr (.inr ⟨value, rest, hrun, hreads⟩)⟩
    · obtain ⟨precedence, place, hplace, hdiffer, hreads⟩ := h.differ nested other heq
      exact ⟨precedence, place, hplace, hdiffer, h.readsAt_bind_iff.mpr (.inl hreads)⟩
  · exact (h.tooDeep nested).bind fun value rest hrun =>
      (hfollowing value rest (suffix_of_run hrun)).tooDeep nested
  · rcases h.readsAt_bind_iff.mp hreads with hfirst | ⟨value, rest, hrun, hsecond⟩
    · have hleaves := h.leaves nested precedence place hfirst
      rw [run_bind]
      cases hrun : (construct nested).run stream with
      | failed failure rest => rwa [hrun] at hleaves
      | done value rest =>
        rw [hrun] at hleaves
        exact ((following nested value).rest_run_suffix rest).trans hleaves
    · rw [run_bind, hrun]
      exact (hfollowing value rest (suffix_of_run hrun)).leaves nested precedence place hsecond

theorem current {following : Nested → Token → Reading α}
    (h : ReadsWithin bound (following · stream.cur) stream) :
    ReadsWithin bound (fun nested => Reading.current >>= following nested) stream :=
  h.of_run_eq fun _ => run_bind_current _ _

theorem upcoming {following : Nested → Token → Reading α}
    (h : ReadsWithin bound (following · stream.peek) stream) :
    ReadsWithin bound (fun nested => Reading.upcoming >>= following nested) stream :=
  h.of_run_eq fun _ => run_bind_upcoming _ _

theorem advance {following : Nested → Unit → Reading α}
    (h : ReadsWithin bound (following · ()) stream.advance) :
    ReadsWithin bound (fun nested => Reading.advance >>= following nested) stream :=
  h.of_run_eq fun _ => run_bind_advance _ _

theorem expect {kind : TokenKind} {following : Nested → Unit → Reading α}
    (h : ReadsWithin bound (following · ()) stream.advance) :
    ReadsWithin bound (fun nested => Reading.expect kind >>= following nested) stream := by
  by_cases hkind : stream.peek.kind = kind
  · exact h.of_run_eq fun nested => by rw [run_bind_expect, if_pos hkind]
  · have hreject : ReadsWithin bound
        (fun _ => (Reading.reject (.unexpectedToken kind stream.peek) : Reading α)) stream :=
      .reject fun _ => by simp
    exact hreject.of_run_eq fun nested => by rw [run_bind_expect, if_neg hkind, run_reject]

/-- A semicolon that is passed or not is followed by the end of a construct. -/
theorem skip {kind : TokenKind} (value : α) :
    ReadsWithin bound (fun _ => do Reading.skip kind; Reading.give value) stream :=
  .of_fails (fails_skip value)

theorem ite {p : Prop} [Decidable p] {no : Nested → Reading α} (hyes : ReadsWithin bound construct stream)
    (hno : ReadsWithin bound no stream) :
    ReadsWithin bound (fun nested => if p then construct nested else no nested) stream := by
  by_cases hp : p
  · exact hyes.of_run_eq fun nested => by rw [if_pos hp]
  · exact hno.of_run_eq fun nested => by rw [if_neg hp]

/-! ## Loops -/

/-- The members of a list in parentheses are read where a member is, or later. -/
theorem moreMembers {item : Nested → Reading α} (read : List α)
    (h : ∀ place : TokenStream, place <:+ stream → ReadsWithin bound item place) :
    ReadsWithin bound (fun nested => Grammar.moreMembers (item nested) read) stream := by
  induction stream using beyondInduction generalizing read with
  | step stream ih =>
    refine of_run_eq ?_ fun nested => run_moreMembers (item nested) read stream
    by_cases hcomma : stream.peek.kind = .comma
    · simp only [if_pos hcomma]
      have hadvance := TokenStream.advance_suffix stream
      refine .advance ((h _ hadvance).bind fun member rest hrest => ?_)
      have hpeek : stream.peek.kind ≠ .eof := by simp [hcomma]
      have hitem : ∀ place : TokenStream, place <:+ rest → ReadsWithin bound item place :=
        fun place hplace => h place (hplace.trans (hrest.trans hadvance))
      exact ih rest (beyond_of_peek hpeek hrest) _ hitem
    · simp only [if_neg hcomma]
      exact .give _

theorem parenthesized {item : Nested → Reading α}
    (h : ∀ place : TokenStream, place <:+ stream → ReadsWithin bound item place) :
    ReadsWithin bound (fun nested => Grammar.parenthesized (item nested)) stream := by
  refine .upcoming (.ite (.advance (.give _)) ((h stream List.suffix_rfl).bind fun first rest hrest => ?_))
  exact (moreMembers [first] fun place hplace => h place (hplace.trans hrest)).bind fun all _ _ =>
    .expect (.give all)

/-- The turns of a loop up to a closing token are read from the current token on. -/
theorem moreUntil {closer : TokenKind} {one : Nested → Reading α} (read : List α)
    (h : ∀ place : TokenStream, place <:+ stream → ReadsWithin bound one place) :
    ReadsWithin bound (fun nested => Grammar.moreUntil closer (one nested) read) stream := by
  induction stream using beyondInduction generalizing read with
  | step stream ih =>
    refine of_run_eq ?_ fun nested => run_moreUntil closer (one nested) read stream
    by_cases hend : stream.cur.kind = closer ∨ stream.cur.kind = .eof
    · simp only [if_pos hend]
      exact .give _
    · simp only [if_neg hend]
      refine (h stream List.suffix_rfl).bind fun thing rest hrest => .advance ?_
      -- The turn may have ended on the token that it started on; the next one starts beyond it.
      have hcur : stream.cur.kind ≠ .eof := fun heof => hend (.inr heof)
      have hone : ∀ place : TokenStream, place <:+ rest.advance → ReadsWithin bound one place :=
        fun place hplace => h place (hplace.trans (suffix_advance hrest))
      exact ih rest.advance (beyond_of_cur hcur (advance_suffix_advance hrest)) _ hone

/-! ## Constructs -/

variable {rules : Rules}

theorem identifier : ReadsWithin bound (fun _ => Grammar.identifier) stream := .current (.give _)

theorem statement (h : stream <:+ bound) : ReadsWithin bound Grammar.statement stream := by
  refine .current ?_
  split
  · refine .current (.expect (identifier.bind fun name rest hrest => .expect (.advance ?_)))
    have hvalue := suffix_advance (suffix_advance (hrest.trans (suffix_advance h)))
    exact (nested hvalue _).bind fun _ _ _ => .skip _
  · exact .current (.advance ((nested (suffix_advance h) _).bind fun _ _ _ => .skip _))
  · exact .current ((nested h _).bind fun _ _ _ => .skip _)

theorem blockStatement (h : stream <:+ bound) : ReadsWithin bound Grammar.blockStatement stream := by
  refine .current (.advance ((moreUntil [] fun place hplace => ?_).bind fun _ _ _ => .give _))
  exact statement (hplace.trans (suffix_advance h))

theorem program (h : stream <:+ bound) : ReadsWithin bound Grammar.program stream :=
  (moreUntil [] fun _ hplace => statement (hplace.trans h)).bind fun _ _ _ => .current (.give _)

/-- What the rule for the current token reads, it reads after that token. -/
theorem applyPrefix (h : stream.advance <:+ bound) (rule : PrefixRule) :
    ReadsWithin bound (Grammar.applyPrefix · rule) stream := by
  cases rule with
  | identifier => exact identifier
  | integer =>
    refine .current ?_
    cases Text.Decimal.read stream.cur.literal with
    | error error => exact .of_fails fun _ _ hrun ⟨t, ht⟩ => by cases hrun; cases ht
    | ok value => exact .ite (.reject fun _ => by simp) (.give _)
  | boolean => exact .current (.give _)
  | operator => exact .current (.advance ((nested h _).bind fun _ _ _ => .give _))
  | group => exact .advance ((nested h _).bind fun _ _ _ => .expect (.give _))
  | conditional =>
    refine .current (.expect (.advance ?_))
    refine (nested (suffix_advance h) _).bind fun _ rest hrest => .expect (.expect ?_)
    have hrest' := hrest.trans (suffix_advance h)
    refine (blockStatement (suffix_advance (suffix_advance hrest'))).bind fun _ last hlast => .upcoming ?_
    have hlast' := hlast.trans (suffix_advance (suffix_advance hrest'))
    refine .ite (.advance (.expect ?_)) (.give _)
    exact (blockStatement (suffix_advance (suffix_advance hlast'))).bind fun _ _ _ => .give _
  | function =>
    refine .current (.expect (.bind (parenthesized fun _ _ => .expect identifier) ?_))
    intro _ rest hrest
    exact .expect ((blockStatement (suffix_advance (hrest.trans h))).bind fun _ _ _ => .give _)

/-- What the rule for an operator reads, it reads after the operator. -/
theorem applyInfix (h : stream.advance <:+ bound) (rule : InfixRule) (left : Node) :
    ReadsWithin bound (Grammar.applyInfix · rule left) stream := by
  cases rule with
  | operator => exact .current (.advance ((nested h _).bind fun _ _ _ => .give _))
  | call =>
    refine .current ((parenthesized fun place hplace => .advance (nested ?_ _)).bind fun _ _ _ => .give _)
    exact (advance_suffix_advance hplace).trans h

theorem operand (h : stream.advance <:+ bound) : ReadsWithin bound (Grammar.operand rules) stream := by
  refine .current ?_
  cases rules.prefixRule? stream.cur.kind with
  | none => exact .reject fun _ => by simp
  | some rule => exact applyPrefix h rule

theorem continued (h : stream.advance <:+ bound) (precedence : Precedence) (left : Node) :
    ReadsWithin bound (Grammar.continued rules · precedence left) stream := by
  induction stream using beyondInduction generalizing left with
  | step stream ih =>
    refine of_run_eq ?_ fun nested => run_continued_eq_bind rules nested precedence left stream
    by_cases hbinds : precedence < .ofKind stream.peek.kind
    · simp only [if_pos hbinds]
      cases rules.infixRule? stream.peek.kind with
      | none => exact .reject fun _ => by simp
      | some rule =>
        refine .advance ((applyInfix (suffix_advance h) rule left).bind fun longer rest hrest => ?_)
        have hrest' := beyond_of_peek (Precedence.ne_eof_of_lt hbinds) hrest
        exact ih rest hrest' (suffix_advance (hrest.trans h)) longer
    · simp only [if_neg hbinds]
      exact .give _

/-- An expression reads others after its first token only. -/
theorem expressionFrom (h : stream.advance <:+ bound) (precedence : Precedence) :
    ReadsWithin bound (Grammar.expressionFrom rules · precedence) stream :=
  (operand h).bind fun left _ hrest =>
    continued ((advance_suffix_advance hrest).trans h) precedence left

end ReadsWithin

end Monkey.Grammar
