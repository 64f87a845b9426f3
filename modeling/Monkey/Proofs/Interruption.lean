import Monkey.Proofs.Dependence

/-!
# Expressions that stop a construct

Suppose that expressions are read as before, but for some that fail instead. A construct with such an
expression in it ends there, with that failure, and up to there it does the same as before. A construct
without one does the same as before altogether, and so do all expressions that it reads.

This tells where a construct fails that `Refines` only says may fail.
-/

namespace Monkey.Grammar

open Reading

variable {α β : Type} {excused : ParseFailure → Prop} {short full : Nested} {bound stream : TokenStream}
  {precedence : Precedence}

/-! ## Where a construct stops -/

/-- The readings of expressions of `short` are those of `full` or fail. A construct is then unaffected, as
are all expressions that it reads, or it stops with the failure of an expression that it reads. -/
inductive StopsWith (excused : ParseFailure → Prop) (short full : Nested) (construct : Nested → Reading α)
    (stream : TokenStream) : Prop
  | unaffected (hrun : (construct short).run stream = (construct full).run stream)
      (hreads : ∀ precedence place, ReadsAt construct full stream precedence place →
        (short precedence).run place = (full precedence).run place)
  | stopped {precedence : Precedence} {place rest : TokenStream} {failure : ParseFailure}
      (hreads : ReadsAt construct full stream precedence place) (hexcused : excused failure)
      (hfails : (short precedence).run place = .failed failure rest)
      (hrun : (construct short).run stream = .failed failure rest)

/-- A construct that is an expression reads this one and no other. -/
theorem readsAt_nested_iff {other : Precedence} {place : TokenStream} :
    ReadsAt (fun nested => nested precedence) full stream other place ↔
      precedence = other ∧ stream = place := by
  constructor
  · intro hreads
    by_contra hother
    refine hreads.not_forall_eq ((full precedence).run stream) fun failure => ?_
    rw [Nested.run_failingAt, if_neg hother]
  · rintro ⟨rfl, rfl⟩ failure
    rw [Nested.run_failingAt, if_pos ⟨rfl, rfl⟩]

namespace StopsWith

variable {construct : Nested → Reading α}

theorem of_run_eq {same : Nested → Reading α} {stream' : TokenStream}
    (h : StopsWith excused short full same stream')
    (heq : ∀ any, (construct any).run stream = (same any).run stream') :
    StopsWith excused short full construct stream := by
  cases h with
  | unaffected hrun hreads =>
    refine .unaffected (by rw [heq, heq, hrun]) fun precedence place hplace => ?_
    exact hreads precedence place fun failure => (heq _).symm.trans (hplace failure)
  | stopped hreads hexcused hfails hrun =>
    exact .stopped (fun failure => (heq _).trans (hreads failure)) hexcused hfails ((heq _).trans hrun)

/-- What reads no expressions is unaffected. -/
theorem const (reading : Reading α) : StopsWith excused short full (fun _ => reading) stream :=
  .unaffected rfl fun _ _ hreads => absurd (fun _ => rfl) (hreads.not_forall_eq (reading.run stream))

theorem nested (h : NestedRefines excused short full) (precedence : Precedence) :
    StopsWith excused short full (fun nested => nested precedence) stream := by
  rcases h precedence stream with ⟨failure, rest, hexcused, hfails⟩ | hrun
  · exact .stopped (readsAt_nested_iff.mpr ⟨rfl, rfl⟩) hexcused hfails hfails
  · refine .unaffected hrun fun other place hreads => ?_
    obtain ⟨rfl, rfl⟩ := readsAt_nested_iff.mp hreads
    exact hrun

/-- A sequence stops with its first part, or with its second part if the first one is unaffected. -/
theorem bind {following : Nested → α → Reading β} (h : StopsWith excused short full construct stream)
    (hwithin : ReadsWithin bound construct stream)
    (hfollowing : ∀ value (rest : TokenStream), rest <:+ stream →
      StopsWith excused short full (following · value) rest) :
    StopsWith excused short full (fun nested => construct nested >>= following nested) stream := by
  cases h with
  | stopped hreads hexcused hfails hrun =>
    refine .stopped (hwithin.readsAt_bind_iff.mpr (.inl hreads)) hexcused hfails ?_
    rw [run_bind, hrun]
  | unaffected hrun hreads =>
    cases hfirst : (construct full).run stream with
    | failed failure rest =>
      refine .unaffected (by rw [run_bind, run_bind, hrun, hfirst]) fun precedence place hplace => ?_
      rcases hwithin.readsAt_bind_iff.mp hplace with hplace | ⟨value, after, hdone, -⟩
      · exact hreads precedence place hplace
      · cases hfirst.symm.trans hdone
    | done value rest =>
      cases hfollowing value rest (suffix_of_run hfirst) with
      | unaffected hrun' hreads' =>
        refine .unaffected (by rw [run_bind, run_bind, hrun, hfirst]; exact hrun') fun precedence place hplace => ?_
        rcases hwithin.readsAt_bind_iff.mp hplace with hplace | ⟨value', rest', hdone, hplace⟩
        · exact hreads precedence place hplace
        · obtain ⟨rfl, rfl⟩ := Outcome.done.inj (hfirst.symm.trans hdone)
          exact hreads' precedence place hplace
      | stopped hreads' hexcused hfails hrun' =>
        refine .stopped (hwithin.readsAt_bind_iff.mpr (.inr ⟨value, rest, hfirst, hreads'⟩)) hexcused hfails ?_
        rw [run_bind, hrun, hfirst]
        exact hrun'

/-- What follows a part that reads no expressions stops on what that part leaves. -/
theorem after (reading : Reading α) {following : Nested → α → Reading β}
    (hfollowing : ∀ value (rest : TokenStream), StopsWith excused short full (following · value) rest) :
    StopsWith excused short full (fun nested => reading >>= following nested) stream := by
  cases hrun : reading.run stream with
  | done value rest => exact (hfollowing value rest).of_run_eq fun any => by rw [run_bind, hrun]
  | failed failure rest =>
    have hfail : StopsWith excused short full (fun _ => (fail failure : Reading β)) rest := .const _
    exact hfail.of_run_eq fun any => by rw [run_bind, hrun, run_fail]

theorem current {following : Nested → Token → Reading α}
    (h : StopsWith excused short full (following · stream.cur) stream) :
    StopsWith excused short full (fun nested => Reading.current >>= following nested) stream :=
  h.of_run_eq fun _ => run_bind_current _ _

theorem upcoming {following : Nested → Token → Reading α}
    (h : StopsWith excused short full (following · stream.peek) stream) :
    StopsWith excused short full (fun nested => Reading.upcoming >>= following nested) stream :=
  h.of_run_eq fun _ => run_bind_upcoming _ _

theorem advance {following : Nested → Unit → Reading α}
    (h : StopsWith excused short full (following · ()) stream.advance) :
    StopsWith excused short full (fun nested => Reading.advance >>= following nested) stream :=
  h.of_run_eq fun _ => run_bind_advance _ _

theorem expect {kind : TokenKind} {following : Nested → Unit → Reading α}
    (h : StopsWith excused short full (following · ()) stream.advance) :
    StopsWith excused short full (fun nested => Reading.expect kind >>= following nested) stream := by
  by_cases hkind : stream.peek.kind = kind
  · exact h.of_run_eq fun any => by rw [run_bind_expect, if_pos hkind]
  · have hreject : StopsWith excused short full
        (fun _ => (reject (.unexpectedToken kind stream.peek) : Reading α)) stream := .const _
    exact hreject.of_run_eq fun any => by rw [run_bind_expect, if_neg hkind, run_reject]

theorem ite {p : Prop} [Decidable p] {no : Nested → Reading α}
    (hyes : StopsWith excused short full construct stream) (hno : StopsWith excused short full no stream) :
    StopsWith excused short full (fun nested => if p then construct nested else no nested) stream := by
  by_cases hp : p
  · exact hyes.of_run_eq fun any => by rw [if_pos hp]
  · exact hno.of_run_eq fun any => by rw [if_neg hp]

/-! ## Loops -/

theorem moreMembers {item : Nested → Reading α} (read : List α)
    (hwithin : ∀ place : TokenStream, place <:+ stream → ReadsWithin bound item place)
    (h : ∀ place : TokenStream, place <:+ stream → StopsWith excused short full item place) :
    StopsWith excused short full (fun nested => Grammar.moreMembers (item nested) read) stream := by
  induction stream using beyondInduction generalizing read with
  | step stream ih =>
    refine of_run_eq ?_ fun any => run_moreMembers (item any) read stream
    by_cases hcomma : stream.peek.kind = .comma
    · simp only [if_pos hcomma]
      have hadvance := TokenStream.advance_suffix stream
      refine .advance ((h _ hadvance).bind (hwithin _ hadvance) fun member rest hrest => ?_)
      have hpeek : stream.peek.kind ≠ .eof := by simp [hcomma]
      have hplace : ∀ place : TokenStream, place <:+ rest → place <:+ stream :=
        fun place hplace => hplace.trans (hrest.trans hadvance)
      exact ih rest (beyond_of_peek hpeek hrest) _ (fun place hp => hwithin place (hplace place hp))
        fun place hp => h place (hplace place hp)
    · simp only [if_neg hcomma]
      exact .const _

theorem parenthesized {item : Nested → Reading α}
    (hwithin : ∀ place : TokenStream, place <:+ stream → ReadsWithin bound item place)
    (h : ∀ place : TokenStream, place <:+ stream → StopsWith excused short full item place) :
    StopsWith excused short full (fun nested => Grammar.parenthesized (item nested)) stream := by
  have hfirst := hwithin stream List.suffix_rfl
  refine .upcoming (.ite (.const _) ((h stream List.suffix_rfl).bind hfirst fun first rest hrest => ?_))
  have hwithin' : ∀ place : TokenStream, place <:+ rest → ReadsWithin bound item place :=
    fun place hplace => hwithin place (hplace.trans hrest)
  refine (moreMembers [first] hwithin' fun place hplace => h place (hplace.trans hrest)).bind
    (.moreMembers [first] hwithin') fun _ _ _ => .const _

theorem moreUntil {closer : TokenKind} {one : Nested → Reading α} (read : List α)
    (hwithin : ∀ place : TokenStream, place <:+ stream → ReadsWithin bound one place)
    (h : ∀ place : TokenStream, place <:+ stream → StopsWith excused short full one place) :
    StopsWith excused short full (fun nested => Grammar.moreUntil closer (one nested) read) stream := by
  induction stream using beyondInduction generalizing read with
  | step stream ih =>
    refine of_run_eq ?_ fun any => run_moreUntil closer (one any) read stream
    by_cases hend : stream.cur.kind = closer ∨ stream.cur.kind = .eof
    · simp only [if_pos hend]
      exact .const _
    · simp only [if_neg hend]
      have hone := hwithin stream List.suffix_rfl
      refine (h stream List.suffix_rfl).bind hone fun thing rest hrest => .advance ?_
      have hcur : stream.cur.kind ≠ .eof := fun heof => hend (.inr heof)
      have hplace : ∀ place : TokenStream, place <:+ rest.advance → place <:+ stream :=
        fun place hplace => hplace.trans (suffix_advance hrest)
      exact ih rest.advance (beyond_of_cur hcur (advance_suffix_advance hrest)) _
        (fun place hp => hwithin place (hplace place hp)) fun place hp => h place (hplace place hp)

/-! ## Constructs -/

variable {rules : Rules}

theorem statement (h : NestedRefines excused short full) :
    StopsWith excused short full Grammar.statement stream := by
  have hone (precedence : Precedence) (place : TokenStream) :
      StopsWith excused short full (fun nested => nested precedence) place := .nested h precedence
  refine .current ?_
  split
  · exact .current (.expect (.after _ fun _ _ => .expect (.advance
      ((hone _ _).bind (.nested List.suffix_rfl _) fun _ _ _ => .const _))))
  · exact .current (.advance ((hone _ _).bind (.nested List.suffix_rfl _) fun _ _ _ => .const _))
  · exact .current ((hone _ _).bind (.nested List.suffix_rfl _) fun _ _ _ => .const _)

/-- A loop of statements stops with one of them. -/
theorem statements (h : NestedRefines excused short full) (closer : TokenKind) (read : List Node) :
    StopsWith excused short full (fun nested => Grammar.moreUntil closer (Grammar.statement nested) read)
      stream :=
  moreUntil read (fun _ hplace => ReadsWithin.statement hplace) fun _ _ => statement h

theorem blockStatement (h : NestedRefines excused short full) :
    StopsWith excused short full Grammar.blockStatement stream :=
  .current (.advance ((statements h .rbrace []).bind
    (.moreUntil [] fun _ hplace => ReadsWithin.statement hplace) fun _ _ _ => .const _))

theorem program (h : NestedRefines excused short full) :
    StopsWith excused short full Grammar.program stream :=
  (statements h .eof []).bind (.moreUntil [] fun _ hplace => ReadsWithin.statement hplace)
    fun _ _ _ => .const _

theorem applyPrefix (h : NestedRefines excused short full) (rule : PrefixRule) :
    StopsWith excused short full (Grammar.applyPrefix · rule) stream := by
  have hone (precedence : Precedence) (place : TokenStream) :
      StopsWith excused short full (fun nested => nested precedence) place := .nested h precedence
  cases rule with
  | identifier | integer | boolean => exact .const _
  | operator => exact .current (.advance ((hone _ _).bind (.nested List.suffix_rfl _) fun _ _ _ => .const _))
  | group => exact .advance ((hone _ _).bind (.nested List.suffix_rfl _) fun _ _ _ => .const _)
  | conditional =>
    refine .current (.expect (.advance ?_))
    refine (hone _ _).bind (.nested List.suffix_rfl _) fun _ rest hrest => .expect (.expect ?_)
    refine (blockStatement h).bind (.blockStatement List.suffix_rfl) fun _ last hlast => .upcoming ?_
    refine .ite (.advance (.expect ?_)) (.const _)
    exact (blockStatement h).bind (.blockStatement List.suffix_rfl) fun _ _ _ => .const _
  | function =>
    exact .current (.expect (.after _ fun _ _ => .expect
      ((blockStatement h).bind (.blockStatement List.suffix_rfl) fun _ _ _ => .const _)))

theorem applyInfix (h : NestedRefines excused short full) (rule : InfixRule) (left : Node) :
    StopsWith excused short full (Grammar.applyInfix · rule left) stream := by
  have hone (precedence : Precedence) (place : TokenStream) :
      StopsWith excused short full (fun nested => nested precedence) place := .nested h precedence
  cases rule with
  | operator => exact .current (.advance ((hone _ _).bind (.nested List.suffix_rfl _) fun _ _ _ => .const _))
  | call =>
    have hargument : ∀ place : TokenStream, place <:+ stream →
        ReadsWithin stream (fun nested => do Reading.advance; nested .lowest) place :=
      fun place hplace => .advance (.nested (suffix_advance hplace) _)
    exact .current ((parenthesized hargument fun _ _ => .advance (hone _ _)).bind
      (.parenthesized hargument) fun _ _ _ => .const _)

theorem operand (h : NestedRefines excused short full) :
    StopsWith excused short full (Grammar.operand rules) stream := by
  refine .current ?_
  cases rules.prefixRule? stream.cur.kind with
  | none => exact .const _
  | some rule => exact applyPrefix h rule

theorem continued (h : NestedRefines excused short full) (precedence : Precedence) (left : Node) :
    StopsWith excused short full (Grammar.continued rules · precedence left) stream := by
  induction stream using beyondInduction generalizing left with
  | step stream ih =>
    refine of_run_eq ?_ fun any => run_continued_eq_bind rules any precedence left stream
    by_cases hbinds : precedence < .ofKind stream.peek.kind
    · simp only [if_pos hbinds]
      cases rules.infixRule? stream.peek.kind with
      | none => exact .const _
      | some rule =>
        refine .advance ((applyInfix h rule left).bind
          (ReadsWithin.applyInfix List.suffix_rfl rule left) fun longer rest hrest => ?_)
        exact ih rest (beyond_of_peek (Precedence.ne_eof_of_lt hbinds) hrest) longer
    · simp only [if_neg hbinds]
      exact .const _

theorem expressionFrom (h : NestedRefines excused short full) (precedence : Precedence) :
    StopsWith excused short full (Grammar.expressionFrom rules · precedence) stream :=
  (operand h).bind (ReadsWithin.operand List.suffix_rfl) fun left _ _ => continued h precedence left

end StopsWith

end Monkey.Grammar
