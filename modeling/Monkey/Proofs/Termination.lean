import Mathlib
import Monkey.Proofs.Dependence

/-!
# Termination

Reading an expression reads others from later tokens on only, so the recursion ends for every stream, with
at most one level of nesting for each token and one more. Every turn of a loop ends it, fails, or goes on
from a later token. Past the last token nothing gets shorter any more: an expression fails there at once,
and every loop, however many are open, is over.
-/

namespace Monkey.Grammar

open Reading

variable {nested other : Nested} {precedence : Precedence} {place stream : TokenStream}

/-! ## The recursion -/

/-- An expression that starts at the end of input fails at once. -/
theorem run_expressionFrom_of_eof (nested : Nested) (precedence : Precedence) (h : stream.cur.kind = .eof) :
    (expressionFrom .standard nested precedence).run stream =
      .failed (.invalid (.missingPrefixRule stream.cur)) stream := by
  have hrule : Rules.standard.prefixRule? stream.cur.kind = none := by rw [h]; rfl
  rw [expressionFrom, run_bind, operand, run_bind_current]
  simp only [hrule, run_reject]

/-- An expression depends on the expressions from later tokens on alone. -/
theorem expressionFrom_congr
    (h : ∀ precedence place, Beyond place stream →
      (nested precedence).run place = (other precedence).run place)
    (precedence : Precedence) :
    (expressionFrom .standard nested precedence).run stream =
      (expressionFrom .standard other precedence).run stream := by
  by_cases hcur : stream.cur.kind = .eof
  · rw [run_expressionFrom_of_eof _ _ hcur, run_expressionFrom_of_eof _ _ hcur]
  · by_contra hne
    obtain ⟨later, place, hplace, hdiffer, -⟩ :=
      (ReadsWithin.expressionFrom List.suffix_rfl precedence).differ nested other hne
    exact hdiffer (h later place (beyond_of_cur hcur hplace))

/-- One level of nesting for each token and one more are enough: more levels make no difference. -/
theorem run_expression_of_lt {levels more : Nat} (hlevels : stream.length < levels)
    (hmore : stream.length < more) (precedence : Precedence) :
    (expression .standard levels precedence).run stream =
      (expression .standard more precedence).run stream := by
  induction levels generalizing more stream precedence with
  | zero => omega
  | succ levels ih =>
    obtain ⟨more, rfl⟩ := Nat.exists_eq_add_one_of_ne_zero (Nat.ne_of_gt (Nat.zero_lt_of_lt hmore))
    refine expressionFrom_congr (fun later place hplace => ih ?_ ?_ later) precedence
    · have hlt := hplace.2
      omega
    · have hlt := hplace.2
      omega

/-- The reading of expressions without a limit on nesting. -/
def unlimited : Nested := fun precedence stream =>
  expression .standard (stream.length + 1) precedence stream

theorem run_unlimited_eq_expression {levels : Nat} (h : stream.length < levels) (precedence : Precedence) :
    (unlimited precedence).run stream = (expression .standard levels precedence).run stream :=
  run_expression_of_lt (Nat.lt_succ_self _) h precedence

/-- Without a limit expressions consist of expressions without a limit. -/
theorem run_unlimited (precedence : Precedence) (stream : TokenStream) :
    (unlimited precedence).run stream = (expressionFrom .standard unlimited precedence).run stream := by
  refine expressionFrom_congr (fun later place hplace => ?_) precedence
  exact (run_unlimited_eq_expression hplace.2 later).symm

/-- Readings of which every run is the same are the same. -/
theorem ext_run {α : Type} {reading same : Reading α} (h : ∀ stream, reading.run stream = same.run stream) :
    reading = same := funext fun stream => Subtype.ext (h stream)

/-- There is one way to read expressions that consist of expressions that are read in this way. -/
theorem expressionFrom_eq_self_iff (nested : Nested) :
    expressionFrom .standard nested = nested ↔ nested = unlimited := by
  constructor
  · intro h
    funext precedence
    refine ext_run fun stream => ?_
    induction stream using beyondInduction generalizing precedence with
    | step stream ih =>
      -- Two solutions that agree on all later tokens agree here, as neither depends on anything else.
      have hlater : ∀ later place, Beyond place stream →
          (nested later).run place = (unlimited later).run place :=
        fun later place hplace => ih place hplace later
      calc (nested precedence).run stream
          = (expressionFrom .standard nested precedence).run stream := by rw [h]
        _ = (expressionFrom .standard unlimited precedence).run stream :=
          expressionFrom_congr hlater precedence
        _ = (unlimited precedence).run stream := (run_unlimited precedence stream).symm
  · rintro rfl
    exact funext fun precedence => ext_run fun stream => (run_unlimited precedence stream).symm

/-- Without a limit nesting is never too deep. -/
theorem unlimited_fails (precedence : Precedence) (stream : TokenStream) :
    (unlimited precedence).Fails stream fun failure _ => ¬ failure.IsNestingTooDeep := by
  induction stream using beyondInduction generalizing precedence with
  | step stream ih =>
    intro failure rest hrun hdeep
    rw [run_unlimited] at hrun
    by_cases hcur : stream.cur.kind = .eof
    · rw [run_expressionFrom_of_eof _ _ hcur] at hrun
      obtain ⟨t, rfl⟩ := hdeep
      cases hrun
    · obtain ⟨later, place, hplace, hfails⟩ :=
        (ReadsWithin.expressionFrom List.suffix_rfl precedence).tooDeep unlimited failure rest hrun hdeep
      exact ih place (beyond_of_cur hcur hplace) later failure rest hfails hdeep

/-- A program is read as without a limit if there are more levels of nesting than tokens. -/
theorem run_program_of_lt {levels : Nat} (h : stream.length < levels) :
    (program (expression .standard levels)).run stream = (program unlimited).run stream := by
  by_contra hne
  obtain ⟨precedence, place, hplace, hdiffer, -⟩ := (ReadsWithin.program List.suffix_rfl).differ _ _ hne
  exact hdiffer (run_unlimited_eq_expression (Nat.lt_of_le_of_lt hplace.length_le h) precedence).symm

theorem program_unlimited_fails (stream : TokenStream) :
    (program unlimited).Fails stream fun failure _ => ¬ failure.IsNestingTooDeep := by
  intro failure rest hrun hdeep
  obtain ⟨precedence, place, -, hfails⟩ :=
    (ReadsWithin.program List.suffix_rfl).tooDeep unlimited failure rest hrun hdeep
  exact unlimited_fails precedence place failure rest hfails hdeep

/-! ## Activations -/

/-- An expression that is read from a stream on, with the operators above a precedence. -/
structure Activation where
  precedence : Precedence
  stream : TokenStream

/-- How the expression is read. -/
def Activation.outcome (activation : Activation) : Outcome Node :=
  (unlimited activation.precedence).run activation.stream

/-- One expression is read inside of another one. -/
def Calls (caller callee : Activation) : Prop :=
  ReadsAt (expressionFrom .standard · caller.precedence) unlimited caller.stream callee.precedence
    callee.stream

variable {caller callee : Activation}

/-- What is read is in the part of the stream that is read within. -/
theorem ReadsAt.suffix {α : Type} {construct : Nested → Reading α} {bound : TokenStream}
    (h : ReadsAt construct nested stream precedence place) (hwithin : ReadsWithin bound construct stream) :
    place <:+ bound := by
  by_contra hplace
  refine h.not_forall_eq ((construct nested).run stream) fun failure => ?_
  by_contra hne
  obtain ⟨_, _, hbound, hdiffer, -⟩ := hwithin.differ nested _ (Ne.symm hne)
  obtain ⟨rfl, rfl⟩ := Nested.eq_of_run_failingAt_ne hdiffer
  exact hplace hbound

/-- An expression inside of another one starts at a later token. -/
theorem Calls.beyond (h : Calls caller callee) : Beyond callee.stream caller.stream := by
  refine beyond_of_cur (fun hcur => ?_) (h.suffix (ReadsWithin.expressionFrom List.suffix_rfl _))
  exact h.not_forall_eq _ fun failure => run_expressionFrom_of_eof _ _ hcur

/-- An expression leaves no more than any one inside of it. -/
theorem Calls.leaves (h : Calls caller callee) : caller.outcome.rest <:+ callee.outcome.rest := by
  rw [Activation.outcome, run_unlimited]
  exact (ReadsWithin.expressionFrom List.suffix_rfl _).leaves unlimited _ _ h

theorem beyond_of_transGen_calls (h : Relation.TransGen Calls caller callee) :
    Beyond callee.stream caller.stream := by
  induction h with
  | single hcall => exact hcall.beyond
  | tail _ hcall ih => exact hcall.beyond.trans ih

theorem leaves_of_reflTransGen_calls (h : Relation.ReflTransGen Calls caller callee) :
    caller.outcome.rest <:+ callee.outcome.rest := by
  induction h with
  | refl => exact List.suffix_rfl
  | tail _ hcall ih => exact ih.trans hcall.leaves

/-- An expression depends on those alone that are read inside of it. -/
theorem outcome_eq_of_agree
    (h : ∀ callee, Calls caller callee → (nested callee.precedence).run callee.stream = callee.outcome) :
    (expressionFrom .standard nested caller.precedence).run caller.stream = caller.outcome := by
  rw [Activation.outcome, run_unlimited]
  by_contra hne
  obtain ⟨precedence, place, -, hdiffer, hreads⟩ :=
    (ReadsWithin.expressionFrom List.suffix_rfl _).differ unlimited nested (Ne.symm hne)
  exact hdiffer (h ⟨precedence, place⟩ hreads).symm

/-! ## Loops -/

/-- A turn of a loop, in a state and on a stream: the loop is over, or what the turn reads ends in some
way. -/
abbrev Turn (σ : Type) := σ → TokenStream → Option (Outcome σ)

/-- A turn of the loop up to a closing token or the end of input: one more thing and the token after it. -/
def untilTurn {α : Type} (closer : TokenKind) (one : Reading α) : Turn (List α) := fun read stream =>
  if stream.cur.kind = closer ∨ stream.cur.kind = .eof then none
  else some ((do let thing ← one; advance; give (thing :: read) : Reading (List α)).run stream)

/-- A turn of the loop over the members of a list: a comma and one more member. -/
def membersTurn {α : Type} (item : Reading α) : Turn (List α) := fun read stream =>
  if stream.peek.kind = .comma then
    some ((do advance; let member ← item; give (member :: read) : Reading (List α)).run stream)
  else none

/-- A turn of the loop over operators: one that binds tighter, and what belongs to it. -/
def operatorTurn (rules : Rules) (nested : Nested) (precedence : Precedence) : Turn Node :=
  fun left stream =>
  if precedence < .ofKind stream.peek.kind then
    some (match rules.infixRule? stream.peek.kind with
      | none => .failed (.invalid (.missingInfixRule stream.peek)) stream
      | some rule => (do advance; applyInfix nested rule left : Reading Node).run stream)
  else none

variable {σ β : Type}

/-- What a loop does in a number of turns: it is over, its turn fails, or it goes on after the turn. -/
inductive Turn.Ends (turn : Turn σ) (finish : σ → β) : Nat → σ → TokenStream → Outcome β → Prop
  | stop {state : σ} {stream : TokenStream} :
      turn state stream = none → Ends turn finish 0 state stream (.done (finish state) stream)
  | fails {state : σ} {stream rest : TokenStream} {failure : ParseFailure} :
      turn state stream = some (.failed failure rest) →
      Ends turn finish 1 state stream (.failed failure rest)
  | goesOn {turns : Nat} {state next : σ} {stream rest : TokenStream} {outcome : Outcome β} :
      turn state stream = some (.done next rest) → Ends turn finish turns next rest outcome →
      Ends turn finish (turns + 1) state stream outcome

/-- A loop consists of turns that go on from later tokens, so it ends in at most one turn for each token
that is left. Past the last token it is over. -/
structure Turn.Governs (turn : Turn σ) (finish : σ → β) (loop : σ → TokenStream → Outcome β) : Prop where
  beyond {state next : σ} {stream rest : TokenStream} :
    turn state stream = some (.done next rest) → Beyond rest stream
  atEnd (state : σ) : turn state [] = none
  ends (state : σ) (stream : TokenStream) :
    ∃ turns ≤ stream.length, turn.Ends finish turns state stream (loop state stream)

/-- A loop that goes on after a turn as it does from there is governed by turns that go on from later
tokens. -/
theorem Turn.governs_of_beyond {turn : Turn σ} {finish : σ → β} {loop : σ → TokenStream → Outcome β}
    (hloop : ∀ state stream, loop state stream =
      match turn state stream with
      | none => .done (finish state) stream
      | some (.failed failure rest) => .failed failure rest
      | some (.done next rest) => loop next rest)
    (hend : ∀ state, turn state [] = none)
    (hbeyond : ∀ {state next stream rest},
      turn state stream = some (.done next rest) → Beyond rest stream) :
    turn.Governs finish loop := by
  refine ⟨hbeyond, hend, fun state stream => ?_⟩
  induction stream using beyondInduction generalizing state with
  | step stream ih =>
    rw [hloop]
    cases hturn : turn state stream with
    | none => exact ⟨0, Nat.zero_le _, .stop hturn⟩
    | some outcome =>
      cases outcome with
      | failed failure rest =>
        cases stream with
        | nil => cases (hend state).symm.trans hturn
        | cons token more => exact ⟨1, by simp, .fails hturn⟩
      | done next rest =>
        have hrest := hbeyond hturn
        obtain ⟨turns, hturns, hends⟩ := ih rest hrest next
        have hshort := hrest.2
        exact ⟨turns + 1, by omega, .goesOn hturn hends⟩

theorem governs_untilTurn {α : Type} (closer : TokenKind) (one : Reading α) :
    (untilTurn closer one).Governs List.reverse
      fun read stream => (untilAfter closer one read stream).val := by
  refine Turn.governs_of_beyond (fun read stream => ?_) (fun _ => if_pos (.inr rfl))
    fun {read next stream rest} hturn => ?_
  · rw [untilAfter_eq, untilTurn]
    by_cases hend : stream.cur.kind = closer ∨ stream.cur.kind = .eof
    · rw [if_pos hend, if_pos hend]
    · rw [if_neg hend, if_neg hend, run_bind]
      cases one.run stream <;> rfl
  · unfold untilTurn at hturn
    split at hturn
    · cases hturn
    · rename_i hend
      obtain ⟨thing, mid, hone, hrest⟩ := run_bind_eq_done.mp (Option.some.inj hturn)
      obtain ⟨-, rfl⟩ : thing :: read = next ∧ mid.advance = rest := by simpa using hrest
      exact beyond_of_cur (fun heof => hend (.inr heof)) (advance_suffix_advance (suffix_of_run hone))

theorem governs_membersTurn {α : Type} (item : Reading α) :
    (membersTurn item).Governs List.reverse
      fun read stream => (membersAfter item read stream).val := by
  refine Turn.governs_of_beyond (fun read stream => ?_) (fun _ => rfl)
    fun {read next stream rest} hturn => ?_
  · rw [membersAfter_eq, membersTurn]
    by_cases hcomma : stream.peek.kind = .comma
    · rw [if_pos hcomma, if_pos hcomma, run_bind_advance, run_bind]
      cases item.run stream.advance <;> rfl
    · rw [if_neg hcomma, if_neg hcomma]
  · unfold membersTurn at hturn
    split at hturn
    · rename_i hcomma
      have hpeek : stream.peek.kind ≠ .eof := by simp [hcomma]
      have hrun := Option.some.inj hturn
      rw [run_bind_advance] at hrun
      exact beyond_of_peek hpeek (suffix_of_run hrun)
    · cases hturn

theorem governs_operatorTurn (rules : Rules) (nested : Nested) (precedence : Precedence) :
    (operatorTurn rules nested precedence).Governs id
      fun left stream => (continuedFrom rules nested precedence left stream).val := by
  refine Turn.governs_of_beyond (fun left stream => ?_) (fun left => ?_)
    fun {left next stream rest} hturn => ?_
  · rw [continuedFrom_eq, operatorTurn]
    by_cases hbinds : precedence < .ofKind stream.peek.kind
    · rw [if_pos hbinds, if_pos hbinds]
      cases rules.infixRule? stream.peek.kind with
      | none => rfl
      | some rule =>
        dsimp only
        rw [run_bind_advance]
        cases (applyInfix nested rule left).run stream.advance <;> rfl
    · rw [if_neg hbinds, if_neg hbinds]
      rfl
  · exact if_neg (Precedence.not_lt_lowest precedence)
  · unfold operatorTurn at hturn
    split at hturn
    · rename_i hbinds
      have hpeek := Precedence.ne_eof_of_lt hbinds
      have hrun := Option.some.inj hturn
      split at hrun
      · cases hrun
      · rw [run_bind_advance] at hrun
        exact beyond_of_peek hpeek (suffix_of_run hrun)
    · cases hturn

/-! ## The end of input -/

/-- If something in a turn has used up the input, the turn is the last one of its loop. -/
theorem untilAfter_of_exhausted {closer : TokenKind} {read : List Node} {outer inner : Activation}
    (hopen : ¬ (stream.cur.kind = closer ∨ stream.cur.kind = .eof))
    (houter : ReadsAt statement unlimited stream outer.precedence outer.stream)
    (hinner : Relation.ReflTransGen Calls outer inner) (hrest : inner.outcome.rest = []) :
    (untilAfter closer (statement unlimited) read stream).val =
      match (statement unlimited).run stream with
      | .done node _ => .done (node :: read).reverse []
      | .failed failure _ => .failed failure [] := by
  -- The turn leaves no more than the outer expression, which leaves no more than the inner one: nothing.
  have hleaves : ((statement unlimited).run stream).rest <:+ inner.outcome.rest :=
    ((ReadsWithin.statement List.suffix_rfl).leaves unlimited _ _ houter).trans
      (leaves_of_reflTransGen_calls hinner)
  rw [hrest, List.suffix_nil] at hleaves
  rw [untilAfter_eq, if_neg hopen]
  cases hrun : (statement unlimited).run stream with
  | failed failure rest =>
    rw [hrun] at hleaves
    exact congrArg _ hleaves
  | done node rest =>
    rw [hrun] at hleaves
    obtain rfl : rest = [] := hleaves
    -- Going on from the end of input leads nowhere, but the loop looks at the current token first.
    exact (untilAfter_eq closer _ _ []).trans (if_pos (.inr rfl))

/-- A number of functions that are opened one inside of the other, and what follows. -/
def openFunctions : Nat → TokenStream → TokenStream
  | 0, body => body
  | depth + 1, body =>
    ⟨.kwFunction, "fn"⟩ :: ⟨.lparen, "("⟩ :: ⟨.rparen, ")"⟩ :: ⟨.lbrace, "\x7b"⟩ :: openFunctions depth body

/-- Statements in a number of functions one inside of the other. -/
def inFunctions : Nat → List Node → List Node
  | 0, statements => statements
  | depth + 1, statements =>
    [.expressionStatement ⟨.kwFunction, "fn"⟩ (.function ⟨.kwFunction, "fn"⟩ []
      (.block ⟨.lbrace, "\x7b"⟩ (inFunctions depth statements)))]

/-- An expression that ends with its operand at the end of input. -/
theorem run_unlimited_of_operand {node : Node}
    (h : (operand .standard unlimited).run stream = .done node []) :
    (unlimited precedence).run stream = .done node [] := by
  rw [run_unlimited, expressionFrom, run_bind, h]
  exact (run_continued precedence).trans (if_neg (Precedence.not_lt_lowest precedence))

/-- A loop ends with a function whose block runs into the end of input. -/
theorem run_allUntil_openFunction {closer : TokenKind} {depth : Nat} {body : TokenStream}
    {statements : List Node} (hcloser : closer ≠ .kwFunction)
    (h : (allUntil .rbrace (statement unlimited)).run (openFunctions depth body) =
      .done (inFunctions depth statements) []) :
    (allUntil closer (statement unlimited)).run (openFunctions (depth + 1) body) =
      .done (inFunctions (depth + 1) statements) [] := by
  have hblock : (blockStatement unlimited).run (⟨.lbrace, "\x7b"⟩ :: openFunctions depth body) =
      .done (.block ⟨.lbrace, "\x7b"⟩ (inFunctions depth statements)) [] :=
    run_blockStatement_eq_done.mpr ⟨_, run_allUntil_eq_done.mp h, rfl⟩
  have hfunction : (functionLiteral unlimited).run (openFunctions (depth + 1) body) =
      .done (.function ⟨.kwFunction, "fn"⟩ []
        (.block ⟨.lbrace, "\x7b"⟩ (inFunctions depth statements))) [] :=
    run_functionLiteral_eq_done.mpr
      ⟨rfl, [], _, run_parenthesized_eq_done.mpr (.inl ⟨rfl, rfl, rfl⟩), rfl, _, hblock, rfl⟩
  have hstatement : (statement unlimited).run (openFunctions (depth + 1) body) =
      .done (.expressionStatement ⟨.kwFunction, "fn"⟩ (.function ⟨.kwFunction, "fn"⟩ []
        (.block ⟨.lbrace, "\x7b"⟩ (inFunctions depth statements)))) [] := by
    have hexpression : (unlimited .lowest).run (openFunctions (depth + 1) body) = _ :=
      run_unlimited_of_operand hfunction
    exact (run_statement _).trans
      (run_expressionStatement_eq_done.mpr ⟨_, [], hexpression, rfl, rfl⟩)
  refine run_allUntil_eq_done.mpr (.step ?_ hstatement (.stop (.inr rfl)))
  rintro (heq | heq)
  · exact hcloser heq.symm
  · cases heq

/-- Loops that are open one inside of the other, at any depth, all end where the input does. -/
theorem run_allUntil_openFunctions {body : TokenStream} {statements : List Node}
    (h : (allUntil .rbrace (statement unlimited)).run body = .done statements []) (depth : Nat) :
    (allUntil .rbrace (statement unlimited)).run (openFunctions depth body) =
      .done (inFunctions depth statements) [] := by
  induction depth with
  | zero => exact h
  | succ depth ih => exact run_allUntil_openFunction (by decide) ih

theorem run_program_openFunctions {body : TokenStream} {statements : List Node}
    (h : (allUntil .rbrace (statement unlimited)).run body = .done statements []) (depth : Nat) :
    (program unlimited).run (openFunctions (depth + 1) body) =
      .done (.program .endOfInput (inFunctions (depth + 1) statements)) [] := by
  rw [program, run_bind, run_allUntil_openFunction (by decide) (run_allUntil_openFunctions h depth)]
  rfl

/-! ## Parsing -/

theorem parseTokens_of_lt {levels : Nat} (h : stream.length < levels) :
    parseTokens .standard levels stream = ((program unlimited).run stream).result :=
  congrArg Outcome.result (run_program_of_lt h)

theorem parseTokens_ne_tooDeep {levels : Nat} (h : stream.length < levels) (t : Token) :
    parseTokens .standard levels stream ≠ .error (.invalid (.nestingTooDeep t)) := by
  intro hdeep
  rw [parseTokens_of_lt h] at hdeep
  cases hrun : (program unlimited).run stream with
  | done node rest => simp [hrun, Outcome.result] at hdeep
  | failed failure rest =>
    rw [hrun] at hdeep
    exact program_unlimited_fails stream failure rest hrun ⟨t, Except.error.inj hdeep⟩

/-- Parsing terminates. Without a limit there is one way to read expressions, and a limit above the number
of tokens makes no difference to the result, which is then never that nesting is too deep. An expression
inside of another one, at any depth, starts at a later token; an expression depends on those inside of it
alone; and one that starts at the end of input fails at once. In each of the loops, over the statements of
a program or a block, the members of a list and the operators of an expression, every turn goes on from a
later token or is the last one. A loop of statements in which an expression at any depth has used up the
input makes no other turn, and blocks that are open one inside of the other all end with the input. -/
theorem parsing_terminates :
    (∀ nested : Nested, expressionFrom .standard nested = nested ↔ nested = unlimited) ∧
    (∀ (stream : TokenStream) (levels : Nat), stream.length < levels →
      parseTokens .standard levels stream = ((program unlimited).run stream).result ∧
        ∀ t, parseTokens .standard levels stream ≠ .error (.invalid (.nestingTooDeep t))) ∧
    (∀ caller callee : Activation, Relation.TransGen Calls caller callee →
      Beyond callee.stream caller.stream) ∧
    (∀ (nested : Nested) (caller : Activation),
      (∀ callee, Calls caller callee → (nested callee.precedence).run callee.stream = callee.outcome) →
        (expressionFrom .standard nested caller.precedence).run caller.stream = caller.outcome) ∧
    (∀ caller : Activation, caller.stream.cur.kind = .eof →
      caller.outcome = .failed (.invalid (.missingPrefixRule caller.stream.cur)) caller.stream) ∧
    (∀ (closer : TokenKind) (one : Reading Node), (untilTurn closer one).Governs List.reverse
      fun read stream => (untilAfter closer one read stream).val) ∧
    (∀ item : Reading Node, (membersTurn item).Governs List.reverse
      fun read stream => (membersAfter item read stream).val) ∧
    (∀ (rules : Rules) (nested : Nested) (precedence : Precedence),
      (operatorTurn rules nested precedence).Governs id
        fun left stream => (continuedFrom rules nested precedence left stream).val) ∧
    (∀ (closer : TokenKind) (read : List Node) (stream : TokenStream) (outer inner : Activation),
      ¬ (stream.cur.kind = closer ∨ stream.cur.kind = .eof) →
      ReadsAt statement unlimited stream outer.precedence outer.stream →
      Relation.ReflTransGen Calls outer inner → inner.outcome.rest = [] →
        (untilAfter closer (statement unlimited) read stream).val =
          match (statement unlimited).run stream with
          | .done node _ => .done (node :: read).reverse []
          | .failed failure _ => .failed failure []) ∧
    ∀ (body : TokenStream) (statements : List Node),
      (allUntil .rbrace (statement unlimited)).run body = .done statements [] →
      ∀ depth, (program unlimited).run (openFunctions (depth + 1) body) =
        .done (.program .endOfInput (inFunctions (depth + 1) statements)) [] := by
  refine ⟨expressionFrom_eq_self_iff, fun stream levels h => ?_, fun _ _ => beyond_of_transGen_calls,
    fun _ _ => outcome_eq_of_agree, fun caller h => ?_, governs_untilTurn, governs_membersTurn,
    governs_operatorTurn, fun _ _ _ _ _ => untilAfter_of_exhausted, fun _ _ => run_program_openFunctions⟩
  · exact ⟨parseTokens_of_lt h, parseTokens_ne_tooDeep h⟩
  · exact (run_unlimited _ _).trans (run_expressionFrom_of_eof _ _ h)

set_option maxRecDepth 20000 in
/-- Two open blocks end with the input. -/
theorem open_blocks_terminate :
    let body : TokenStream := [⟨.ident, "b"⟩]
    let inside : Activation := ⟨.lowest, openFunctions 1 body⟩
    let outside : Activation := ⟨.lowest, openFunctions 2 body⟩
    Calls outside inside ∧ Beyond inside.stream outside.stream ∧
    parseTokens .standard 10 (openFunctions 2 body) = .ok (.program .endOfInput (inFunctions 2
      [.expressionStatement ⟨.ident, "b"⟩ (.identifier ⟨.ident, "b"⟩ "b")])) := by
  intro body inside outside
  have hterminates := parsing_terminates
  have hcalls : Calls outside inside := by
    intro failure
    cbv
  have hbody : (allUntil .rbrace (statement unlimited)).run body =
      .done [.expressionStatement ⟨.ident, "b"⟩ (.identifier ⟨.ident, "b"⟩ "b")] [] := by
    cbv
  refine ⟨hcalls, hterminates.2.2.1 outside inside (.single hcalls), ?_⟩
  rw [(hterminates.2.1 (openFunctions 2 body) 10 (by decide)).1]
  exact congrArg Outcome.result (hterminates.2.2.2.2.2.2.2.2.2 body _ hbody 1)

end Monkey.Grammar
