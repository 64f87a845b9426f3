import Monkey.Proofs.Completion
import Monkey.Proofs.Lookahead
import Monkey.Proofs.Soundness

/-!
# Where a failed reading stops, its phrase can be completed

A reading with the rules of the language fails at a token that cannot be read there: the one after the
current one if another kind was expected, and otherwise the current one. All tokens before it belong to
a phrase that can be completed, unless nesting is too deep or the text of a number is not converted.

The argument follows every reading to its failures. The parts of a construct before the one that fails
are phrases that were read in full; the part that fails can be completed; and the parts after it are
supplied.
-/

namespace Monkey

/-- All failures of a reading of a stream meet a condition, together with the stream that is left. -/
def Reading.Fails {α : Type} (reading : Reading α) (stream : TokenStream)
    (failing : ParseFailure → TokenStream → Prop) : Prop :=
  ∀ failure rest, reading.run stream = .failed failure rest → failing failure rest

namespace Reading

variable {α β : Type} {reading : Reading α} {stream : TokenStream}
  {failing failing' : ParseFailure → TokenStream → Prop}

theorem Fails.of_run_eq {same : Reading α} {stream' : TokenStream} (h : same.Fails stream' failing)
    (heq : reading.run stream = same.run stream') : reading.Fails stream failing :=
  fun failure rest hrun => h failure rest (heq ▸ hrun)

theorem Fails.mono (h : reading.Fails stream failing)
    (hstep : ∀ failure rest, failing failure rest → failing' failure rest) :
    reading.Fails stream failing' := fun failure rest hrun => hstep failure rest (h failure rest hrun)

theorem fails_give (value : α) : (give value).Fails stream failing := fun _ _ hrun => nomatch hrun

theorem fails_reject {error : SyntaxError} (h : failing (.invalid error) stream) :
    (reject error : Reading α).Fails stream failing := by
  intro failure rest hrun
  obtain ⟨rfl, rfl⟩ := Outcome.failed.inj hrun
  exact h

/-- A sequence fails where its first part does, or where its second part does after the first one. -/
theorem Fails.bind {following : α → Reading β} (h : reading.Fails stream failing)
    (hfollowing : ∀ value rest, reading.run stream = .done value rest →
      (following value).Fails rest failing) : (reading >>= following).Fails stream failing := by
  intro failure rest hrun
  rcases run_bind_eq_failed.mp hrun with hfirst | ⟨value, mid, hdone, hsecond⟩
  · exact h failure rest hfirst
  · exact hfollowing value mid hdone failure rest hsecond

theorem Fails.current {following : Token → Reading α} (h : (following stream.cur).Fails stream failing) :
    (Reading.current >>= following).Fails stream failing := h.of_run_eq (run_bind_current _ _)

theorem Fails.upcoming {following : Token → Reading α}
    (h : (following stream.peek).Fails stream failing) :
    (Reading.upcoming >>= following).Fails stream failing := h.of_run_eq (run_bind_upcoming _ _)

theorem Fails.advance {following : Unit → Reading α}
    (h : (following ()).Fails stream.advance failing) :
    (Reading.advance >>= following).Fails stream failing := h.of_run_eq (run_bind_advance _ _)

/-- An expectation fails well if it does so at the next token, or what follows it does. -/
theorem Fails.expect {kind : TokenKind} {following : Unit → Reading α}
    (hfailing : failing (.invalid (.unexpectedToken kind stream.peek)) stream)
    (h : stream.peek.kind = kind → (following ()).Fails stream.advance failing) :
    (Reading.expect kind >>= following).Fails stream failing := by
  intro failure rest hrun
  rw [run_bind_expect] at hrun
  by_cases hkind : stream.peek.kind = kind
  · rw [if_pos hkind] at hrun
    exact h hkind failure rest hrun
  · rw [if_neg hkind] at hrun
    obtain ⟨rfl, rfl⟩ := Outcome.failed.inj hrun
    exact hfailing

theorem fails_skip {kind : TokenKind} (value : α) :
    (do skip kind; give value : Reading α).Fails stream failing := by
  intro failure rest hrun
  rw [run_bind_skip] at hrun
  cases hrun

theorem Fails.ite {p : Prop} [Decidable p] {no : Reading α} (hyes : p → reading.Fails stream failing)
    (hno : ¬ p → no.Fails stream failing) : (if p then reading else no).Fails stream failing := by
  split
  · exact hyes ‹p›
  · exact hno ‹¬ p›

end Reading

namespace Derivation

/-- A reading of a phrase has stopped at a token that cannot be read there, after tokens of a phrase
that can be completed; or because nesting is too deep or a number is not converted. -/
inductive Stopped (phrase : Phrase) (input : List Token) : ParseFailure → TokenStream → Prop
  | unexpected {rest : TokenStream} (kind : TokenKind) :
      Completable phrase input rest.advance →
      Stopped phrase input (.invalid (.unexpectedToken kind rest.peek)) rest
  | missing {rest : TokenStream} :
      Completable phrase input rest →
      Stopped phrase input (.invalid (.missingPrefixRule rest.cur)) rest
  | tooLarge {rest : TokenStream} :
      Completable phrase input rest →
      Stopped phrase input (.invalid (.invalidInteger rest.cur)) rest
  | tooDeep {rest : TokenStream} (t : Token) :
      Stopped phrase input (.invalid (.nestingTooDeep t)) rest
  | unreadable {rest : TokenStream} (error : Text.NumeralError) :
      Stopped phrase input (.unreadable error) rest

/-- What can be made of the completed part can be made of the whole. -/
theorem Stopped.mono {first phrase : Phrase} {inside input : List Token} {failure : ParseFailure}
    {rest : TokenStream} (h : Stopped first inside failure rest)
    (hstep : ∀ unread, Completable first inside unread → Completable phrase input unread) :
    Stopped phrase input failure rest := by
  cases h with
  | unexpected kind h => exact .unexpected kind (hstep _ h)
  | missing h => exact .missing (hstep _ h)
  | tooLarge h => exact .tooLarge (hstep _ h)
  | tooDeep t => exact .tooDeep t
  | unreadable error => exact .unreadable error

/-- A syntax error other than too deep nesting is noticed at the token that it names, and what comes
before this token can be completed. -/
theorem Stopped.completable {phrase : Phrase} {input : List Token} {error : SyntaxError}
    {rest : TokenStream} (h : Stopped phrase input (.invalid error) rest)
    (hlimit : ∀ t, error ≠ .nestingTooDeep t) :
    error.kindName ∈ ["UNEXPECTED_TOKEN", "MISSING_PREFIX_RULE", "INVALID_INTEGER"] ∧
      error.found = TokenStream.cur ((ParseFailure.invalid error).unread rest) ∧
      Completable phrase input ((ParseFailure.invalid error).unread rest) := by
  cases h with
  | unexpected kind h => exact ⟨by simp [SyntaxError.kindName], rfl, h⟩
  | missing h => exact ⟨by simp [SyntaxError.kindName], rfl, h⟩
  | tooLarge h => exact ⟨by simp [SyntaxError.kindName], rfl, h⟩
  | tooDeep t => exact absurd rfl (hlimit t)

namespace Phrase

/-- The tokens of an expression on some level. Here as for the other constructs below any tree will do,
since the one that a completion gives cannot be known before the tokens that are missing. -/
def expression (level : Precedence) : Phrase := fun input after =>
  ∃ node, Expression level input node after

def statement : Phrase := fun input after => ∃ node, Statement input node after

def statements : Phrase := fun input after => ∃ nodes, Statements input nodes after

def block : Phrase := fun input after => ∃ node, Block input node after

def branches : Phrase := fun input after =>
  ∃ consequence alternative, Branches input consequence alternative after

def arguments : Phrase := fun input after => ∃ nodes, Arguments input nodes after

def moreArguments : Phrase := fun input after => ∃ nodes, MoreArguments input nodes after

def parameters : Phrase := fun input after => ∃ nodes, Parameters input nodes after

def moreParameters : Phrase := fun input after => ∃ nodes, MoreParameters input nodes after

/-- A phrase with a token of some kind before it. -/
def after (kinds : TokenKind → Prop) (phrase : Phrase) : Phrase := fun input after =>
  ∃ t rest, kinds t.kind ∧ input = t :: rest ∧ phrase rest after

end Phrase

theorem Completable.after {phrase : Phrase} {stream : TokenStream} {unread : List Token}
    {kinds : TokenKind → Prop} (hcur : kinds stream.cur.kind) (hne : stream.cur.kind ≠ .eof)
    (h : Completable phrase stream.advance unread) :
    Completable (Phrase.after kinds phrase) stream unread :=
  .head rfl hne (h.map fun _ _ hphrase => ⟨_, _, hcur, rfl, hphrase⟩)

end Derivation

namespace Grammar

open Reading Monkey.Derivation TokenStream

variable {α : Type} {nested : Nested} {stream rest : TokenStream} {node : Node}

/-- A reading of a phrase only stops where the phrase can be completed. -/
def Repairs (reading : Reading α) (stream : TokenStream) (phrase : Phrase) (input : List Token) :
    Prop := reading.Fails stream (Stopped phrase input)

/-- Expressions only stop where they can be completed. -/
def NestedRepairs (nested : Nested) : Prop :=
  ∀ {precedence : Precedence} {stream : TokenStream}, precedence ≠ .call → stream.Unended →
    Repairs (nested precedence) stream (.expression precedence.within) stream

theorem Repairs.mono {reading : Reading α} {first phrase : Phrase} {inside input : List Token}
    (h : Repairs reading stream first inside)
    (hstep : ∀ unread, Completable first inside unread → Completable phrase input unread) :
    Repairs reading stream phrase input := Fails.mono h fun _ _ hstopped => hstopped.mono hstep

/-! ## Statements -/

/-- An expression that is missing. -/
theorem completed_expression (tail : List Token) :
    Expression .equals (.sample .kwTrue :: tail) (.boolean (.sample .kwTrue) true) tail :=
  Expression.loosen (.yes rfl) .equals (by decide)

theorem completable_expressionStatement {unread : List Token}
    (h : Completable (.expression .equals) stream unread) : Completable .statement stream unread := by
  refine h.close [] (by decide) ?_
  rintro input tail htail ⟨value, hvalue⟩
  cases input with
  | nil => exact absurd hvalue.starts (by decide)
  | cons t rest => exact ⟨_, .expressionStatement hvalue (.bare htail)⟩

theorem completable_returnStatement {unread : List Token} (hreturn : stream.cur.kind = .kwReturn)
    (h : Completable (.expression .equals) stream.advance unread) :
    Completable .statement stream unread := by
  refine .head hreturn (by decide) (h.close [] (by decide) ?_)
  rintro _ _ htail ⟨_, hvalue⟩
  exact ⟨_, .returnStatement hreturn hvalue (.bare htail)⟩

theorem repairs_statement (h : NestedRepairs nested) (hstream : stream.Unended) :
    Repairs (statement nested) stream .statement stream := by
  refine Fails.current ?_
  split
  · rename_i hlet
    refine .current (.expect (.unexpected .ident ?_) fun hname => ?_)
    · exact .head hlet (by decide) (completable_missing [.ident, .assign, .kwTrue] (by decide)
        fun tail htail => ⟨_, .letStatement hlet rfl rfl (completed_expression tail) (.bare htail)⟩)
    · refine Fails.bind (fun _ _ hrun => by simp at hrun) fun name mid hmid => ?_
      obtain ⟨-, rfl⟩ : _ ∧ stream.advance = mid := by simpa using hmid
      refine .expect (.unexpected .assign ?_) fun hassign => .advance ?_
      · exact .head hlet (by decide) (.head hname (by decide)
          (completable_missing [.assign, .kwTrue] (by decide)
            fun tail htail => ⟨_, .letStatement hlet hname rfl (completed_expression tail) (.bare htail)⟩))
      · refine Fails.bind (Repairs.mono (h (by decide) hstream.advance.advance.advance) ?_)
          fun _ _ _ => fails_skip _
        intro unread hvalue
        refine .head hlet (by decide) (.head hname (by decide) (.head hassign (by decide)
          (hvalue.close [] (by decide) ?_)))
        rintro _ _ htail ⟨_, hvalue⟩
        exact ⟨_, .letStatement hlet hname hassign hvalue (.bare htail)⟩
  · rename_i hreturn
    refine .current (.advance (Fails.bind ?_ fun _ _ _ => fails_skip _))
    exact Repairs.mono (h (by decide) hstream.advance) fun _ => completable_returnStatement hreturn
  · refine .current (Fails.bind ?_ fun _ _ _ => fails_skip _)
    exact Repairs.mono (h (by decide) hstream) fun _ => completable_expressionStatement

/-- A phrase that was read in full, as a phrase with some tree. -/
theorem extends_statement (h : Statement stream node rest) :
    ∃ front n, Extends Phrase.statement stream rest front n := by
  obtain ⟨front, n, h⟩ := h.extends
  exact ⟨front, n, h.map fun _ _ h => ⟨node, h⟩⟩

theorem extends_expression {level : Precedence} (h : Expression level stream node rest) :
    ∃ front n, Extends (Phrase.expression level) stream rest front n := by
  obtain ⟨front, n, h, -⟩ := h.extensible
  exact ⟨front, n, h.map fun _ _ h => ⟨node, h⟩⟩

theorem extends_block (h : Block stream node rest) :
    ∃ front n, Extends Phrase.block stream rest front n := by
  obtain ⟨front, n, h, -⟩ := h.extensible
  exact ⟨front, n, h.map fun _ _ h => ⟨node, h⟩⟩

theorem extends_parameters {nodes : List Node} (h : Parameters stream nodes rest) :
    ∃ front n, Extends Phrase.parameters stream rest front n := by
  obtain ⟨front, n, h, -⟩ := h.extensible
  exact ⟨front, n, h.map fun _ _ h => ⟨nodes, h⟩⟩

theorem repairs_untilAfter (hsound : Sound nested) (h : NestedRepairs nested) (closer : TokenKind)
    (read : List Node) (hstream : stream.Unended) :
    Repairs (untilAfter closer (statement nested) read) stream .statements stream := by
  induction hlen : stream.length using Nat.strongRecOn generalizing stream read with
  | ind len ih =>
    refine Fails.of_run_eq (Fails.current (.ite (fun _ => fails_give _) fun hgo => ?_))
      (run_untilAfter closer (statement nested) read stream)
    refine Fails.bind ((repairs_statement h hstream).mono fun unread hstopped => ?_)
      fun node mid hrun => .advance ?_
    · refine hstopped.map ?_
      rintro _ _ ⟨_, hnode⟩
      exact ⟨_, .cons hnode .nil⟩
    · have hsuffix := (Reading.suffix_of_run hrun).length_le
      have hcur : stream.cur.kind ≠ .eof := fun heof => hgo (.inr heof)
      have hshort := length_advance_lt_of_cur hcur
      have hlt : mid.advance.length < len := by
        simp only [TokenStream.advance, List.length_tail] at hshort ⊢
        omega
      have hmid := (hstream.of_suffix (Reading.suffix_of_run hrun)).advance
      refine (ih _ hlt (node :: read) hmid rfl).mono fun unread hstopped => ?_
      obtain ⟨front, n, hextends⟩ := extends_statement (hsound.statement hstream hrun hcur)
      refine .append hextends hstopped ?_
      rintro _ _ _ ⟨_, hnode⟩ ⟨_, hmore⟩
      exact ⟨_, .cons hnode hmore⟩

theorem repairs_blockStatement (hsound : Sound nested) (h : NestedRepairs nested)
    (hstream : stream.Unended) (hcur : stream.cur.kind = .lbrace) :
    Repairs (blockStatement nested) stream .block stream := by
  refine .current (.advance (Fails.bind ?_ fun _ _ _ => fails_give _))
  refine (repairs_untilAfter hsound h .rbrace [] hstream.advance).mono fun unread hstopped => ?_
  refine .head hcur (by decide) (hstopped.close [.rbrace] (by decide) ?_)
  rintro _ _ _ ⟨_, hstatements⟩
  exact ⟨_, .closed hcur hstatements rfl⟩

/-- A block that is missing. -/
theorem completed_block (tail : List Token) :
    Block (.sample .lbrace :: .sample .rbrace :: tail) (.block (.sample .lbrace) []) tail :=
  .closed rfl .nil rfl

theorem completable_block : Completable .block stream stream :=
  completable_missing [.lbrace, .rbrace] (by decide) fun tail _ => ⟨_, completed_block tail⟩

/-! ## Lists in parentheses -/

/-- The phrases of a list in parentheses: its members, what follows a member, and the whole. -/
structure Listed (member more all : Phrase) : Prop where
  close : ∀ {t : Token} {after : List Token}, t.kind = .rparen → more (t :: after) after
  comma : ∀ {t : Token} {input mid after : List Token}, t.kind = .comma → member input mid →
    more mid after → more (t :: input) after
  some : ∀ {input mid after : List Token}, member input mid → more mid after → all input after

/-- A member of a list is a phrase after the current token. -/
structure ReadsMember (item : Reading α) (member : Phrase) : Prop where
  stops : ∀ {stream : TokenStream}, stream.Unended → Repairs item stream member stream.advance
  done : ∀ {stream rest : TokenStream} {value : α}, stream.Unended →
    item.run stream = .done value rest → ∃ front n, Extends member stream.advance rest.advance front n

variable {item : Reading α} {member more all : Phrase}

/-- What follows a member is put together with it. -/
theorem Listed.completable_comma (hlist : Listed member more all) (hitem : ReadsMember item member)
    {mid : TokenStream} {value : α} {unread : List Token} (hstream : stream.Unended)
    (hcomma : stream.peek.kind = .comma) (hrun : item.run stream.advance = .done value mid)
    (h : Completable more mid.advance unread) : Completable more stream.advance unread := by
  obtain ⟨front, n, hextends⟩ := hitem.done hstream.advance hrun
  exact .head hcomma (by decide) (.append hextends h fun _ _ _ hmember hmore =>
    hlist.comma hcomma hmember hmore)

theorem repairs_membersAfter (hlist : Listed member more all) (hitem : ReadsMember item member)
    (read : List α) (hstream : stream.Unended) :
    Repairs (membersAfter item read) stream more stream.advance := by
  induction hlen : stream.length using Nat.strongRecOn generalizing stream read with
  | ind len ih =>
    refine Fails.of_run_eq (Fails.upcoming (.ite (fun hcomma => .advance ?_) fun _ => fails_give _))
      (run_membersAfter item read stream)
    refine Fails.bind ((hitem.stops hstream.advance).mono fun unread hstopped => ?_)
      fun value mid hrun => ?_
    · exact .head hcomma (by decide) (hstopped.close [.rparen] (by decide)
        fun _ _ _ hmember => hlist.comma hcomma hmember (hlist.close rfl))
    · have hsuffix := Reading.suffix_of_run hrun
      have hpeek : stream.peek.kind ≠ .eof := by simp [hcomma]
      have hshort := length_advance_lt_of_peek hpeek
      have hlt : mid.length < len := hlen ▸ Nat.lt_of_le_of_lt hsuffix.length_le hshort
      exact (ih _ hlt (value :: read) (hstream.advance.of_suffix hsuffix) rfl).mono
        fun _ => hlist.completable_comma hitem hstream hcomma hrun

/-- After the last member the closing parenthesis may be missing. -/
theorem completable_of_members (hlist : Listed member more all) (hitem : ReadsMember item member)
    {values : List α} (h : Members item stream values rest) (hstream : stream.Unended) :
    Completable more stream.advance rest.advance := by
  induction h with
  | stop => exact completable_missing [.rparen] (by decide) fun tail _ => hlist.close rfl
  | step hcomma hrun _ ih =>
    have hmid := hstream.advance.of_suffix (Reading.suffix_of_run hrun)
    exact hlist.completable_comma hitem hstream hcomma hrun (ih hmid)

theorem repairs_parenthesized (hlist : Listed member more all) (hitem : ReadsMember item member)
    (hstream : stream.Unended) : Repairs (parenthesized item) stream all stream.advance := by
  refine Fails.upcoming (.ite (fun _ => .advance (fails_give _)) fun _ => ?_)
  refine Fails.bind ((hitem.stops hstream).mono fun unread hstopped => ?_) fun first mid hfirst => ?_
  · exact hstopped.close [.rparen] (by decide) fun _ _ _ hmember =>
      hlist.some hmember (hlist.close rfl)
  · have hmid := hstream.of_suffix (Reading.suffix_of_run hfirst)
    obtain ⟨front, n, hextends⟩ := hitem.done hstream hfirst
    have hwhole : ∀ unread, Completable more mid.advance unread →
        Completable all stream.advance unread := fun unread hmore =>
      .append hextends hmore fun _ _ _ hmember hmore => hlist.some hmember hmore
    refine Fails.bind ((repairs_membersAfter hlist hitem [first] hmid).mono hwhole)
      fun values last hvalues => .expect (.unexpected .rparen ?_) fun _ => fails_give _
    obtain ⟨others, hmembers, -⟩ := membersAfter_eq_done.mp hvalues
    exact hwhole _ (completable_of_members hlist hitem hmembers hmid)

theorem listed_parameters :
    Listed (fun input after => ∃ t, t.kind = .ident ∧ input = t :: after) .moreParameters
      .parameters where
  close ht := ⟨_, .close ht⟩
  comma := by
    rintro t _ mid after ht ⟨name, hname, rfl⟩ ⟨_, hmore⟩
    exact ⟨_, .comma ht hname hmore⟩
  some := by
    rintro _ mid after ⟨name, hname, rfl⟩ ⟨_, hmore⟩
    exact ⟨_, .some hname hmore⟩

theorem readsMember_parameter :
    ReadsMember (do expect .ident; identifier)
      (fun input after => ∃ t, t.kind = .ident ∧ input = t :: after) where
  stops _ := .expect (.unexpected .ident (completable_missing [.ident] (by decide)
    fun _ _ => ⟨_, rfl, rfl⟩)) fun _ => fun _ _ hrun => by simp at hrun
  done := by
    intro stream rest value _ hrun
    obtain ⟨hname, -, rfl⟩ := run_parameter_eq_done.mp hrun
    rw [advance_eq_cons_of_peek stream (by simp [hname])]
    exact ⟨_, _, .token (by simp [hname]) fun _ => ⟨_, hname, rfl⟩⟩

theorem listed_arguments : Listed (.expression .equals) .moreArguments .arguments where
  close ht := ⟨_, .close ht⟩
  comma := by
    rintro t _ _ after ht ⟨_, hargument⟩ ⟨_, hmore⟩
    exact ⟨_, .comma ht hargument hmore⟩
  some := by
    rintro _ _ after ⟨_, hargument⟩ ⟨_, hmore⟩
    exact ⟨_, .some hargument hmore⟩

theorem readsMember_argument (hsound : Sound nested) (h : NestedRepairs nested) :
    ReadsMember (do advance; nested .lowest) (.expression .equals) where
  stops hstream := .advance (h (by decide) hstream.advance)
  done := by
    intro stream rest value hstream hrun
    rw [run_bind_advance] at hrun
    exact extends_expression (hsound.lowest hstream.advance hrun).1

/-! ## Operands -/

theorem repairs_branches (hsound : Sound nested) (h : NestedRepairs nested)
    (hstream : stream.Unended) (hcur : stream.cur.kind = .lbrace) (t : Token) (condition : Node) :
    Repairs (do
      let consequence ← blockStatement nested
      if (← upcoming).kind = .kwElse then
        advance
        expect .lbrace
        let alternative ← blockStatement nested
        give (Node.conditional t condition consequence (some alternative))
      else
        give (Node.conditional t condition consequence none)) stream .branches stream := by
  refine Fails.bind ((repairs_blockStatement hsound h hstream hcur).mono fun unread hstopped => ?_)
    fun consequence mid hrun => .upcoming (.ite (fun helse => .advance ?_) fun _ => fails_give _)
  · refine hstopped.map ?_
    rintro _ _ ⟨_, hblock⟩
    exact ⟨_, _, .one hblock⟩
  · have hmid := hstream.of_suffix (Reading.suffix_of_run hrun)
    obtain ⟨front, n, hextends⟩ := extends_block (hsound.block hstream hcur hrun)
    have hwhole : ∀ unread, Completable .block mid.advance.advance unread →
        Completable .branches stream unread := by
      intro unread hblock
      have hmore : Completable (.after (· = .kwElse) .block) mid.advance unread :=
        .after helse (by simp [cur_advance, helse]) hblock
      refine .append hextends hmore ?_
      rintro _ _ _ ⟨_, hfirst⟩ ⟨_, _, helse, rfl, _, hsecond⟩
      exact ⟨_, _, .two hfirst helse hsecond⟩
    refine .expect (.unexpected .lbrace (hwhole _ completable_block)) fun hbrace => ?_
    exact Fails.bind ((repairs_blockStatement hsound h hmid.advance.advance hbrace).mono hwhole)
      fun _ _ _ => fails_give _

theorem repairs_ifExpression (hsound : Sound nested) (h : NestedRepairs nested)
    (hstream : stream.Unended) (hcur : stream.cur.kind = .kwIf) :
    Repairs (ifExpression nested) stream (.expression .call) stream := by
  have hcompleted : ∀ tail, Phrase.branches (.sample .lbrace :: .sample .rbrace :: tail) tail :=
    fun tail => ⟨_, _, .one (completed_block tail)⟩
  refine .current (.expect (.unexpected .lparen ?_) fun hopen => .advance ?_)
  · exact completable_first hcur (by decide) [.lparen, .kwTrue, .rparen, .lbrace, .rbrace] (by decide)
      fun tail _ => ⟨_, .conditional hcur rfl (completed_expression _) rfl
        (.one (completed_block tail))⟩
  · refine Fails.bind (Repairs.mono (h (by decide) hstream.advance.advance) fun unread hstopped => ?_)
      fun condition mid hrun => ?_
    · refine .head hcur (by decide) (.head hopen (by decide)
        (hstopped.close [.rparen, .lbrace, .rbrace] (by decide) ?_))
      rintro _ tail _ ⟨_, hcondition⟩
      exact ⟨_, .conditional hcur hopen hcondition rfl (.one (completed_block tail))⟩
    · have hmid := hstream.advance.advance.of_suffix (Reading.suffix_of_run hrun)
      obtain ⟨front, n, hextends⟩ :=
        extends_expression (hsound.lowest hstream.advance.advance hrun).1
      have hwhole : ∀ unread, Completable (.after (· = .rparen) .branches) mid.advance unread →
          Completable (.expression .call) stream unread := by
        intro unread hbranches
        refine .head hcur (by decide) (.head hopen (by decide) (.append hextends hbranches ?_))
        rintro _ _ _ ⟨_, hcondition⟩ ⟨_, _, hclose, rfl, _, _, hbranches⟩
        exact ⟨_, .conditional hcur hopen hcondition hclose hbranches⟩
      refine .expect (.unexpected .rparen (hwhole _ ?_)) fun hclose => ?_
      · exact completable_missing [.rparen, .lbrace, .rbrace] (by decide)
          fun tail _ => ⟨_, _, rfl, rfl, hcompleted tail⟩
      · have hclosed : ∀ unread, Completable .branches mid.advance.advance unread →
            Completable (.expression .call) stream unread := fun unread hbranches =>
          hwhole unread (.after hclose (by simp [cur_advance, hclose]) hbranches)
        refine .expect (.unexpected .lbrace (hclosed _ ?_)) fun hbrace => ?_
        · exact completable_missing [.lbrace, .rbrace] (by decide) fun tail _ => hcompleted tail
        · exact (repairs_branches hsound h hmid.advance.advance hbrace _ condition).mono hclosed

theorem repairs_functionLiteral (hsound : Sound nested) (h : NestedRepairs nested)
    (hstream : stream.Unended) (hcur : stream.cur.kind = .kwFunction) :
    Repairs (functionLiteral nested) stream (.expression .call) stream := by
  refine .current (.expect (.unexpected .lparen ?_) fun hopen => ?_)
  · exact completable_first hcur (by decide) [.lparen, .rparen, .lbrace, .rbrace] (by decide)
      fun tail _ => ⟨_, .function hcur rfl (.none rfl) (completed_block tail)⟩
  · refine Fails.bind ((repairs_parenthesized listed_parameters readsMember_parameter
      hstream.advance).mono fun unread hstopped => ?_) fun parameters mid hrun => ?_
    · refine .head hcur (by decide) (.head hopen (by decide)
        (hstopped.close [.lbrace, .rbrace] (by decide) ?_))
      rintro _ tail _ ⟨_, hparameters⟩
      exact ⟨_, .function hcur hopen hparameters (completed_block tail)⟩
    · have hmid := hstream.advance.of_suffix (Reading.suffix_of_run hrun)
      obtain ⟨front, n, hextends⟩ := extends_parameters (parameters_of_run hrun)
      have hwhole : ∀ unread, Completable .block mid.advance unread →
          Completable (.expression .call) stream unread := by
        intro unread hblock
        refine .head hcur (by decide) (.head hopen (by decide) (.append hextends hblock ?_))
        rintro _ _ _ ⟨_, hparameters⟩ ⟨_, hbody⟩
        exact ⟨_, .function hcur hopen hparameters hbody⟩
      refine .expect (.unexpected .lbrace (hwhole _ completable_block)) fun hbrace => ?_
      exact Fails.bind ((repairs_blockStatement hsound h hmid.advance hbrace).mono hwhole)
        fun _ _ _ => fails_give _

theorem repairs_groupedExpression (hsound : Sound nested) (h : NestedRepairs nested)
    (hstream : stream.Unended) (hcur : stream.cur.kind = .lparen) :
    Repairs (groupedExpression nested) stream (.expression .call) stream := by
  refine .advance (Fails.bind (Repairs.mono (h (by decide) hstream.advance) fun unread hstopped => ?_)
    fun inner mid hrun => .expect (.unexpected .rparen ?_) fun _ => fails_give _)
  · refine .head hcur (by decide) (hstopped.close [.rparen] (by decide) ?_)
    rintro _ _ _ ⟨_, hinner⟩
    exact ⟨_, .group hcur hinner rfl⟩
  · obtain ⟨front, n, hextends⟩ := extends_expression (hsound.lowest hstream.advance hrun).1
    refine .head hcur (by decide) (hextends.completable.close [.rparen] (by decide) ?_)
    rintro _ _ _ ⟨_, hinner⟩
    exact ⟨_, .group hcur hinner rfl⟩

/-- An operand that is missing, or a number in its place that is too large. -/
theorem completable_operand {level : Precedence} :
    Completable (.expression level) stream stream :=
  completable_missing [.kwTrue] (by decide)
    fun _ _ => ⟨_, Expression.loosen (.yes rfl) level (Precedence.level_le_call level)⟩

theorem repairs_integerLiteral : Repairs integerLiteral stream (.expression .call) stream := by
  refine .current ?_
  split
  · rename_i error _
    intro failure rest hrun
    obtain ⟨rfl, rfl⟩ := Outcome.failed.inj hrun
    exact .unreadable error
  · exact .ite (fun _ => fails_reject (.tooLarge completable_operand)) fun _ => fails_give _

theorem repairs_operand (hsound : Sound nested) (h : NestedRepairs nested) (hstream : stream.Unended) :
    Repairs (operand .standard nested) stream (.expression .prefixOp) stream := by
  have hcall : ∀ unread, Completable (.expression .call) stream unread →
      Completable (.expression .prefixOp) stream unread := by
    intro unread hstopped
    refine hstopped.map ?_
    rintro _ _ ⟨_, hexpr⟩
    exact ⟨_, hexpr.loosen .prefixOp (by decide)⟩
  refine .current ?_
  split
  · exact fails_reject (.missing completable_operand)
  · rename_i rule hrule
    cases hkind : stream.cur.kind <;> simp only [Rules.standard, hkind, reduceCtorEq,
      Option.some.injEq] at hrule <;> subst hrule
    case ident => exact fun _ _ hrun => by simp [applyPrefix] at hrun
    case int => exact Repairs.mono repairs_integerLiteral hcall
    case kwTrue | kwFalse => exact fun _ _ hrun => by simp [applyPrefix] at hrun
    case bang | minus =>
      refine .current (.advance (Fails.bind (Repairs.mono (h (by decide) hstream.advance) ?_)
        fun _ _ _ => fails_give _))
      intro unread hstopped
      refine .head hkind (by decide) (hstopped.map ?_)
      rintro _ _ ⟨_, hright⟩
      exact ⟨_, .prefixOp (by simp [hkind]) hright⟩
    case lparen => exact (repairs_groupedExpression hsound h hstream hkind).mono hcall
    case kwIf => exact (repairs_ifExpression hsound h hstream hkind).mono hcall
    case kwFunction => exact (repairs_functionLiteral hsound h hstream hkind).mono hcall

/-! ## Operators -/

/-- The right operand of an operator, or the arguments of a call, after an expression on a level that
the operator does not exceed. -/
theorem repairs_applyInfix (hsound : Sound nested) (h : NestedRepairs nested) {level : Precedence}
    {rule : InfixRule} {left : Node} {input : List Token} (hstream : stream.Unended)
    (hleft : Expression level input left stream.advance)
    (hnext : (Precedence.ofKind stream.peek.kind).level ≤ level.level)
    (hrule : Rules.standard.infixRule? stream.peek.kind = some rule) :
    Repairs (applyInfix nested rule left) stream.advance (.expression (.ofKind stream.peek.kind))
      input := by
  have heof : stream.advance.cur.kind ≠ .eof := fun heof => by
    rw [cur_advance] at heof
    simp [Rules.standard, heof] at hrule
  obtain ⟨front, n, hextends⟩ := extends_expression (hleft.loosen _ hnext)
  cases rule with
  | operator =>
    have hmem := Precedence.mem_operators_of_infixRule hrule
    have hne := Precedence.ne_call_of_mem_operators hmem
    refine .current (.advance (Fails.bind (Repairs.mono (h hne hstream.advance.advance) ?_)
      fun _ _ _ => fails_give _))
    intro unread hstopped
    rw [cur_advance, Precedence.within_of_mem_operators hmem] at hstopped
    have hright : Completable (.after (· ∈ (Precedence.ofKind stream.peek.kind).operators)
        (.expression (Precedence.ofKind stream.peek.kind).tighter)) stream.advance unread :=
      .after hmem heof hstopped
    refine .append hextends hright ?_
    rintro _ _ _ ⟨_, hleft⟩ ⟨_, _, hop, rfl, _, hright⟩
    exact ⟨_, .infixOp hop hleft hright⟩
  | call =>
    have hparen := Precedence.eq_lparen_of_infixRule hrule
    refine .current (Fails.bind (Repairs.mono (repairs_parenthesized listed_arguments
      (readsMember_argument hsound h) hstream.advance) ?_) fun _ _ _ => fails_give _)
    intro unread hstopped
    have hcall : Completable (.after (· = .lparen) .arguments) stream.advance unread :=
      .after hparen heof hstopped
    rw [hparen] at hextends ⊢
    refine .append hextends hcall ?_
    rintro _ _ _ ⟨_, hcallee⟩ ⟨_, _, ht, rfl, _, harguments⟩
    exact ⟨_, .call hcallee ht harguments⟩

/-- There is a rule for every token that binds an expression. -/
theorem infixRule_ne_none_of_lt {precedence : Precedence} {kind : TokenKind}
    (h : precedence < .ofKind kind) : Rules.standard.infixRule? kind ≠ none := by
  have hbinds : Precedence.lowest < .ofKind kind := Nat.lt_of_le_of_lt precedence.one_le_level h
  revert hbinds
  cases kind <;> decide

theorem repairs_continued (hsound : Sound nested) (h : NestedRepairs nested)
    {precedence level : Precedence} {left : Node} {input : List Token} (hstream : stream.Unended)
    (hleft : Expression level input left stream.advance)
    (hnext : (Precedence.ofKind stream.peek.kind).level ≤ level.level) :
    Repairs (continued .standard nested precedence left) stream (.expression precedence.within)
      input := by
  induction hlen : stream.length using Nat.strongRecOn generalizing stream left level with
  | ind len ih =>
    refine Fails.of_run_eq (Fails.upcoming (.ite (fun hbinds => ?_) fun _ => fails_give _))
      (run_continued_eq precedence left stream)
    have hshort : stream.advance.length < stream.length :=
      length_advance_lt_of_peek (Precedence.ne_eof_of_lt hbinds)
    have hwithin : precedence.within.level ≤ (Precedence.ofKind stream.peek.kind).level :=
      Nat.le_trans precedence.level_within_le hbinds
    split
    · rename_i hnone
      exact absurd hnone (infixRule_ne_none_of_lt hbinds)
    · rename_i rule hrule
      refine .advance (Fails.bind ((repairs_applyInfix hsound h hstream hleft hnext hrule).mono
        fun unread hstopped => ?_) fun longer mid hrun => ?_)
      · refine hstopped.map ?_
        rintro _ _ ⟨_, hexpr⟩
        exact ⟨_, hexpr.loosen _ hwithin⟩
      · have hsuffix := Reading.suffix_of_run hrun
        have hlt : mid.length < len := hlen ▸ Nat.lt_of_le_of_lt hsuffix.length_le hshort
        obtain ⟨hexpr, hafter⟩ := hsound.applyInfix hstream hleft hnext hrule hrun
        exact ih _ hlt (hstream.advance.of_suffix hsuffix) hexpr hafter rfl

theorem NestedRepairs.expressionFrom (hsound : Sound nested) (h : NestedRepairs nested) :
    NestedRepairs (expressionFrom .standard nested) := by
  intro precedence stream hne hstream
  have hlevel : precedence.within.level ≤ Precedence.prefixOp.level := by
    revert hne
    cases precedence <;> decide
  refine Fails.bind ((repairs_operand hsound h hstream).mono fun unread hstopped => ?_)
    fun left mid hrun => ?_
  · refine hstopped.map ?_
    rintro _ _ ⟨_, hexpr⟩
    exact ⟨_, hexpr.loosen _ hlevel⟩
  · have hmid := hstream.of_suffix (Reading.suffix_of_run hrun)
    rcases hsound.operand hstream hrun with hexpr | ⟨hexpr, hnext⟩
    · exact repairs_continued hsound h hmid hexpr (Precedence.level_le_call _)
    · exact repairs_continued hsound h hmid hexpr hnext

/-- Expressions only stop where they can be completed, at every number of levels of nesting. -/
theorem nestedRepairs_expression (levels : Nat) : NestedRepairs (expression .standard levels) := by
  induction levels with
  | zero => exact fun _ _ => .current (fails_reject (.tooDeep _))
  | succ levels ih => exact ih.expressionFrom (sound_expression levels)

/-- A program only stops where it can be completed. -/
theorem repairs_program (levels : Nat) (hstream : stream.Unended) :
    Repairs (program (expression .standard levels)) stream .statements stream :=
  Fails.bind (repairs_untilAfter (sound_expression levels) (nestedRepairs_expression levels) .eof []
    hstream) fun _ _ _ => .current (fails_give _)

end Grammar

end Monkey
