import Monkey.Proofs.Tally

/-!
# Derivations with other tokens after them

What comes after a phrase has little influence on its derivation. A phrase that ends before the end of
input is derived from the same tokens whatever follows them, as long as what follows does not go on with
an expression at its end. Only at the end of input may a phrase leave blocks open; it is then derived
from its tokens and a closing brace for each of these blocks.

So the blocks that are left open can be counted: they are the opening braces without a closing one.
-/

namespace Monkey

/-- The number of opening braces. -/
def openingBraces (stream : List Token) : Nat := stream.countP fun t => t.kind == .lbrace

/-- The number of closing braces. -/
def closingBraces (stream : List Token) : Nat := stream.countP fun t => t.kind == .rbrace

/-- A number of closing braces. -/
def braces (n : Nat) : List Token := List.replicate n ⟨.rbrace, "\x7d"⟩

@[simp]
theorem openingBraces_nil : openingBraces [] = 0 := rfl

@[simp]
theorem closingBraces_nil : closingBraces [] = 0 := rfl

theorem openingBraces_cons (t : Token) (rest : List Token) :
    openingBraces (t :: rest) = openingBraces rest + if t.kind = .lbrace then 1 else 0 := by
  simp [openingBraces, List.countP_cons]

theorem closingBraces_cons (t : Token) (rest : List Token) :
    closingBraces (t :: rest) = closingBraces rest + if t.kind = .rbrace then 1 else 0 := by
  simp [closingBraces, List.countP_cons]

@[simp]
theorem openingBraces_append (front back : List Token) :
    openingBraces (front ++ back) = openingBraces front + openingBraces back := List.countP_append

@[simp]
theorem closingBraces_append (front back : List Token) :
    closingBraces (front ++ back) = closingBraces front + closingBraces back := List.countP_append

namespace Derivation

/-- Tokens can come in the place of others after a phrase: they start with the same token, or with one
that does not go on with an expression. -/
def Replaces (tail after : List Token) : Prop :=
  TokenStream.cur tail = TokenStream.cur after ∨
    ¬ (TokenStream.cur tail).kind.ContinuesExpression

/-- A phrase takes its first tokens from the input and leaves `opened` blocks open, which it can only do
at the end of input. It is also derived from the same tokens, with these blocks closed, before any
tokens that can come in the place of what follows it. -/
structure Extends (phrase : List Token → List Token → Prop) (input after front : List Token)
    (opened : Nat) : Prop where
  eq : input = front ++ after
  closed : after ≠ [] → opened = 0
  count : openingBraces front = closingBraces front + opened
  extend : ∀ tail, Replaces tail after → phrase (front ++ (braces opened ++ tail)) tail

variable {phrase first second : List Token → List Token → Prop} {input mid after front back : List Token}
  {n m : Nat}

/-- A token that is no brace makes a phrase longer. -/
theorem Extends.cons {t : Token} (ht : t.kind ≠ .lbrace ∧ t.kind ≠ .rbrace)
    (h : Extends (fun input after => phrase (t :: input) after) input after front n) :
    Extends phrase (t :: input) after (t :: front) n where
  eq := by rw [h.eq, List.cons_append]
  closed := h.closed
  count := by simp [openingBraces_cons, closingBraces_cons, ht, h.count]
  extend := h.extend

/-- A token that is no brace is a phrase by itself. -/
theorem Extends.token {t : Token} (ht : t.kind ≠ .lbrace ∧ t.kind ≠ .rbrace)
    (h : ∀ after, phrase (t :: after) after) : Extends phrase (t :: after) after [t] 0 where
  eq := rfl
  closed _ := rfl
  count := by simp [openingBraces_cons, closingBraces_cons, ht]
  extend tail _ := h tail

/-- The same tokens make a phrase of another kind. -/
theorem Extends.map (h : Extends first input after front n)
    (hstep : ∀ input after, first input after → phrase input after) :
    Extends phrase input after front n :=
  ⟨h.eq, h.closed, h.count, fun tail htail => hstep _ _ (h.extend tail htail)⟩

/-- What can come in the place of what follows two phrases can do so after the second one has come in
the place of what follows the first one. -/
theorem replaces_append {tail : List Token} (h : Replaces tail after) :
    Replaces (back ++ (braces m ++ tail)) (back ++ after) := by
  cases back with
  | cons t rest => exact .inl rfl
  | nil =>
    cases m with
    | zero => exact h
    | succ m => exact .inr (by decide : ¬ (TokenKind.rbrace).ContinuesExpression)

/-- Two phrases one after the other. If blocks are left open at the end of the first one, nothing is left
for the second one. -/
theorem Extends.append (hfirst : Extends first input mid front n)
    (hsecond : Extends second mid after back m)
    (hstep : ∀ input mid after, first input mid → second mid after → phrase input after) :
    Extends phrase input after (front ++ back) (n + m) := by
  have hopen : n = 0 ∨ back = [] := by
    by_cases hmid : mid = []
    · rw [hsecond.eq, List.append_eq_nil_iff] at hmid
      exact .inr hmid.1
    · exact .inl (hfirst.closed hmid)
  refine ⟨?_, fun hafter => ?_, ?_, fun tail htail => ?_⟩
  · rw [hfirst.eq, hsecond.eq, List.append_assoc]
  · have hmid : mid ≠ [] := by simp [hsecond.eq, hafter]
    rw [hfirst.closed hmid, hsecond.closed hafter]
  · have := hfirst.count
    have := hsecond.count
    simp only [openingBraces_append, closingBraces_append]
    omega
  · have hback := hfirst.extend (back ++ (braces m ++ tail)) (hsecond.eq ▸ replaces_append htail)
    have htokens : front ++ back ++ (braces (n + m) ++ tail) =
        front ++ (braces n ++ (back ++ (braces m ++ tail))) := by
      rcases hopen with rfl | rfl
      · simp [braces]
      · simp [braces, ← List.replicate_append_replicate]
    rw [htokens]
    exact hstep _ _ _ hback (hsecond.extend tail htail)

/-! ## The phrases of the grammar -/

/-- The last token ends an expression. -/
def EndsExpression (front : List Token) : Prop := ∃ t ∈ front.getLast?, t.kind.endsExpression = true

theorem endsExpression_singleton {t : Token} (h : t.kind.endsExpression = true) :
    EndsExpression [t] := ⟨t, rfl, h⟩

/-- Only the last tokens matter. -/
theorem EndsExpression.append (h : EndsExpression back) (front : List Token) :
    EndsExpression (front ++ back) := by
  obtain ⟨t, ht, hends⟩ := h
  exact ⟨t, by rw [List.getLast?_append, Option.mem_def.mp ht]; rfl, hends⟩

/-- A phrase can be extended, and ends in a token that ends an expression unless it leaves blocks
open. -/
def Extensible (phrase : List Token → List Token → Prop) (input after : List Token) : Prop :=
  ∃ front n, Extends phrase input after front n ∧ (n = 0 → EndsExpression front)

theorem Extensible.cons {t : Token} (ht : t.kind ≠ .lbrace ∧ t.kind ≠ .rbrace)
    (h : Extensible (fun input after => phrase (t :: input) after) input after) :
    Extensible phrase (t :: input) after := by
  obtain ⟨front, n, hextends, hlast⟩ := h
  exact ⟨t :: front, n, hextends.cons ht, fun hn => (hlast hn).append [t]⟩

/-- The first token of a phrase, if it is no brace, makes the rest of the phrase longer. -/
theorem Extensible.uncons {t : Token} (ht : t.kind ≠ .lbrace ∧ t.kind ≠ .rbrace)
    (h : Extensible phrase (t :: input) after) :
    ∃ front n, Extends (fun input after => phrase (t :: input) after) input after front n := by
  obtain ⟨front, n, hextends, hlast⟩ := h
  have hcount := hextends.count
  cases front with
  | nil =>
    obtain ⟨last, hmem, -⟩ := hlast (by simpa using hcount.symm)
    cases hmem
  | cons first rest =>
    obtain ⟨rfl, hrest⟩ := List.cons.inj hextends.eq
    refine ⟨rest, n, hrest, hextends.closed, ?_, hextends.extend⟩
    simpa [openingBraces_cons, closingBraces_cons, ht] using hcount

theorem Extensible.append (hfirst : Extends first input mid front n)
    (hsecond : Extensible second mid after)
    (hstep : ∀ input mid after, first input mid → second mid after → phrase input after) :
    Extensible phrase input after := by
  obtain ⟨back, m, hextends, hlast⟩ := hsecond
  exact ⟨front ++ back, n + m, hfirst.append hextends hstep, fun hn =>
    (hlast (by omega)).append front⟩

theorem Extensible.map (h : Extensible first input after)
    (hstep : ∀ input after, first input after → phrase input after) :
    Extensible phrase input after := by
  obtain ⟨front, n, hextends, hlast⟩ := h
  exact ⟨front, n, hextends.map hstep, hlast⟩

/-- Two phrases with a token between them that is no brace. -/
theorem Extensible.separated {t : Token} (ht : t.kind ≠ .lbrace ∧ t.kind ≠ .rbrace)
    (hfirst : Extensible first input (t :: mid)) (hsecond : Extensible second mid after)
    (hstep : ∀ input mid after, first input (t :: mid) → second mid after → phrase input after) :
    Extensible phrase input after := by
  obtain ⟨front, n, hfirst, -⟩ := hfirst
  have hrest : Extensible (fun m a => ∃ rest, m = t :: rest ∧ second rest a) (t :: mid) after :=
    .cons ht (hsecond.map fun rest _ h => ⟨rest, rfl, h⟩)
  refine .append hfirst hrest fun input m after hf hs => ?_
  obtain ⟨rest, rfl, hs⟩ := hs
  exact hstep _ _ _ hf hs

theorem Extensible.token {t : Token} (hends : t.kind.endsExpression = true)
    (ht : t.kind ≠ .lbrace ∧ t.kind ≠ .rbrace) (h : ∀ after, phrase (t :: after) after) :
    Extensible phrase (t :: after) after :=
  ⟨[t], 0, .token ht h, fun _ => endsExpression_singleton hends⟩

/-- A phrase and the closing parenthesis after it. -/
theorem Extensible.closed {t : Token} (ht : t.kind = .rparen)
    (h : Extensible first input (t :: after))
    (hstep : ∀ input after, first input (t :: after) → phrase input after) :
    Extensible phrase input after := by
  obtain ⟨front, n, hextends, -⟩ := h
  have hclose : Extensible (fun m a => m = t :: a) (t :: after) after :=
    .token (by rw [ht]; rfl) (by rw [ht]; decide) fun _ => rfl
  exact .append hextends hclose fun _ _ _ hf hm => hstep _ _ (hm ▸ hf)

/-- A closing parenthesis ends a list. -/
theorem extensible_close {t : Token} (ht : t.kind = .rparen)
    (h : ∀ after, phrase (t :: after) after) : Extensible phrase (t :: after) after :=
  .token (by rw [ht]; rfl) (by rw [ht]; decide) h

theorem StatementEnd.extends {input after : List Token} (h : StatementEnd input after) :
    ∃ front n, Extends StatementEnd input after front n := by
  cases h with
  | semicolon ht => exact ⟨_, _, .token (by rw [ht]; decide) fun _ => .semicolon ht⟩
  | bare hnot =>
    refine ⟨[], 0, rfl, fun _ => rfl, rfl, fun tail htail => ?_⟩
    rcases htail with hsame | hstop
    · exact StatementEnd.bare (hsame ▸ hnot)
    · exact StatementEnd.bare hstop

theorem MoreParameters.extensible {input after : List Token} {more : List Node}
    (h : MoreParameters input more after) :
    Extensible (fun input after => MoreParameters input more after) input after := by
  induction h with
  | close ht => exact extensible_close ht fun _ => .close ht
  | comma hcomma hname _ ih =>
    refine .cons (by rw [hcomma]; decide) (.cons (by rw [hname]; decide) ?_)
    exact ih.map fun _ _ hmore => .comma hcomma hname hmore

theorem Parameters.extensible {input after : List Token} {parameters : List Node}
    (h : Parameters input parameters after) :
    Extensible (fun input after => Parameters input parameters after) input after := by
  cases h with
  | none ht => exact extensible_close ht fun _ => .none ht
  | some hname hmore =>
    exact .cons (by rw [hname]; decide) (hmore.extensible.map fun _ _ hmore => .some hname hmore)

/-- Statements in braces. -/
theorem Extends.block {t close : Token} {statements : List Node} (ht : t.kind = .lbrace)
    (hclose : close.kind = .rbrace)
    (h : Extends (fun input after => Statements input statements after) input (close :: after) front
      0) :
    Extends (fun input after => Block input (.block t statements) after) (t :: input) after
      (t :: (front ++ [close])) 0 where
  eq := by simp [h.eq]
  closed _ := rfl
  count := by
    have := h.count
    simp [openingBraces_cons, closingBraces_cons, ht, hclose]
    omega
  extend tail _ := by
    have hbefore := h.extend (close :: tail) (.inl rfl)
    simpa [braces] using Block.closed ht hbefore hclose

/-- Statements after an opening brace at the end of input. -/
theorem Extends.unclosedBlock {t : Token} {statements : List Node} (ht : t.kind = .lbrace)
    (h : Extends (fun input after => Statements input statements after) input [] front n) :
    Extends (fun input after => Block input (.block t statements) after) (t :: input) []
      (t :: front) (n + 1) where
  eq := by simp [h.eq]
  closed hne := absurd rfl hne
  count := by
    have := h.count
    simp [openingBraces_cons, closingBraces_cons, ht]
    omega
  extend tail _ := by
    have hbefore := h.extend (⟨.rbrace, "\x7d"⟩ :: tail)
      (.inr (by decide : ¬ (TokenKind.rbrace).ContinuesExpression))
    simpa [braces, List.replicate_succ'] using Block.closed ht hbefore rfl

/-- An operator between operands is no brace. -/
theorem ne_brace_of_mem_operators {level : Precedence} {kind : TokenKind}
    (h : kind ∈ level.operators) : kind ≠ .lbrace ∧ kind ≠ .rbrace := by
  cases level <;> simp only [Precedence.operators, List.mem_cons, List.not_mem_nil, or_false] at h <;>
    rcases h with rfl | rfl <;> decide

mutual

theorem Statements.extends {input after : List Token} {statements : List Node} :
    Statements input statements after →
      ∃ front n, Extends (fun input after => Statements input statements after) input after front n
  | .nil => ⟨[], 0, rfl, fun _ => rfl, rfl, fun _ _ => .nil⟩
  | .cons hfirst hmore => by
    obtain ⟨front, n, hfirst⟩ := hfirst.extends
    obtain ⟨back, m, hmore⟩ := hmore.extends
    exact ⟨_, _, hfirst.append hmore fun _ _ _ hs hm => .cons hs hm⟩

theorem Statement.extends {input after : List Token} {node : Node} :
    Statement input node after →
      ∃ front n, Extends (fun input after => Statement input node after) input after front n
  | .letStatement hlet hname hassign hvalue hend => by
    obtain ⟨front, n, hvalue, -⟩ := hvalue.extensible
    obtain ⟨back, m, hend⟩ := hend.extends
    refine ⟨_, _, .cons (by rw [hlet]; decide) (.cons (by rw [hname]; decide)
      (.cons (by rw [hassign]; decide) (hvalue.append hend fun _ _ _ hv he => ?_)))⟩
    exact .letStatement hlet hname hassign hv he
  | .returnStatement hreturn hvalue hend => by
    obtain ⟨front, n, hvalue, -⟩ := hvalue.extensible
    obtain ⟨back, m, hend⟩ := hend.extends
    refine ⟨_, _, .cons (by rw [hreturn]; decide) (hvalue.append hend fun _ _ _ hv he => ?_)⟩
    exact .returnStatement hreturn hv he
  | .expressionStatement hvalue hend => by
    have hstarts := hvalue.starts
    have hbrace : ∀ kind ∈ expressionStarters, kind ≠ .lbrace ∧ kind ≠ .rbrace := by decide
    obtain ⟨front, n, hvalue⟩ := hvalue.extensible.uncons (hbrace _ hstarts)
    obtain ⟨back, m, hend⟩ := hend.extends
    refine ⟨_, _, .cons (hbrace _ hstarts) (hvalue.append hend fun _ _ _ hv he => ?_)⟩
    exact .expressionStatement hv he

theorem Block.extensible {input after : List Token} {node : Node} :
    Block input node after →
      Extensible (fun input after => Block input node after) input after
  | @Block.closed t close _ _ _ ht hstatements hclose => by
    obtain ⟨front, n, hstatements⟩ := hstatements.extends
    obtain rfl := hstatements.closed (by simp)
    have hends : EndsExpression [close] := endsExpression_singleton (by rw [hclose]; rfl)
    exact ⟨_, 0, hstatements.block ht hclose, fun _ => (hends.append front).append [t]⟩
  | .unclosed ht hstatements => by
    obtain ⟨front, n, hstatements⟩ := hstatements.extends
    exact ⟨_, n + 1, hstatements.unclosedBlock ht, by simp⟩

theorem Expression.extensible {level : Precedence} {input after : List Token} {node : Node} :
    Expression level input node after →
      Extensible (fun input after => Expression level input node after) input after
  | .infixOp hop hleft hright =>
    .separated (ne_brace_of_mem_operators hop) hleft.extensible hright.extensible
      fun _ _ _ hl hr => .infixOp hop hl hr
  | .tighter hne h => h.extensible.map fun _ _ hexpr => .tighter hne hexpr
  | .prefixOp hop hright => by
    refine .cons (by rcases hop with hop | hop <;> rw [hop] <;> decide) ?_
    exact hright.extensible.map fun _ _ hr => .prefixOp hop hr
  | .call hcallee hparen harguments =>
    .separated (by rw [hparen]; decide) hcallee.extensible harguments.extensible
      fun _ _ _ hc ha => .call hc hparen ha
  | .identifier h => .token (by rw [h]; rfl) (by rw [h]; decide) fun _ => .identifier h
  | .integer h hread hle =>
    .token (by rw [h]; rfl) (by rw [h]; decide) fun _ => .integer h hread hle
  | .yes h => .token (by rw [h]; rfl) (by rw [h]; decide) fun _ => .yes h
  | .no h => .token (by rw [h]; rfl) (by rw [h]; decide) fun _ => .no h
  | .group ht hinner hclose =>
    .cons (by rw [ht]; decide) (hinner.extensible.closed hclose fun _ _ hi => .group ht hi hclose)
  | .conditional hif hopen hcondition hclose hbranches =>
    .cons (by rw [hif]; decide) (.cons (by rw [hopen]; decide)
      (.separated (by rw [hclose]; decide) hcondition.extensible hbranches.extensible
        fun _ _ _ hc hb => .conditional hif hopen hc hclose hb))
  | .function hfn hopen hparameters hbody => by
    obtain ⟨front, n, hparameters, -⟩ := hparameters.extensible
    exact .cons (by rw [hfn]; decide) (.cons (by rw [hopen]; decide)
      (.append hparameters hbody.extensible fun _ _ _ hp hb => .function hfn hopen hp hb))

theorem Branches.extensible {input after : List Token} {consequence : Node}
    {alternative : Option Node} :
    Branches input consequence alternative after →
      Extensible (fun input after => Branches input consequence alternative after) input after
  | .one hblock => hblock.extensible.map fun _ _ h => .one h
  | .two hfirst helse hsecond =>
    .separated (by rw [helse]; decide) hfirst.extensible hsecond.extensible
      fun _ _ _ hf hs => .two hf helse hs

theorem Arguments.extensible {input after : List Token} {arguments : List Node} :
    Arguments input arguments after →
      Extensible (fun input after => Arguments input arguments after) input after
  | .none ht => extensible_close ht fun _ => .none ht
  | .some hfirst hmore => by
    obtain ⟨front, n, hfirst, -⟩ := hfirst.extensible
    exact .append hfirst hmore.extensible fun _ _ _ hf hm => .some hf hm

theorem MoreArguments.extensible {input after : List Token} {more : List Node} :
    MoreArguments input more after →
      Extensible (fun input after => MoreArguments input more after) input after
  | .close ht => extensible_close ht fun _ => .close ht
  | .comma hcomma hargument hmore => by
    obtain ⟨front, n, hargument, -⟩ := hargument.extensible
    refine .cons (by rw [hcomma]; decide) (.append hargument hmore.extensible fun _ _ _ ha hm => ?_)
    exact .comma hcomma ha hm

end

/-- What follows a phrase is the rest of the input. -/
theorem Extends.suffix (h : Extends phrase input after front n) : after <:+ input :=
  ⟨front, h.eq.symm⟩

theorem Extensible.suffix (h : Extensible phrase input after) : after <:+ input := by
  obtain ⟨front, n, hextends, -⟩ := h
  exact hextends.suffix

end Derivation

end Monkey
