import Monkey.Proofs.LineEnds
import Monkey.Proofs.PrintableText
import Monkey.Proofs.Repair
import Monkey.Proofs.RoundTrip

/-!
# Answers take one line

The canonical form of a well-formed tree is made of the characters of words, of the operators and
delimiters, and of spaces. A message holds kinds of tokens by their names and their texts between quotes,
where a line break is escaped; the one text that stands in a message as it is is that of a number. So no
answer to a line has a line break in it.
-/

namespace Monkey

/-- A text has no line break. -/
def OneLine (text : List Char) : Prop := ∀ c ∈ text, c ≠ '\n' ∧ c ≠ '\r'

instance : DecidablePred OneLine := fun text =>
  decidable_of_iff (text.all (fun c => c != '\n' && c != '\r') = true) (by simp [OneLine])

variable {text first second : List Char}

@[simp]
theorem oneLine_append : OneLine (first ++ second) ↔ OneLine first ∧ OneLine second :=
  List.forall_mem_append

@[simp]
theorem oneLine_cons {c : Char} : OneLine (c :: text) ↔ (c ≠ '\n' ∧ c ≠ '\r') ∧ OneLine text :=
  List.forall_mem_cons

theorem OneLine.append {first second : String} (hfirst : OneLine first.toList)
    (hsecond : OneLine second.toList) : OneLine (first ++ second).toList := by
  rw [String.toList_append]
  exact oneLine_append.mpr ⟨hfirst, hsecond⟩

/-- A text of characters that are no blanks has no line break. -/
theorem oneLine_of_not_isBlank (h : ∀ c ∈ text, isBlank c = false) : OneLine text := by
  intro c hc
  constructor <;> rintro rfl <;> exact absurd (h _ hc) (by decide)

/-- Printable characters do not end a line. -/
theorem Text.Printable.oneLine (h : Printable text) : OneLine text := by
  intro c hc
  constructor <;> rintro rfl <;> exact absurd (h _ hc) (by decide)

/-- A quoted text has no line break, whatever the text is. -/
theorem Text.oneLine_quoted (text : String) : OneLine (quoted text).toList := by
  rw [quoted, String.toList_ofList]
  exact (Quoted.printable_encode _).oneLine

/-! ## Messages -/

/-- The name of a kind has no line break. -/
theorem oneLine_kindName (kind : TokenKind) : OneLine kind.name.toList :=
  kind.printable_name.oneLine

theorem oneLine_display (t : Token) : OneLine t.display.toList := by
  unfold Token.display
  split
  · decide
  · have hkind := oneLine_kindName t.kind
    exact .append (.append (.append hkind (by decide)) (Text.oneLine_quoted _)) (by decide)

/-- A message has no line break unless it says that a number is too large and the text of that number has
one. -/
theorem oneLine_message {error : SyntaxError}
    (h : ∀ t, error = .invalidInteger t → OneLine t.literal.toList) : OneLine error.message.toList := by
  cases error with
  | unexpectedToken kind t =>
    have hkind : OneLine ("[PAR-0010] expected next token to be " ++ kind.name).toList :=
      .append (by decide) (oneLine_kindName kind)
    exact .append (.append (.append hkind (by decide)) (oneLine_display t)) (by decide)
  | missingPrefixRule t | missingInfixRule t => exact .append (by decide) (oneLine_kindName t.kind)
  | invalidInteger t => exact .append (.append (by decide) (h t rfl)) (by decide)
  | nestingTooDeep t => exact .append (by decide) (oneLine_display t)

/-- The token that a syntax error names is one of the text or the end of input, unless nesting is too
deep. -/
theorem found_mem_of_parseTokens {levels : Nat} {stream : TokenStream} {error : SyntaxError}
    (hstream : stream.Unended) (h : parseTokens .standard levels stream = .error (.invalid error))
    (hlimit : ∀ t, error ≠ .nestingTooDeep t) : error.found ∈ stream ∨ error.found = .endOfInput := by
  obtain ⟨rest, hrun⟩ := run_of_parseTokens_eq_error h
  obtain ⟨-, hfound, front, completion, hcompletes⟩ :=
    (Grammar.repairs_program levels hstream _ _ hrun).completable hlimit
  rw [hfound, hcompletes.eq]
  cases (ParseFailure.invalid error).unread rest with
  | nil => exact .inr rfl
  | cons t rest => exact .inl (by simp)

/-- A syntax error in a text has a message without a line break. -/
theorem oneLine_message_of_parse {source : String} {levels : Nat} {error : SyntaxError}
    (h : parse source levels = .error (.invalid error)) : OneLine error.message.toList := by
  refine oneLine_message fun t ht => ?_
  subst ht
  rcases found_mem_of_parseTokens (unended_tokens _) h (by simp) with hmem | hend
  · obtain ⟨lexeme, hlexeme, hliteral⟩ := exists_ofLexeme_of_mem_tokens hmem
    rw [show t = .ofLexeme lexeme from hliteral, Token.ofLexeme, String.toList_ofList]
    exact oneLine_of_not_isBlank hlexeme.isBlank_eq_false
  · rw [show t = .endOfInput from hend]
    decide

/-! ## Canonical forms -/

namespace Node

/-- The characters of canonical forms that are not those of words. -/
def canonicalMarks : List Char := " ()\x7b\x7d,;=!+-*/<>".toList

/-- A text is made of the characters of canonical forms. -/
def IsPlain (text : List Char) : Prop := ∀ c ∈ text, isWordChar c = true ∨ c ∈ canonicalMarks

instance : DecidablePred IsPlain := fun text =>
  decidable_of_iff (text.all (fun c => isWordChar c || canonicalMarks.contains c) = true)
    (by simp [IsPlain])

theorem isPlain_nil : IsPlain [] := fun _ hc => absurd hc List.not_mem_nil

@[simp]
theorem isPlain_append : IsPlain (first ++ second) ↔ IsPlain first ∧ IsPlain second :=
  List.forall_mem_append

/-- A mark in front of a plain text. -/
theorem IsPlain.mark {c : Char} (h : IsPlain text) (hc : c ∈ canonicalMarks) : IsPlain (c :: text) :=
  List.forall_mem_cons.mpr ⟨.inr hc, h⟩

theorem isPlain_of_isWord (h : IsWord text) : IsPlain text := by
  obtain ⟨c, rest, rfl, hstart, hrest⟩ := h
  exact List.forall_mem_cons.mpr ⟨.inl (isWordChar_of_isWordStart hstart), fun d hd => .inl (hrest d hd)⟩

theorem isPlain_of_isNumber (h : IsNumber text) : IsPlain text :=
  fun c hc => .inl (isWordChar_of_isDigit (h.2 c hc))

theorem isPlain_textAll {statements : List Node} (h : ∀ s ∈ statements, IsPlain s.text) :
    IsPlain (textAll statements) := by
  intro c hc
  obtain ⟨s, hs, hcs⟩ := List.mem_flatMap.mp hc
  exact h s hs c hcs

theorem isPlain_textCommas {nodes : List Node} (h : ∀ n ∈ nodes, IsPlain n.text) :
    IsPlain (textCommas nodes) := by
  induction nodes with
  | nil => exact isPlain_nil
  | cons node rest ih =>
    obtain ⟨hnode, hrest⟩ := List.forall_mem_cons.mp h
    cases rest with
    | nil => rwa [textCommas_singleton]
    | cons next rest =>
      rw [textCommas_cons_cons, isPlain_append]
      exact ⟨hnode, ((ih hrest).mark (by decide)).mark (by decide)⟩

theorem isPlain_conditionText {parenthesized : Bool} (h : IsPlain text) :
    IsPlain (conditionText parenthesized text) := by
  cases parenthesized with
  | true => exact h
  | false => exact IsPlain.mark (isPlain_append.mpr ⟨h, by decide⟩) (by decide)

/-- The canonical form of a well-formed tree is plain. -/
theorem WellFormed.isPlain_text {node : Node} (h : node.WellFormed) : IsPlain node.text := by
  induction node using childInduction with
  | step node ih =>
    obtain ⟨hfit, hchildren⟩ := wellFormed_iff.mp h
    have hplain : ∀ child ∈ node.children, IsPlain child.text := fun child hchild =>
      ih child hchild (hchildren child hchild)
    clear ih hchildren h
    cases node with
    | program t statements =>
      rw [text_program]
      exact isPlain_textAll hplain
    | letStatement t name value =>
      obtain ⟨hname, hvalue⟩ : IsPlain name.text ∧ IsPlain value.text := by simpa [children] using hplain
      rw [text_letStatement, hfit.1, isPlain_append]
      refine ⟨by decide, .mark (isPlain_append.mpr ⟨hname, ?_⟩) (by decide)⟩
      refine .mark (.mark (.mark (isPlain_append.mpr ⟨hvalue, ?_⟩) ?_) ?_) ?_ <;> decide
    | identifier t value => exact isPlain_of_isWord hfit.1
    | returnStatement t value =>
      have hvalue : IsPlain value.text := by simpa [children] using hplain
      rw [text_returnStatement, hfit.1, isPlain_append]
      exact ⟨by decide, .mark (isPlain_append.mpr ⟨hvalue, by decide⟩) (by decide)⟩
    | expressionStatement t expression =>
      rw [text_expressionStatement]
      simpa [children] using hplain
    | integer t value =>
      obtain ⟨n, rfl⟩ := Int.eq_ofNat_of_zero_le hfit.1
      exact text_integer t n ▸ isPlain_of_isNumber (Text.Decimal.isNumber_digits n)
    | prefixOp t operator right =>
      have hright : IsPlain right.text := by simpa [children] using hplain
      have hoperator : IsPlain operator.toList := by rcases hfit.1 with rfl | rfl <;> decide
      rw [text_prefixOp]
      refine .mark (isPlain_append.mpr ⟨hoperator, isPlain_append.mpr ⟨hright, ?_⟩⟩) ?_ <;> decide
    | infixOp t left operator right =>
      obtain ⟨hleft, hright⟩ : IsPlain left.text ∧ IsPlain right.text := by
        simpa [children] using hplain
      have hoperators : ∀ operator ∈ binaryOperators, IsPlain operator.toList := by decide
      have hlast : IsPlain (' ' :: (right.text ++ [')'])) :=
        .mark (isPlain_append.mpr ⟨hright, by decide⟩) (by decide)
      rw [text_infixOp]
      refine .mark (isPlain_append.mpr ⟨hleft, .mark (isPlain_append.mpr ⟨?_, hlast⟩) ?_⟩) ?_
      · exact hoperators operator hfit.1
      all_goals decide
    | boolean t value =>
      rw [text_boolean]
      cases value <;> decide
    | conditional t condition consequence alternative =>
      obtain ⟨hcondition, hbranches⟩ := List.forall_mem_cons.mp hplain
      obtain ⟨hconsequence, halternative⟩ := List.forall_mem_cons.mp hbranches
      cases alternative with
      | none =>
        rw [text_conditional_none, hfit.1, isPlain_append]
        refine ⟨by decide, .mark (isPlain_append.mpr ⟨isPlain_conditionText hcondition, ?_⟩) (by decide)⟩
        exact .mark hconsequence (by decide)
      | some alternative =>
        have hother : IsPlain alternative.text := halternative _ List.mem_cons_self
        have helse : IsPlain (' ' :: ("else".toList ++ ' ' :: alternative.text)) :=
          .mark (isPlain_append.mpr ⟨by decide, hother.mark (by decide)⟩) (by decide)
        rw [text_conditional_some, hfit.1, isPlain_append]
        refine ⟨by decide, .mark (isPlain_append.mpr ⟨isPlain_conditionText hcondition, ?_⟩) (by decide)⟩
        exact .mark (isPlain_append.mpr ⟨hconsequence, helse⟩) (by decide)
    | block t statements =>
      rw [text_block]
      exact .mark (isPlain_append.mpr ⟨isPlain_textAll hplain, by decide⟩) (by decide)
    | function t parameters body =>
      obtain ⟨hparameters, hbody⟩ := List.forall_mem_append.mp hplain
      have hlast : IsPlain (')' :: ' ' :: body.text) :=
        .mark (.mark (hbody body List.mem_cons_self) (by decide)) (by decide)
      rw [text_function, hfit.1, isPlain_append]
      exact ⟨by decide, .mark (isPlain_append.mpr ⟨isPlain_textCommas hparameters, hlast⟩) (by decide)⟩
    | call t callee arguments =>
      obtain ⟨hcallee, harguments⟩ := List.forall_mem_cons.mp hplain
      rw [text_call, isPlain_append]
      refine ⟨hcallee, .mark (isPlain_append.mpr ⟨isPlain_textCommas harguments, ?_⟩) ?_⟩ <;> decide

end Node

/-- A parsed program has a plain canonical form. -/
theorem isPlain_canonical_of_parse {source : String} {levels : Nat} {program : Node}
    (h : parse source levels = .ok program) : Node.IsPlain program.canonical.toList :=
  (wellFormed_of_parseTokens h).2.isPlain_text

/-- A plain text has no line break. -/
theorem Node.IsPlain.oneLine (h : Node.IsPlain text) : OneLine text := by
  intro c hc
  constructor <;> rintro rfl <;> exact absurd (h _ hc) (by decide)

/-- The answer to a line has no line break, whatever the line is. -/
theorem oneLine_reply {line : String} {limits : Limits} {reply : Reply}
    (h : evalLine line limits = .ok reply) : OneLine reply.text.toList := by
  unfold evalLine at h
  cases hparse : parse line limits.levels with
  | error failure =>
    cases failure with
    | unreadable error => simp [hparse] at h
    | invalid error =>
      simp only [hparse, Except.ok.injEq] at h
      subst h
      exact .append (by decide) (oneLine_message_of_parse hparse)
  | ok program =>
    simp only [hparse, Node.canonical?] at h
    split_ifs at h with hdepth
    · cases h
      exact (isPlain_canonical_of_parse hparse).oneLine
    · cases h
      exact .append (by decide) (by decide)

end Monkey
