import Monkey.Proofs.Printed

/-!
# What scanning a canonical form yields

Nothing separates statements in a canonical form, so the last token of a statement may go on into the
text of the next one. Scanning the canonical form of a well-formed tree yields the tokens that the tree
is meant as exactly if this happens nowhere in it, and each time that it does happen takes a word away.
-/

namespace Monkey

/-- The tokens that were scanned are those that were meant, or at least as many words are missing as
were glued to the word before them. -/
structure FusedBy (glued : Nat) (scanned meant : List Token) : Prop where
  words_le : wordCount scanned + glued ≤ wordCount meant
  eq_of_zero : glued = 0 → scanned = meant

namespace FusedBy

variable {glued more : Nat} {scanned between meant : List Token}

theorem refl (stream : List Token) : FusedBy 0 stream stream := ⟨Nat.le_refl _, fun _ => rfl⟩

theorem congr (h : FusedBy glued scanned meant) (heq : more = glued) :
    FusedBy more scanned meant := heq ▸ h

/-- A common first token changes nothing. -/
theorem cons (h : FusedBy glued scanned meant) (t : Token) :
    FusedBy glued (t :: scanned) (t :: meant) := by
  refine ⟨?_, fun hzero => by rw [h.eq_of_zero hzero]⟩
  have hle := h.words_le
  rw [wordCount_cons, wordCount_cons]
  omega

/-- Common first tokens change nothing. -/
theorem append (h : FusedBy glued scanned meant) (front : List Token) :
    FusedBy glued (front ++ scanned) (front ++ meant) := by
  induction front with
  | nil => exact h
  | cons t front ih => exact ih.cons t

/-- The words that are missing add up. -/
theorem trans (h : FusedBy glued scanned between) (h' : FusedBy more between meant) :
    FusedBy (glued + more) scanned meant := by
  refine ⟨?_, fun hzero => ?_⟩
  · have hle := h.words_le
    have hle' := h'.words_le
    omega
  · rw [h.eq_of_zero (by omega), h'.eq_of_zero (by omega)]

end FusedBy

/-! ## Words and numbers that are continued -/

/-- A word is a word whether it is a keyword or not. -/
theorem isWordlike_ofWord (word : String) : (TokenKind.ofWord word).isWordlike = true := by
  cases hlookup : keywords.lookup word with
  | none => simp [TokenKind.ofWord, hlookup, TokenKind.isWordlike]
  | some kind =>
    obtain ⟨front, back, hmem, -⟩ := List.lookup_eq_some_iff.mp hlookup
    have hpair : (word, kind) ∈ keywords := by rw [hmem]; simp
    simp only [TokenKind.ofWord, hlookup, Option.getD_some]
    simp only [keywords, List.mem_cons, List.not_mem_nil, or_false, Prod.mk.injEq] at hpair
    rcases hpair with ⟨-, rfl⟩ | ⟨-, rfl⟩ | ⟨-, rfl⟩ | ⟨-, rfl⟩ | ⟨-, rfl⟩ | ⟨-, rfl⟩ | ⟨-, rfl⟩ <;> rfl

/-- A character that goes on with a word but starts neither a word nor a number is an illegal token. -/
theorem scanLexeme_of_isWordChar {c : Char} (h : isWordChar c = true)
    (hstart : isWordStart c = false) (hdigit : isDigit c = false) (rest : List Char) :
    scanLexeme c rest = (⟨.illegal, String.singleton c⟩, rest) := by
  have hassign : c ≠ '=' := by rintro rfl; exact absurd h (by decide)
  have hbang : c ≠ '!' := by rintro rfl; exact absurd h (by decide)
  have hkind : TokenKind.ofPunctuation c = .illegal := by
    cases hlookup : punctuation.lookup c with
    | none => simp [TokenKind.ofPunctuation, hlookup]
    | some kind =>
      obtain ⟨front, back, hmem, -⟩ := List.lookup_eq_some_iff.mp hlookup
      have hpair : (c, kind) ∈ punctuation := by rw [hmem]; simp
      simp only [punctuation, List.mem_cons, List.not_mem_nil, or_false, Prod.mk.injEq] at hpair
      rcases hpair with ⟨rfl, -⟩ | ⟨rfl, -⟩ | ⟨rfl, -⟩ | ⟨rfl, -⟩ | ⟨rfl, -⟩ | ⟨rfl, -⟩ | ⟨rfl, -⟩ |
        ⟨rfl, -⟩ | ⟨rfl, -⟩ | ⟨rfl, -⟩ | ⟨rfl, -⟩ | ⟨rfl, -⟩ <;> exact absurd h (by decide)
  simp [scanLexeme, hstart, hdigit, hassign, hbang, hkind]

/-- One if a text starts with a character of some kind. -/
def startsWith (p : Char → Bool) (chars : List Char) : Nat := if chars.head?.any p then 1 else 0

/-- A word takes away the word that it is glued to. -/
theorem wordCount_dropWhile_isWordChar (chars : List Char) :
    wordCount (tokens (chars.dropWhile isWordChar)) + startsWith isWordChar chars ≤
      wordCount (tokens chars) := by
  induction hlen : chars.length using Nat.strongRecOn generalizing chars with
  | ind len ih =>
    cases chars with
    | nil => exact Nat.le_refl _
    | cons c rest =>
      cases hword : isWordChar c with
      | false => simp [startsWith, hword]
      | true =>
        have hcount : startsWith isWordChar (c :: rest) = 1 := by simp [startsWith, hword]
        rw [List.dropWhile_cons_of_pos hword, hcount, tokens_cons (isBlank_of_isWordChar hword),
          wordCount_cons]
        cases hstart : isWordStart c with
        | true =>
          simp only [scanLexeme, hstart, if_true, isWordlike_ofWord]
          omega
        | false =>
          cases hdigit : isDigit c with
          | true =>
            have hshort := length_dropWhile_le isDigit rest
            have hdrop : (rest.dropWhile isDigit).dropWhile isWordChar = rest.dropWhile isWordChar := by
              rw [← List.dropWhile_append_of_pos fun d hd =>
                isWordChar_of_isDigit (List.mem_takeWhile_imp hd), List.takeWhile_append_dropWhile]
            have hrest := ih _ (by rw [← hlen, List.length_cons]; omega) (rest.dropWhile isDigit) rfl
            rw [hdrop] at hrest
            simp only [scanLexeme, hstart, hdigit, Bool.false_eq_true, if_false, if_true,
              TokenKind.isWordlike]
            omega
          | false =>
            have hrest := ih _ (by rw [← hlen, List.length_cons]; omega) rest rfl
            rw [scanLexeme_of_isWordChar hword hstart hdigit]
            simp only [TokenKind.isWordlike, if_true]
            omega

/-- A number takes away the number that it is glued to. -/
theorem wordCount_dropWhile_isDigit (chars : List Char) :
    wordCount (tokens (chars.dropWhile isDigit)) + startsWith isDigit chars ≤
      wordCount (tokens chars) := by
  cases chars with
  | nil => exact Nat.le_refl _
  | cons c rest =>
    cases hdigit : isDigit c with
    | false => simp [startsWith, hdigit]
    | true =>
      have hcount : startsWith isDigit (c :: rest) = 1 := by simp [startsWith, hdigit]
      rw [List.dropWhile_cons_of_pos hdigit, hcount, tokens_cons (isBlank_of_isDigit hdigit),
        wordCount_cons]
      simp only [scanLexeme, isWordStart_of_isDigit hdigit, hdigit, Bool.false_eq_true, if_false,
        if_true, TokenKind.isWordlike]
      omega

/-- What does not start with a character of some kind has no run of them at its front. -/
theorem takeWhile_of_startsWith {p : Char → Bool} {chars : List Char} (h : startsWith p chars = 0) :
    chars.takeWhile p = [] ∧ chars.dropWhile p = chars := by
  cases chars with
  | nil => exact ⟨rfl, rfl⟩
  | cons c rest =>
    cases hc : p c with
    | true => simp [startsWith, hc] at h
    | false => simp [hc]

/-- A word in front of a text loses a word of the text exactly if it is glued to it. -/
theorem fusedBy_word {word : List Char} (h : IsWord word) (chars : List Char) :
    FusedBy (startsWith isWordChar chars) (tokens (word ++ chars))
      (⟨.ofWord (String.ofList word), String.ofList word⟩ :: tokens chars) := by
  rw [tokens_word_append h]
  refine ⟨?_, fun hzero => ?_⟩
  · have hle := wordCount_dropWhile_isWordChar chars
    simp only [wordCount_cons, isWordlike_ofWord, if_true]
    omega
  · obtain ⟨htake, hdrop⟩ := takeWhile_of_startsWith hzero
    rw [htake, hdrop, List.append_nil]

/-- A number in front of a text loses a word of the text exactly if it is glued to it. -/
theorem fusedBy_number {number : List Char} (h : IsNumber number) (chars : List Char) :
    FusedBy (startsWith isDigit chars) (tokens (number ++ chars))
      (⟨.int, String.ofList number⟩ :: tokens chars) := by
  rw [tokens_number_append h]
  refine ⟨?_, fun hzero => ?_⟩
  · have hle := wordCount_dropWhile_isDigit chars
    simp only [wordCount_cons, TokenKind.isWordlike, if_true]
    omega
  · obtain ⟨htake, hdrop⟩ := takeWhile_of_startsWith hzero
    rw [htake, hdrop, List.append_nil]

/-! ## Keywords, operators and delimiters -/

/-- A character that is a token by itself is one whatever follows. -/
theorem tokens_punctuation {c : Char} {kind : TokenKind} (h : (c, kind) ∈ punctuation)
    (rest : List Char) : tokens (c :: rest) = kind.token :: tokens rest := by
  simp only [punctuation, List.mem_cons, List.not_mem_nil, or_false, Prod.mk.injEq] at h
  rcases h with ⟨rfl, rfl⟩ | ⟨rfl, rfl⟩ | ⟨rfl, rfl⟩ | ⟨rfl, rfl⟩ | ⟨rfl, rfl⟩ | ⟨rfl, rfl⟩ |
    ⟨rfl, rfl⟩ | ⟨rfl, rfl⟩ | ⟨rfl, rfl⟩ | ⟨rfl, rfl⟩ | ⟨rfl, rfl⟩ | ⟨rfl, rfl⟩ <;>
    exact tokens_cons rfl rest

section Delimiters

variable (rest : List Char)

theorem tokens_lparen : tokens ('(' :: rest) = TokenKind.lparen.token :: tokens rest :=
  tokens_punctuation (by decide) rest

theorem tokens_rparen : tokens (')' :: rest) = TokenKind.rparen.token :: tokens rest :=
  tokens_punctuation (by decide) rest

theorem tokens_lbrace : tokens ('\x7b' :: rest) = TokenKind.lbrace.token :: tokens rest :=
  tokens_punctuation (by decide) rest

theorem tokens_rbrace : tokens ('\x7d' :: rest) = TokenKind.rbrace.token :: tokens rest :=
  tokens_punctuation (by decide) rest

theorem tokens_comma : tokens (',' :: rest) = TokenKind.comma.token :: tokens rest :=
  tokens_punctuation (by decide) rest

theorem tokens_semicolon : tokens (';' :: rest) = TokenKind.semicolon.token :: tokens rest :=
  tokens_punctuation (by decide) rest

theorem tokens_space : tokens (' ' :: rest) = tokens rest := tokens_cons_of_isBlank rfl rest

end Delimiters

/-- A keyword is one unless the text goes on with it. -/
theorem tokens_keyword {word : String} {kind : TokenKind} (h : (word, kind) ∈ keywords) {c : Char}
    (hc : isWordChar c = false) (rest : List Char) :
    tokens (word.toList ++ c :: rest) = kind.token :: tokens (c :: rest) := by
  have hstop : startsWith isWordChar (c :: rest) = 0 := by simp [startsWith, hc]
  simp only [keywords, List.mem_cons, List.not_mem_nil, or_false, Prod.mk.injEq] at h
  rcases h with ⟨rfl, rfl⟩ | ⟨rfl, rfl⟩ | ⟨rfl, rfl⟩ | ⟨rfl, rfl⟩ | ⟨rfl, rfl⟩ | ⟨rfl, rfl⟩ |
    ⟨rfl, rfl⟩ <;>
    exact (fusedBy_word (by decide) (c :: rest)).eq_of_zero hstop

/-- An operator between two operands is followed by a space. -/
theorem tokens_binaryOperator {operator : String} (h : operator ∈ binaryOperators)
    (rest : List Char) : tokens (operator.toList ++ ' ' :: rest) =
      ⟨.ofOperator operator, operator⟩ :: tokens rest := by
  rw [← tokens_space rest]
  simp only [binaryOperators, List.mem_cons, List.not_mem_nil, or_false] at h
  rcases h with rfl | rfl | rfl | rfl | rfl | rfl | rfl | rfl <;> exact tokens_cons rfl _

/-- The operator of an assignment is followed by a space. -/
theorem tokens_assign (rest : List Char) :
    tokens ('=' :: ' ' :: rest) = TokenKind.assign.token :: tokens rest := by
  rw [← tokens_space rest]
  exact tokens_cons rfl _

/-- An operator before an operand is followed by what does not go on with it. -/
theorem tokens_prefixOperator {operator : String} (h : operator = "!" ∨ operator = "-") {c : Char}
    (hc : c ≠ '=') (rest : List Char) : tokens (operator.toList ++ c :: rest) =
      ⟨.ofOperator operator, operator⟩ :: tokens (c :: rest) := by
  rcases h with rfl | rfl
  · have hscan : scanLexeme '!' (c :: rest) = (⟨.bang, "!"⟩, c :: rest) := by
      have hstart : isWordStart '!' = false := by decide
      have hdigit : isDigit '!' = false := by decide
      simp [scanLexeme, hstart, hdigit, hc]
    change tokens ('!' :: c :: rest) = _
    rw [tokens_cons rfl, hscan]
    rfl
  · exact tokens_cons rfl _

/-! ## Trees -/

/-- The characters that go on with the last token of an expression. -/
def NodeKind.goesOn : NodeKind → Char → Bool
  | identifier, c | boolean, c => isWordChar c
  | integer, c => isDigit c
  | _, _ => false

namespace Node

/-- The kind of the expression that a statement ends in, and of every other node itself. -/
def lastKind : Node → NodeKind
  | expressionStatement _ expression => expression.kind
  | node => node.kind

/-- One if the last token of a tree goes on into a text. -/
def gluedInto (node : Node) (chars : List Char) : Nat := startsWith node.lastKind.goesOn chars

/-- The last token of the first of two neighbouring statements goes on into the second one. -/
def GluedTo (first second : Node) : Prop := first.gluedInto second.text = 1

instance : DecidableRel GluedTo := fun _ _ => inferInstanceAs (Decidable (_ = _))

/-- The number of statements below a node itself that are glued to the one before. -/
def gluedWeight (node : Node) : Nat := pairCount GluedTo node.statements

/-- Nothing goes on into a character that does not go on with words. -/
theorem gluedInto_cons_of_not (node : Node) {c : Char} (h : isWordChar c = false)
    (rest : List Char) : node.gluedInto (c :: rest) = 0 := by
  have hdigit : isDigit c = false := by
    by_contra hd
    rw [Bool.not_eq_false] at hd
    rw [isWordChar_of_isDigit hd] at h
    cases h
  unfold gluedInto startsWith
  cases node.lastKind <;> simp [NodeKind.goesOn, h, hdigit]

/-- Nothing goes on with a tree that ends in a delimiter. -/
theorem gluedInto_of_closed {node : Node} (h : node.lastKind.goesOn = fun _ => false)
    (chars : List Char) : node.gluedInto chars = 0 := by
  rw [gluedInto, h]
  cases chars <;> rfl

/-- Nothing goes on with a block. -/
theorem gluedInto_of_block {node : Node} (h : node.kind = .block) (chars : List Char) :
    node.gluedInto chars = 0 := by
  cases node <;> first | exact gluedInto_of_closed rfl chars | cases h

/-- A statement is glued to the characters that the next one starts with. -/
theorem gluedInto_append {node : Node} {c : Char} {chars : List Char} (rest : List Char) :
    node.gluedInto (c :: chars ++ rest) = node.gluedInto (c :: chars) := rfl

theorem gluedInto_eq_zero_or_one (node : Node) (chars : List Char) :
    node.gluedInto chars = 0 ∨ node.gluedInto chars = 1 := by
  unfold gluedInto startsWith
  split
  · exact .inr rfl
  · exact .inl rfl

/-- Scanning the text of a tree yields its tokens, less the words that are glued to the one before. -/
def Scans (node : Node) : Prop :=
  ∀ chars : List Char, FusedBy (total gluedWeight node + node.gluedInto chars)
    (tokens (node.text ++ chars)) (node.printed ++ tokens chars)

/-- In front of a character that does not go on with words only the inner words matter. -/
theorem Scans.stop {node : Node} (h : node.Scans) {c : Char} (hc : isWordChar c = false)
    (rest : List Char) : FusedBy (total gluedWeight node) (tokens (node.text ++ c :: rest))
      (node.printed ++ tokens (c :: rest)) :=
  (h (c :: rest)).congr (by rw [gluedInto_cons_of_not node hc]; rfl)

/-- A tree that ends in a delimiter and holds no list of statements loses words only below it. -/
theorem scans_of_closed {node : Node} (hclosed : node.lastKind.goesOn = fun _ => false)
    (hnone : node.statements = []) (h : ∀ chars, FusedBy (totalAll gluedWeight node.children)
      (tokens (node.text ++ chars)) (node.printed ++ tokens chars)) : node.Scans := by
  intro chars
  have hweight : gluedWeight node = 0 := by rw [gluedWeight, hnone]; rfl
  refine (h chars).congr ?_
  rw [gluedInto_of_closed hclosed, total_eq, hweight, Nat.zero_add, Nat.add_zero]

theorem scans_statements {statements : List Node} (h : ∀ s ∈ statements, s.Scans)
    (hstarts : ∀ s ∈ statements, s.StartsAlike) (chars : List Char)
    (hchars : ∀ s : Node, s.gluedInto chars = 0) :
    FusedBy (totalAll gluedWeight statements + pairCount GluedTo statements)
      (tokens (textAll statements ++ chars)) (printedAll statements ++ tokens chars) := by
  induction statements with
  | nil => exact FusedBy.refl _
  | cons first rest ih =>
    obtain ⟨hfirst, hrest⟩ := List.forall_mem_cons.mp h
    obtain ⟨-, hstartsRest⟩ := List.forall_mem_cons.mp hstarts
    have hglued : first.gluedInto (textAll rest ++ chars) + pairCount GluedTo rest =
        pairCount GluedTo (first :: rest) := by
      cases rest with
      | nil => exact congrArg (· + 0) (hchars first)
      | cons second rest =>
        obtain ⟨c, more, -, -, htext, -⟩ := hstartsRest second List.mem_cons_self
        rw [textAll_cons, List.append_assoc, htext, gluedInto_append, ← htext, pairCount]
        congr 1
        rcases gluedInto_eq_zero_or_one first second.text with hzero | hone
        · rw [if_neg (by rw [GluedTo, hzero]; decide), hzero]
        · rw [if_pos (show GluedTo first second from hone), hone]
    have hall := ((hfirst (textAll rest ++ chars)).trans ((ih hrest hstartsRest).append first.printed))
    rw [textAll_cons, printedAll_cons, List.append_assoc, List.append_assoc]
    refine hall.congr ?_
    rw [totalAll_cons]
    omega

theorem scans_commas (nodes : List Node) (h : ∀ n ∈ nodes, n.Scans) (chars : List Char) :
    FusedBy (totalAll gluedWeight nodes) (tokens (textCommas nodes ++ ')' :: chars))
      (printedCommas nodes ++ TokenKind.rparen.token :: tokens chars) := by
  induction nodes with
  | nil => exact tokens_rparen chars ▸ FusedBy.refl _
  | cons first rest ih =>
    obtain ⟨hfirst, hrest⟩ := List.forall_mem_cons.mp h
    cases rest with
    | nil =>
      have hlast := hfirst.stop (c := ')') (by decide) chars
      rw [tokens_rparen] at hlast
      simpa using hlast
    | cons next rest =>
      have hhead := hfirst.stop (c := ',') (by decide) (' ' :: (textCommas (next :: rest) ++ ')' :: chars))
      rw [tokens_comma, tokens_space] at hhead
      have hall := hhead.trans (((ih hrest).cons TokenKind.comma.token).append first.printed)
      rw [textCommas_cons_cons, printedCommas_cons_cons]
      simpa using hall

theorem scans_condition {condition : Node} (h : condition.Scans) (chars : List Char) :
    FusedBy (total gluedWeight condition)
      (tokens (conditionText condition.isParenthesized condition.text ++ ' ' :: chars))
      (conditionTokens condition.isParenthesized condition.printed ++ tokens chars) := by
  cases condition.isParenthesized with
  | true =>
    have hinner := h.stop (c := ' ') (by decide) chars
    rwa [tokens_space] at hinner
  | false =>
    have hinner := h.stop (c := ')') (by decide) (' ' :: chars)
    rw [tokens_rparen, tokens_space] at hinner
    have hall := hinner.cons TokenKind.lparen.token
    rw [← tokens_lparen] at hall
    simpa [conditionText, conditionTokens] using hall

section Constructs

variable {t : Token} {name value left right condition consequence alternative body callee : Node}
  {operator : String} {statements parameters arguments : List Node}

theorem scans_block (h : ∀ s ∈ statements, s.Scans) (hstarts : ∀ s ∈ statements, s.StartsAlike) :
    (block t statements).Scans := by
  intro chars
  have hall := scans_statements h hstarts ('\x7d' :: chars)
    (fun s => gluedInto_cons_of_not s (by decide) chars)
  rw [tokens_rbrace] at hall
  have htext : (block t statements).text ++ chars =
      '\x7b' :: (textAll statements ++ '\x7d' :: chars) := by simp [text_block]
  rw [htext, tokens_lbrace, printed_block_append, gluedInto_of_block rfl, Nat.add_zero, total_eq]
  exact (hall.cons TokenKind.lbrace.token).congr
    (Nat.add_comm (pairCount GluedTo statements) (totalAll gluedWeight statements))

theorem scans_letStatement (hlet : t.literal = "let") (hname : name.Scans) (hvalue : value.Scans) :
    (letStatement t name value).Scans := by
  refine scans_of_closed rfl rfl fun chars => ?_
  have hlast := hvalue.stop (c := ';') (by decide) chars
  have hfirst := hname.stop (c := ' ') (by decide) ('=' :: ' ' :: (value.text ++ ';' :: chars))
  rw [tokens_semicolon] at hlast
  rw [tokens_space, tokens_assign] at hfirst
  have htext : (letStatement t name value).text ++ chars =
      "let".toList ++ ' ' :: (name.text ++ ' ' :: '=' :: ' ' :: (value.text ++ ';' :: chars)) := by
    simp [text_letStatement, hlet]
  rw [htext, tokens_keyword (by decide : ("let", TokenKind.kwLet) ∈ keywords) (by decide),
    tokens_space, printed_letStatement_append]
  have hall := hfirst.trans ((hlast.cons TokenKind.assign.token).append name.printed)
  exact (hall.cons TokenKind.kwLet.token).congr (by simp [children])

theorem scans_returnStatement (hreturn : t.literal = "return") (hvalue : value.Scans) :
    (returnStatement t value).Scans := by
  refine scans_of_closed rfl rfl fun chars => ?_
  have hlast := hvalue.stop (c := ';') (by decide) chars
  rw [tokens_semicolon] at hlast
  have htext : (returnStatement t value).text ++ chars =
      "return".toList ++ ' ' :: (value.text ++ ';' :: chars) := by
    simp [text_returnStatement, hreturn]
  rw [htext, tokens_keyword (by decide : ("return", TokenKind.kwReturn) ∈ keywords) (by decide),
    tokens_space, printed_returnStatement_append]
  exact (hlast.cons TokenKind.kwReturn.token).congr (by simp [children])

/-- An expression as a statement goes on as the expression does. -/
theorem scans_expressionStatement (hkind : value.kind.isExpression = true) (hvalue : value.Scans) :
    (expressionStatement t value).Scans := by
  intro chars
  have hlast : (expressionStatement t value).gluedInto chars = value.gluedInto chars := by
    cases value <;> first | rfl | cases hkind
  refine (hvalue chars).congr ?_
  rw [total_eq, hlast]
  simp [gluedWeight, Node.statements, pairCount, children]

theorem scans_identifier {word : String} (hword : IsWord word.toList)
    (hlookup : keywords.lookup word = none) : (identifier t word).Scans := by
  intro chars
  have hscan := fusedBy_word hword chars
  have hkind : TokenKind.ofWord word = .ident := by simp [TokenKind.ofWord, hlookup]
  rw [String.ofList_toList, hkind] at hscan
  rw [total_eq]
  exact hscan.congr (Nat.zero_add (startsWith isWordChar chars))

theorem scans_integer (n : Nat) : (integer t n).Scans := by
  intro chars
  have hscan := fusedBy_number (Text.Decimal.isNumber_digits n) chars
  rw [text_integer, total_eq]
  exact hscan.congr (Nat.zero_add (startsWith isDigit chars))

theorem scans_boolean (value : Bool) : (boolean t value).Scans := by
  intro chars
  rw [text_boolean, total_eq]
  refine FusedBy.congr ?_ (Nat.zero_add (startsWith isWordChar chars))
  cases value with
  | false => exact fusedBy_word (by decide) chars
  | true => exact fusedBy_word (by decide) chars

/-- The operand after `!` does not start with the `=` that would make it another operator. -/
theorem scans_prefixOp (hoperator : operator = "!" ∨ operator = "-") (hstarts : right.StartsAlike)
    (hright : right.Scans) : (prefixOp t operator right).Scans := by
  refine scans_of_closed rfl rfl fun chars => ?_
  have hlast := hright.stop (c := ')') (by decide) chars
  rw [tokens_rparen] at hlast
  obtain ⟨c, more, _, _, htext, _, hstart⟩ := hstarts
  have hc : c ≠ '=' := by
    rintro rfl
    rcases hstart with ⟨h, -⟩ | ⟨h | h, -⟩ <;> exact absurd h (by decide)
  have hchars : (prefixOp t operator right).text ++ chars =
      '(' :: (operator.toList ++ (right.text ++ ')' :: chars)) := by
    simp [text_prefixOp]
  have hscan : tokens (operator.toList ++ (right.text ++ ')' :: chars)) =
      ⟨.ofOperator operator, operator⟩ :: tokens (right.text ++ ')' :: chars) := by
    rw [htext]
    exact tokens_prefixOperator hoperator hc _
  rw [hchars, tokens_lparen, hscan, printed_prefixOp_append]
  exact ((hlast.cons _).cons _).congr (by simp [children])

theorem scans_infixOp (hoperator : operator ∈ binaryOperators) (hleft : left.Scans)
    (hright : right.Scans) : (infixOp t left operator right).Scans := by
  refine scans_of_closed rfl rfl fun chars => ?_
  have hlast := hright.stop (c := ')') (by decide) chars
  have hfirst := hleft.stop (c := ' ') (by decide)
    (operator.toList ++ ' ' :: (right.text ++ ')' :: chars))
  rw [tokens_rparen] at hlast
  rw [tokens_space, tokens_binaryOperator hoperator] at hfirst
  have htext : (infixOp t left operator right).text ++ chars =
      '(' :: (left.text ++ ' ' :: (operator.toList ++ ' ' :: (right.text ++ ')' :: chars))) := by
    simp [text_infixOp]
  rw [htext, tokens_lparen, printed_infixOp_append]
  exact ((hfirst.trans ((hlast.cons _).append left.printed)).cons _).congr (by simp [children])

theorem scans_conditional_none (hif : t.literal = "if") (hblock : consequence.kind = .block)
    (hcondition : condition.Scans) (hconsequence : consequence.Scans) :
    (conditional t condition consequence none).Scans := by
  refine scans_of_closed rfl rfl fun chars => ?_
  have hfirst := scans_condition hcondition (consequence.text ++ chars)
  have htext : (conditional t condition consequence none).text ++ chars =
      "if".toList ++ ' ' :: (conditionText condition.isParenthesized condition.text ++
        ' ' :: (consequence.text ++ chars)) := by
    simp [text_conditional_none, hif]
  rw [htext, tokens_keyword (by decide : ("if", TokenKind.kwIf) ∈ keywords) (by decide),
    tokens_space, printed_conditional_none_append]
  have hall := hfirst.trans ((hconsequence chars).append _)
  refine (hall.cons _).congr ?_
  rw [gluedInto_of_block hblock]
  simp [children]

theorem scans_conditional_some (hif : t.literal = "if") (hother : alternative.kind = .block)
    (hcondition : condition.Scans) (hconsequence : consequence.Scans)
    (halternative : alternative.Scans) :
    (conditional t condition consequence (some alternative)).Scans := by
  refine scans_of_closed rfl rfl fun chars => ?_
  have hblock := hconsequence.stop (c := ' ') (by decide)
    ("else".toList ++ ' ' :: (alternative.text ++ chars))
  rw [tokens_space, tokens_keyword (by decide : ("else", TokenKind.kwElse) ∈ keywords) (by decide),
    tokens_space] at hblock
  have htext : (conditional t condition consequence (some alternative)).text ++ chars =
      "if".toList ++ ' ' :: (conditionText condition.isParenthesized condition.text ++
        ' ' :: (consequence.text ++ ' ' :: ("else".toList ++ ' ' :: (alternative.text ++ chars)))) := by
    simp [text_conditional_some, hif]
  rw [htext, tokens_keyword (by decide : ("if", TokenKind.kwIf) ∈ keywords) (by decide),
    tokens_space, printed_conditional_some_append]
  have hblocks := hblock.trans
    (((halternative chars).cons TokenKind.kwElse.token).append consequence.printed)
  have hall := (scans_condition hcondition _).trans (hblocks.append _)
  refine (hall.cons _).congr ?_
  rw [gluedInto_of_block hother]
  simp [children]

theorem scans_function (hfn : t.literal = "fn") (hblock : body.kind = .block)
    (hparameters : ∀ p ∈ parameters, p.Scans) (hbody : body.Scans) :
    (function t parameters body).Scans := by
  refine scans_of_closed rfl rfl fun chars => ?_
  have hfirst := scans_commas parameters hparameters (' ' :: (body.text ++ chars))
  rw [tokens_space] at hfirst
  have htext : (function t parameters body).text ++ chars =
      "fn".toList ++ '(' :: (textCommas parameters ++ ')' :: ' ' :: (body.text ++ chars)) := by
    simp [text_function, hfn]
  rw [htext, tokens_keyword (by decide : ("fn", TokenKind.kwFunction) ∈ keywords) (by decide),
    tokens_lparen, printed_function_append]
  have hall := hfirst.trans (((hbody chars).cons TokenKind.rparen.token).append _)
  refine ((hall.cons _).cons _).congr ?_
  rw [gluedInto_of_block hblock]
  simp [children, totalAll_append]

theorem scans_call (hcallee : callee.Scans) (harguments : ∀ a ∈ arguments, a.Scans) :
    (call t callee arguments).Scans := by
  refine scans_of_closed rfl rfl fun chars => ?_
  have hfirst := hcallee.stop (c := '(') (by decide) (textCommas arguments ++ ')' :: chars)
  rw [tokens_lparen] at hfirst
  have htext : (call t callee arguments).text ++ chars =
      callee.text ++ '(' :: (textCommas arguments ++ ')' :: chars) := by
    simp [text_call]
  rw [htext, printed_call_append]
  have hlast := scans_commas arguments harguments chars
  have hall := hfirst.trans ((hlast.cons TokenKind.lparen.token).append callee.printed)
  exact hall.congr (by simp [children])

end Constructs

/-- Scanning the text of any well-formed tree but a program yields its tokens, less the words that are
glued to the one before. -/
theorem scans {node : Node} (h : node.WellFormed) (hkind : node.kind ≠ .program) : node.Scans := by
  induction node using childInduction with
  | step node ih =>
    obtain ⟨hfit, hchildren⟩ := wellFormed_iff.mp h
    replace ih : ∀ child ∈ node.children, child.Scans :=
      fun child hchild => ih child hchild (hchildren child hchild) (hfit.ne_program child hchild)
    cases node with
    | program => exact absurd rfl hkind
    | block t statements =>
      exact scans_block ih fun s hs => startsAlike (hchildren s hs) (.inr (hfit s hs))
    | letStatement t name value =>
      exact scans_letStatement hfit.1 (ih name (by simp [children])) (ih value (by simp [children]))
    | returnStatement t value =>
      exact scans_returnStatement hfit.1 (ih value (by simp [children]))
    | expressionStatement t expression =>
      exact scans_expressionStatement hfit (ih expression (by simp [children]))
    | identifier t value => exact scans_identifier hfit.1 hfit.2
    | integer t value =>
      obtain ⟨n, rfl⟩ := Int.eq_ofNat_of_zero_le hfit.1
      exact scans_integer n
    | boolean t value => exact scans_boolean value
    | prefixOp t operator right =>
      have hstarts := startsAlike (hchildren right (by simp [children])) (.inl hfit.2)
      exact scans_prefixOp hfit.1 hstarts (ih right (by simp [children]))
    | infixOp t left operator right =>
      exact scans_infixOp hfit.1 (ih left (by simp [children])) (ih right (by simp [children]))
    | conditional t condition consequence alternative =>
      have hcondition := ih condition (by simp [children])
      have hconsequence := ih consequence (by simp [children])
      cases alternative with
      | none => exact scans_conditional_none hfit.1 hfit.2.2.1 hcondition hconsequence
      | some other =>
        exact scans_conditional_some hfit.1 (hfit.2.2.2 other rfl) hcondition hconsequence
          (ih other (by simp [children]))
    | function t parameters body =>
      exact scans_function hfit.1 hfit.2.2 (fun p hp => ih p (by simp [children, hp]))
        (ih body (by simp [children]))
    | call t callee arguments =>
      exact scans_call (ih callee (by simp [children])) fun a ha => ih a (by simp [children, ha])

/-- Scanning the text of a well-formed program yields its tokens, less the words that are glued to the
one before. -/
theorem fusedBy_program {node : Node} (h : node.WellFormed) (hkind : node.kind = .program) :
    FusedBy (total gluedWeight node) (tokens node.text) node.printed := by
  obtain ⟨hfit, hchildren⟩ := wellFormed_iff.mp h
  cases node with
  | program t statements =>
    have hall := scans_statements
      (fun s hs => scans (hchildren s hs) (hfit.ne_program s hs))
      (fun s hs => startsAlike (hchildren s hs) (.inr (hfit s hs))) [] (fun _ => rfl)
    rw [List.append_nil, tokens_nil, List.append_nil] at hall
    rw [text_program, total_eq]
    exact hall.congr (Nat.add_comm (pairCount GluedTo statements) (totalAll gluedWeight statements))
  | _ => cases hkind

end Node

end Monkey
