import Monkey.Proofs.CursorText

/-!
# Longest match

The lexemes are the words, the runs of digits, the two operators of two characters, and every other
character that is not blank. A text is taken apart into blanks and lexemes, each of which is the longest
lexeme at its place, in one way only; its tokens are these lexemes in order, and the kind of a token
depends on nothing but the lexeme.

Every front part of a lexeme is a lexeme. A lexeme is therefore the longest one at its place as soon as
it cannot be made longer by one character.
-/

namespace Monkey

/-- A word, a run of digits, an operator of two characters, or any character that is not blank. -/
def IsLexeme (text : List Char) : Prop :=
  IsWord text ∨ IsNumber text ∨ text = ['=', '='] ∨ text = ['!', '='] ∨
    ∃ c, text = [c] ∧ isBlank c = false

/-- A lexeme that a text starts with, and no longer one. -/
structure IsLongestLexeme (lexeme text : List Char) : Prop where
  isLexeme : IsLexeme lexeme
  starts : lexeme <+: text
  longest : ∀ other, IsLexeme other → other <+: text → other.length ≤ lexeme.length

/-- The kind of the token with a given text: the keyword, operator or delimiter that is spelled so, and
otherwise an identifier for a word, a number for digits, or none. -/
def TokenKind.ofLexeme (lexeme : String) : TokenKind :=
  (TokenKind.all.find? fun kind => kind.spelling == lexeme).getD <|
    if IsWord lexeme.toList then .ident else if IsNumber lexeme.toList then .int else .illegal

/-- The token with a given text. -/
def Token.ofLexeme (lexeme : List Char) : Token :=
  ⟨.ofLexeme (String.ofList lexeme), String.ofList lexeme⟩

/-- A text is taken apart into tokens with blanks between them, each the longest lexeme at its place. -/
inductive Lexed : List Char → List Token → Prop
  | blanks {blanks : List Char} : (∀ c ∈ blanks, isBlank c = true) → Lexed blanks []
  | lexeme {blanks lexeme rest : List Char} {more : List Token} :
      (∀ c ∈ blanks, isBlank c = true) → IsLongestLexeme lexeme (lexeme ++ rest) → Lexed rest more →
      Lexed (blanks ++ (lexeme ++ rest)) (.ofLexeme lexeme :: more)

/-! ## Lexemes by their first character -/

variable {c : Char} {lexeme rest text other : List Char}

theorem isLexeme_of_isWordStart (h : isWordStart c = true) :
    IsLexeme (c :: rest) ↔ ∀ d ∈ rest, isWordChar d = true := by
  constructor
  · rintro (⟨d, more, heq, -, hmore⟩ | ⟨-, hdigits⟩ | heq | heq | ⟨d, heq, -⟩)
    · obtain ⟨-, rfl⟩ := List.cons.inj heq
      exact hmore
    · exact fun d hd => isWordChar_of_isDigit (hdigits d (List.mem_cons_of_mem c hd))
    · obtain ⟨rfl, -⟩ := List.cons.inj heq
      exact absurd h (by decide)
    · obtain ⟨rfl, -⟩ := List.cons.inj heq
      exact absurd h (by decide)
    · obtain ⟨-, rfl⟩ := List.cons.inj heq
      simp
  · exact fun hrest => .inl ⟨c, rest, rfl, h, hrest⟩

theorem isLexeme_of_isDigit (h : isDigit c = true) :
    IsLexeme (c :: rest) ↔ ∀ d ∈ rest, isDigit d = true := by
  have hword := isWordStart_of_isDigit h
  constructor
  · rintro (⟨d, more, heq, hstart, -⟩ | ⟨-, hdigits⟩ | heq | heq | ⟨d, heq, -⟩)
    · obtain ⟨rfl, -⟩ := List.cons.inj heq
      simp [hword] at hstart
    · exact fun d hd => hdigits d (List.mem_cons_of_mem c hd)
    · obtain ⟨rfl, -⟩ := List.cons.inj heq
      exact absurd h (by decide)
    · obtain ⟨rfl, -⟩ := List.cons.inj heq
      exact absurd h (by decide)
    · obtain ⟨-, rfl⟩ := List.cons.inj heq
      simp
  · exact fun hrest => .inr (.inl ⟨by simp, List.forall_mem_cons.mpr ⟨h, hrest⟩⟩)

theorem isLexeme_of_not (hword : isWordStart c = false) (hdigit : isDigit c = false) :
    IsLexeme (c :: rest) ↔
      (rest = [] ∧ isBlank c = false) ∨ ((c = '=' ∨ c = '!') ∧ rest = ['=']) := by
  constructor
  · rintro (⟨d, more, heq, hstart, -⟩ | ⟨-, hdigits⟩ | heq | heq | ⟨d, heq, hblank⟩)
    · obtain ⟨rfl, -⟩ := List.cons.inj heq
      simp [hword] at hstart
    · exact absurd (hdigits c List.mem_cons_self) (by simp [hdigit])
    · obtain ⟨rfl, rfl⟩ := List.cons.inj heq
      exact .inr ⟨.inl rfl, rfl⟩
    · obtain ⟨rfl, rfl⟩ := List.cons.inj heq
      exact .inr ⟨.inr rfl, rfl⟩
    · obtain ⟨rfl, rfl⟩ := List.cons.inj heq
      exact .inl ⟨rfl, hblank⟩
  · rintro (⟨rfl, hblank⟩ | ⟨rfl | rfl, rfl⟩)
    · exact .inr (.inr (.inr (.inr ⟨c, rfl, hblank⟩)))
    · exact .inr (.inr (.inl rfl))
    · exact .inr (.inr (.inr (.inl rfl)))

/-- A lexeme does not start with a blank. -/
theorem IsLexeme.exists_cons (h : IsLexeme lexeme) :
    ∃ c rest, lexeme = c :: rest ∧ isBlank c = false := by
  rcases h with ⟨c, rest, rfl, hstart, -⟩ | ⟨hne, hdigits⟩ | rfl | rfl | ⟨c, rfl, hblank⟩
  · exact ⟨c, rest, rfl, isBlank_of_isWordStart hstart⟩
  · obtain ⟨c, rest, rfl⟩ := List.exists_cons_of_ne_nil hne
    exact ⟨c, rest, rfl, isBlank_of_isDigit (hdigits c List.mem_cons_self)⟩
  · exact ⟨_, _, rfl, by decide⟩
  · exact ⟨_, _, rfl, by decide⟩
  · exact ⟨c, [], rfl, hblank⟩

/-- Every front part of a lexeme is a lexeme. -/
theorem IsLexeme.of_append (h : IsLexeme (lexeme ++ rest)) (hne : lexeme ≠ []) : IsLexeme lexeme := by
  obtain ⟨c, more, rfl⟩ := List.exists_cons_of_ne_nil hne
  rw [List.cons_append] at h
  by_cases hword : isWordStart c = true
  · rw [isLexeme_of_isWordStart hword] at h ⊢
    exact fun d hd => h d (List.mem_append_left rest hd)
  · by_cases hdigit : isDigit c = true
    · rw [isLexeme_of_isDigit hdigit] at h ⊢
      exact fun d hd => h d (List.mem_append_left rest hd)
    · obtain ⟨_, _, heq, hblank⟩ := h.exists_cons
      obtain ⟨rfl, -⟩ := List.cons.inj heq
      simp only [Bool.not_eq_true] at hword hdigit
      rw [isLexeme_of_not hword hdigit] at h ⊢
      cases more with
      | nil => exact .inl ⟨rfl, hblank⟩
      | cons d more => simp_all

/-- A lexeme is the longest one if it cannot be made longer by the character after it. -/
theorem isLongestLexeme_append_iff (h : IsLexeme lexeme) :
    IsLongestLexeme lexeme (lexeme ++ rest) ↔ ∀ c ∈ rest.head?, ¬ IsLexeme (lexeme ++ [c]) := by
  constructor
  · intro hlongest c hc hlonger
    obtain ⟨more, rfl⟩ : ∃ more, rest = c :: more := by
      cases rest with
      | nil => simp at hc
      | cons d more => exact ⟨more, by simpa using hc⟩
    have hle := hlongest.longest _ hlonger ⟨more, by simp⟩
    rw [List.length_append, List.length_singleton] at hle
    omega
  · refine fun hstop => ⟨h, List.prefix_append lexeme rest, fun other hother hstarts => ?_⟩
    by_contra hlong
    obtain ⟨more, rfl⟩ :=
      List.prefix_of_prefix_length_le (List.prefix_append lexeme rest) hstarts (by omega)
    rw [List.prefix_append_right_inj] at hstarts
    cases more with
    | nil => simp at hlong
    | cons c more =>
      obtain ⟨back, rfl⟩ := hstarts
      have hlonger : IsLexeme ((lexeme ++ [c]) ++ more) := by
        rwa [List.append_assoc, List.singleton_append]
      exact hstop c rfl (hlonger.of_append (by simp))

/-- There is only one longest lexeme. -/
theorem IsLongestLexeme.unique (h : IsLongestLexeme lexeme text) (h' : IsLongestLexeme other text) :
    lexeme = other := by
  have hle := h'.longest lexeme h.isLexeme h.starts
  have hge := h.longest other h'.isLexeme h'.starts
  exact (List.prefix_of_prefix_length_le h.starts h'.starts hle).eq_of_length (by omega)

/-! ## The kind of a lexeme -/

theorem ofLexeme_of_spelling {kind : TokenKind} {text : String} (h : kind.spelling = text) (hne : text ≠ "") :
    TokenKind.ofLexeme text = kind := by
  subst h
  cases kind <;> first | rfl | exact absurd rfl hne

theorem ofLexeme_of_spelling_ne {text : String} (h : ∀ kind : TokenKind, kind.spelling ≠ text) :
    TokenKind.ofLexeme text =
      if IsWord text.toList then .ident else if IsNumber text.toList then .int else .illegal := by
  have hfind : (TokenKind.all.find? fun kind => kind.spelling == text) = none :=
    List.find?_eq_none.mpr fun kind _ hspelled => h kind (beq_iff_eq.mp hspelled)
  rw [TokenKind.ofLexeme, hfind, Option.getD_none]

/-- Only keywords are spelled by a word. -/
theorem lookup_keywords_spelling (kind : TokenKind) (h : IsWord kind.spelling.toList) :
    keywords.lookup kind.spelling = some kind := by
  revert h
  cases kind <;> decide

theorem not_isNumber_spelling (kind : TokenKind) : ¬ IsNumber kind.spelling.toList := by
  cases kind <;> decide

theorem ofLexeme_word (h : IsWord lexeme) :
    Token.ofLexeme lexeme = ⟨.ofWord (String.ofList lexeme), String.ofList lexeme⟩ := by
  have hword : IsWord (String.ofList lexeme).toList := String.toList_ofList.symm ▸ h
  rw [Token.ofLexeme, TokenKind.ofWord]
  cases hlookup : keywords.lookup (String.ofList lexeme) with
  | none =>
    have hne (kind : TokenKind) : kind.spelling ≠ String.ofList lexeme := fun hspelling => by
      have hkeyword := lookup_keywords_spelling kind (hspelling.symm ▸ hword)
      rw [hspelling, hlookup] at hkeyword
      cases hkeyword
    rw [ofLexeme_of_spelling_ne hne, if_pos hword]
    rfl
  | some kind =>
    rw [ofLexeme_of_spelling (spelling_of_lookup_keywords hlookup) hword.ne_empty]
    rfl

theorem not_isWord_of_head (h : isWordStart c = false) : ¬ IsWord (c :: rest) := by
  rintro ⟨d, more, heq, hstart, -⟩
  obtain ⟨rfl, -⟩ := List.cons.inj heq
  simp [h] at hstart

theorem not_isNumber_of_head (h : isDigit c = false) : ¬ IsNumber (c :: rest) := fun hnumber => by
  have := hnumber.2 c List.mem_cons_self
  simp [h] at this

theorem ofLexeme_number (h : IsNumber lexeme) :
    Token.ofLexeme lexeme = ⟨.int, String.ofList lexeme⟩ := by
  have hword : ¬ IsWord lexeme := by
    obtain ⟨hne, hdigits⟩ := h
    obtain ⟨c, rest, rfl⟩ := List.exists_cons_of_ne_nil hne
    exact not_isWord_of_head (isWordStart_of_isDigit (hdigits c List.mem_cons_self))
  have hne (kind : TokenKind) : kind.spelling ≠ String.ofList lexeme := fun hspelling =>
    not_isNumber_spelling kind (by rwa [hspelling, String.toList_ofList])
  rw [Token.ofLexeme, ofLexeme_of_spelling_ne hne, String.toList_ofList, if_neg hword, if_pos h]

/-- Only the operators and delimiters are spelled by one character that is not part of a word. -/
theorem lookup_punctuation_of_spelling {kind : TokenKind} (hspelling : kind.spelling = String.singleton c)
    (hassign : c ≠ '=') (hbang : c ≠ '!') : punctuation.lookup c = some kind := by
  have hlist : kind.spelling.toList = [c] := by rw [hspelling, String.toList_singleton]
  cases kind <;> simp [TokenKind.spelling] at hlist <;> subst hlist <;> first | rfl | contradiction

theorem ofLexeme_singleton (hword : isWordStart c = false) (hdigit : isDigit c = false)
    (hassign : c ≠ '=') (hbang : c ≠ '!') :
    Token.ofLexeme [c] = ⟨.ofPunctuation c, String.singleton c⟩ := by
  change (⟨TokenKind.ofLexeme (String.singleton c), String.singleton c⟩ : Token) = _
  rw [TokenKind.ofPunctuation]
  cases hlookup : punctuation.lookup c with
  | none =>
    have hne (kind : TokenKind) : kind.spelling ≠ String.singleton c := fun hspelling => by
      have hpunctuation := lookup_punctuation_of_spelling hspelling hassign hbang
      rw [hlookup] at hpunctuation
      cases hpunctuation
    rw [ofLexeme_of_spelling_ne hne, String.toList_singleton, if_neg (not_isWord_of_head hword),
      if_neg (not_isNumber_of_head hdigit)]
    rfl
  | some kind =>
    rw [ofLexeme_of_spelling (spelling_of_lookup_punctuation hlookup) String.singleton_ne_empty]
    rfl

/-! ## Scanning -/

/-- The longest run of characters with a property is followed by one without it. -/
theorem eq_false_of_mem_head?_dropWhile {p : Char → Bool} {text : List Char} :
    ∀ d ∈ (text.dropWhile p).head?, p d = false := by
  intro d hd
  have hnot := List.head?_dropWhile_not p text
  rw [Option.mem_def.mp hd] at hnot
  exact hnot

/-- A lexeme is scanned at the front of a text: it is the longest one there, and the scanner gives its
token and what follows it. -/
structure ScansLongest (c : Char) (rest lexeme : List Char) : Prop where
  eq : c :: rest = lexeme ++ (scanLexeme c rest).2
  token : (scanLexeme c rest).1 = .ofLexeme lexeme
  isLexeme : IsLexeme lexeme
  stop : ∀ d ∈ (scanLexeme c rest).2.head?, ¬ IsLexeme (lexeme ++ [d])

/-- Where the lexemes are the runs of characters of some kind, the longest run is scanned. -/
theorem scansLongest_run {p : Char → Bool} (hlexeme : ∀ more, IsLexeme (c :: more) ↔ ∀ d ∈ more, p d = true)
    (hscan : scanLexeme c rest = (.ofLexeme (c :: rest.takeWhile p), rest.dropWhile p)) :
    ScansLongest c rest (c :: rest.takeWhile p) := by
  refine ⟨?_, by rw [hscan], (hlexeme _).mpr fun d hd => List.mem_takeWhile_imp hd, ?_⟩
  · rw [hscan, List.cons_append, List.takeWhile_append_dropWhile]
  · intro d hd hlonger
    rw [hscan] at hd
    rw [List.cons_append, hlexeme] at hlonger
    have hlast := hlonger d (by simp)
    rw [eq_false_of_mem_head?_dropWhile d hd] at hlast
    cases hlast

theorem scansLongest_word (h : isWordStart c = true) (rest : List Char) :
    ScansLongest c rest (c :: rest.takeWhile isWordChar) := by
  refine scansLongest_run (fun _ => isLexeme_of_isWordStart h) ?_
  rw [scanLexeme, if_pos h, ofLexeme_word ⟨c, _, rfl, h, fun d hd => List.mem_takeWhile_imp hd⟩]

theorem scansLongest_number (h : isDigit c = true) (rest : List Char) :
    ScansLongest c rest (c :: rest.takeWhile isDigit) := by
  have hrun : IsNumber (c :: rest.takeWhile isDigit) :=
    ⟨by simp, List.forall_mem_cons.mpr ⟨h, fun d hd => List.mem_takeWhile_imp hd⟩⟩
  refine scansLongest_run (fun _ => isLexeme_of_isDigit h) ?_
  rw [scanLexeme, if_neg (by simp [isWordStart_of_isDigit h]), if_pos h, ofLexeme_number hrun]

/-- An equals sign belongs to the operator before it. -/
theorem scanLexeme_two (h : c = '=' ∨ c = '!') (rest : List Char) :
    scanLexeme c ('=' :: rest) = (.ofLexeme [c, '='], rest) := by
  rcases h with rfl | rfl <;> rfl

/-- Any other character that starts no word and no number is scanned by itself. -/
theorem scanLexeme_one (hword : isWordStart c = false) (hdigit : isDigit c = false)
    (h : ¬ ((c = '=' ∨ c = '!') ∧ rest.head? = some '=')) :
    scanLexeme c rest = (.ofLexeme [c], rest) := by
  rw [scanLexeme, if_neg (by simp [hword]), if_neg (by simp [hdigit])]
  by_cases hassign : c = '='
  · subst hassign
    rw [if_neg (by simpa using h), if_pos rfl]
    rfl
  · rw [if_neg (by simp [hassign]), if_neg hassign]
    by_cases hbang : c = '!'
    · subst hbang
      rw [if_neg (by simpa using h), if_pos rfl]
      rfl
    · rw [if_neg (by simp [hbang]), if_neg hbang, ofLexeme_singleton hword hdigit hassign hbang]

/-- A character that starts no word and no number is scanned by itself or with an equals sign. -/
theorem exists_scansLongest_symbol (hblank : isBlank c = false) (hword : isWordStart c = false)
    (hdigit : isDigit c = false) (rest : List Char) : ∃ lexeme, ScansLongest c rest lexeme := by
  have hlexeme : ∀ more, IsLexeme (c :: more) ↔ more = [] ∨ ((c = '=' ∨ c = '!') ∧ more = ['=']) :=
    fun more => by simp [isLexeme_of_not hword hdigit, hblank]
  by_cases htwo : (c = '=' ∨ c = '!') ∧ rest.head? = some '='
  · obtain ⟨hc, hhead⟩ := htwo
    obtain ⟨more, rfl⟩ := List.head?_eq_some_iff.mp hhead
    have hscan := scanLexeme_two hc more
    refine ⟨[c, '='], by rw [hscan]; rfl, by rw [hscan], (hlexeme _).mpr (.inr ⟨hc, rfl⟩), ?_⟩
    intro d _ hlonger
    simp [hlexeme] at hlonger
  · have hscan := scanLexeme_one hword hdigit htwo
    refine ⟨[c], by rw [hscan]; rfl, by rw [hscan], (hlexeme _).mpr (.inl rfl), ?_⟩
    intro d hd hlonger
    rw [hscan] at hd
    rw [List.singleton_append, hlexeme] at hlonger
    rcases hlonger with hnil | ⟨hc, heq⟩
    · cases hnil
    · obtain rfl : d = '=' := by simpa using heq
      exact htwo ⟨hc, hd⟩

/-- What is scanned at the front of a text is the longest lexeme there. -/
theorem exists_scansLongest (hblank : isBlank c = false) (rest : List Char) :
    ∃ lexeme, ScansLongest c rest lexeme := by
  by_cases hword : isWordStart c = true
  · exact ⟨_, scansLongest_word hword rest⟩
  · by_cases hdigit : isDigit c = true
    · exact ⟨_, scansLongest_number hdigit rest⟩
    · exact exists_scansLongest_symbol hblank (by simpa using hword) (by simpa using hdigit) rest

/-- The longest lexeme at the front of a text is its first token. -/
theorem tokens_of_isLongestLexeme (h : IsLongestLexeme lexeme (lexeme ++ rest)) :
    tokens (lexeme ++ rest) = .ofLexeme lexeme :: tokens rest := by
  obtain ⟨c, more, rfl, hblank⟩ := h.isLexeme.exists_cons
  obtain ⟨other, hscans⟩ := exists_scansLongest hblank (more ++ rest)
  have hother : IsLongestLexeme other (c :: (more ++ rest)) := by
    rw [hscans.eq]
    exact (isLongestLexeme_append_iff hscans.isLexeme).mpr hscans.stop
  obtain rfl := h.unique hother
  have hrest : (scanLexeme c (more ++ rest)).2 = rest := by
    simpa using hscans.eq.symm
  rw [List.cons_append, tokens_cons hblank, hscans.token, hrest]

/-- Blanks in front of a text make no difference to its tokens. -/
theorem tokens_blanks_append {blanks : List Char} (h : ∀ c ∈ blanks, isBlank c = true)
    (text : List Char) : tokens (blanks ++ text) = tokens text := by
  induction blanks with
  | nil => rfl
  | cons c blanks ih =>
    obtain ⟨hc, hblanks⟩ := List.forall_mem_cons.mp h
    rw [List.cons_append, tokens_cons_of_isBlank hc, ih hblanks]

/-- The tokens of a text are the longest lexemes one after the other, and nothing else is. -/
theorem lexed_iff {stream : List Token} : Lexed text stream ↔ tokens text = stream := by
  constructor
  · intro h
    induction h with
    | blanks hblanks => simpa [tokens_nil] using tokens_blanks_append hblanks []
    | lexeme hblanks hlongest _ ih =>
      rw [tokens_blanks_append hblanks, tokens_of_isLongestLexeme hlongest, ih]
  · rintro rfl
    induction hlen : text.length using Nat.strongRecOn generalizing text with
    | ind len ih =>
      rw [← List.takeWhile_append_dropWhile (p := isBlank) (l := text)]
      have hblanks : ∀ c ∈ text.takeWhile isBlank, isBlank c = true := fun c hc =>
        List.mem_takeWhile_imp hc
      rw [tokens_blanks_append hblanks]
      cases hdrop : text.dropWhile isBlank with
      | nil =>
        rw [List.append_nil, tokens_nil]
        exact .blanks hblanks
      | cons c rest =>
        have hblank : isBlank c = false :=
          eq_false_of_mem_head?_dropWhile c (by rw [hdrop]; rfl)
        obtain ⟨lexeme, hscans⟩ := exists_scansLongest hblank rest
        have hlongest := (isLongestLexeme_append_iff hscans.isLexeme).mpr hscans.stop
        rw [hscans.eq, tokens_of_isLongestLexeme hlongest]
        refine .lexeme hblanks hlongest (ih _ ?_ rfl)
        have hle := length_dropWhile_le isBlank text
        have hshort := length_scanLexeme_snd c rest
        rw [hdrop, List.length_cons] at hle
        omega

/-- Texts one after the other are taken apart one after the other, unless the first character of the
second one goes on with the last lexeme of the first one. -/
theorem Lexed.append {back : List Char} {stream after : List Token} (h : Lexed text stream)
    (hback : Lexed back after)
    (hlast : ∀ t ∈ stream.getLast?, ∀ c ∈ back.head?, ¬ IsLexeme (t.literal.toList ++ [c])) :
    Lexed (text ++ back) (stream ++ after) := by
  induction h with
  | @blanks blanks hblanks =>
    rw [lexed_iff, tokens_blanks_append hblanks]
    exact lexed_iff.mp hback
  | @lexeme blanks lexeme rest more hblanks hlongest hrest ih =>
    simp only [List.append_assoc, List.cons_append]
    refine .lexeme hblanks ((isLongestLexeme_append_iff hlongest.isLexeme).mpr fun c hc => ?_) (ih ?_)
    · cases rest with
      | nil =>
        obtain rfl : more = [] := (lexed_iff.mp hrest).symm.trans tokens_nil
        have hstop := hlast (.ofLexeme lexeme) rfl c hc
        rwa [Token.ofLexeme, String.toList_ofList] at hstop
      | cons d rest => exact (isLongestLexeme_append_iff hlongest.isLexeme).mp hlongest c hc
    · intro t ht
      refine hlast t ?_
      rw [List.getLast?_cons, Option.mem_def.mp ht]
      rfl

/-- A text is taken apart into longest lexemes in exactly one way, and the tokens that the scanner and a
cursor on the text give are these lexemes with the end of input after them. -/
theorem tokenize_eq_iff_lexed (source : String) (list : List Token) :
    (tokenize source = list ↔ ∃ stream, Lexed source.toList stream ∧ list = stream ++ [.endOfInput]) ∧
      ((Cursor.ofSource source).tokenize.1 = list ↔
        ∃ stream, Lexed source.toList stream ∧ list = stream ++ [.endOfInput]) := by
  have h : tokenize source = list ↔
      ∃ stream, Lexed source.toList stream ∧ list = stream ++ [.endOfInput] := by
    simp only [lexed_iff, exists_eq_left', tokenize]
    exact eq_comm
  exact ⟨h, Cursor.tokenize_ofSource source ▸ h⟩

end Monkey
