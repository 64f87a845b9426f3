import Mathlib
import Monkey.Proofs.Outcome
import Monkey.Proofs.TokenLine
import Monkey.Proofs.Trace

/-!
# The token dump of a text

The command that dumps tokens writes the line of each token of its text, that of the end of input only if it is
asked for. The tokens are read off the lines, so two texts have the same dump only if they have the same
tokens. What is warned about follows from the dump as well: the number of illegal tokens and the first of them,
if there are any.
-/

namespace Monkey

/-- The warnings among the lines of the log. -/
def Console.warnings (console : Console) : List LogEntry :=
  (console.lines.map (·.entry)).filter fun entry => decide (entry.level = .warning)

/-- The warnings among entries are shown where the level permits it. -/
theorem Console.warnings_noteAll (around : Surroundings) (entries : List LogEntry) :
    (({} : Console).noteAll around entries).warnings =
      if LogLevel.warning.rank ≤ around.settings.level.rank then
        entries.filter fun entry => decide (entry.level = .warning)
      else [] := by
  have hlines : (({} : Console).noteAll around entries).lines.map (·.entry) =
      [] ++ (entries.filter (LogEntry.isShown around.settings)).map id :=
    map_lines_noteAll (fun _ _ => rfl) entries {}
  rw [warnings, hlines, List.map_id, List.nil_append, List.filter_filter]
  have hshown : ∀ entry : LogEntry, entry.level = .warning → entry.isShown around.settings =
      decide (LogLevel.warning.rank ≤ around.settings.level.rank) := by
    intro entry hentry
    rw [LogEntry.isShown, hentry]
  split_ifs with hlevel
  · refine List.filter_congr fun entry _ => ?_
    by_cases hentry : entry.level = .warning <;> simp [hentry, hshown, hlevel]
  · refine List.filter_eq_nil_iff.mpr fun entry _ => ?_
    by_cases hentry : entry.level = .warning <;> simp [hentry, hshown, hlevel]

namespace Command

/-! ## The tokens of a dump -/

/-- The tokens that are dumped of a text. -/
def listedTokens (includeEof : Bool) (text : String) : List Token :=
  tokens text.toList ++ if includeEof then [.endOfInput] else []

theorem filter_tokenize (includeEof : Bool) (text : String) :
    ((tokenize text).filter fun t => includeEof || decide (t.kind ≠ .eof)) =
      listedTokens includeEof text := by
  have htokens : (tokens text.toList).filter (fun t => includeEof || decide (t.kind ≠ .eof)) =
      tokens text.toList := by
    refine List.filter_eq_self.mpr fun t ht => ?_
    simp [(spelled_of_mem_tokens t ht).kind_ne_eof]
  rw [tokenize, List.filter_append, htokens, listedTokens]
  cases includeEof <;> rfl

/-- What is listed of two texts is the same if they have the same tokens. -/
theorem listedTokens_eq_iff {includeEof : Bool} {first second : String} :
    listedTokens includeEof first = listedTokens includeEof second ↔ tokenize first = tokenize second := by
  simp [listedTokens, tokenize]

/-- The illegal tokens of a text are all listed. -/
theorem filter_illegal_listedTokens (includeEof : Bool) (text : String) :
    (listedTokens includeEof text).filter (fun t => decide (t.kind = .illegal)) =
      (tokenize text).filter fun t => decide (t.kind = .illegal) := by
  rw [listedTokens, tokenize, List.filter_append, List.filter_append]
  cases includeEof <;> rfl

/-! ## The warning -/

/-- What is warned about in a list of tokens: the number of those that are illegal, and the first of them. -/
def warningAbout (name : String) (listed : List Token) : Option LogEntry :=
  (listed.find? fun t => decide (t.kind = .illegal)).map fun first =>
    ⟨.warning, name ++ ": warning: " ++
      Text.Decimal.ofNat (listed.countP fun t => decide (t.kind = .illegal)) ++
        " illegal token(s), first " ++ first.display⟩

/-- The tokens that are listed tell what is warned about. -/
theorem illegalWarning_eq (name : String) (listed : List Token) :
    illegalWarning name (listed.filter fun t => decide (t.kind = .illegal)) =
      (warningAbout name listed).toList := by
  rw [warningAbout, ← List.head?_filter, List.countP_eq_length_filter]
  cases listed.filter fun t => decide (t.kind = .illegal) <;> rfl

/-- A dump has no other warning. -/
theorem warnings_dumpTokens (includeEof : Bool) (source : Source) :
    ((dumpTokens includeEof source).log.filter fun entry => decide (entry.level = .warning)) =
      (warningAbout source.name (listedTokens includeEof source.text)).toList := by
  rw [← illegalWarning_eq, filter_illegal_listedTokens, dumpTokens]
  cases (tokenize source.text).filter fun t => decide (t.kind = .illegal) <;> rfl

variable {files : FileReader} {input : Input} {source : Source}

/-- The command writes the lines of the listed tokens, and its warnings are about these. -/
theorem run_tok (h : input.Holds files source) (includeEof : Bool) (stdin : String)
    (around : Surroundings) (limits : Limits) :
    ∃ console, (carryOut files stdin (.tok includeEof input) limits).run around {} = (.ok 0, console) ∧
      console.output = String.join ((listedTokens includeEof source.text).map tokenLine) ∧
      console.warnings =
        if LogLevel.warning.rank ≤ around.settings.level.rank then
          (warningAbout source.name (listedTokens includeEof source.text)).toList
        else [] := by
  have htask : runTask files around.settings.prompt stdin (.tok includeEof input) limits =
      .ok (dumpTokens includeEof source) := withInput_of_holds h
  have hends := carryOut_endsAs files around.settings.prompt stdin (.tok includeEof input) limits
  rw [htask] at hends
  refine ⟨_, hends around {} rfl, ?_, ?_⟩
  · rw [Console.write, Console.output_noteAll, ← filter_tokenize]
    exact String.empty_append
  · rw [← warnings_dumpTokens]
    exact Console.warnings_noteAll around _

/-- The token dump is a faithful encoding, with a line for each token. Whatever the text is, the dump has the
lines of its tokens, with the end of input if that is asked for, and nothing that is not printable stands in a
line. The tokens are read off the dump; so the dumps of two texts are the same exactly if their tokens are. If
the level permits it there is one warning if there are illegal tokens among those that are read, with their
number and the first of them, and else there is none. -/
theorem token_dump_tells_tokens (h : input.Holds files source) (includeEof : Bool) (stdin : String)
    (around : Surroundings) (limits : Limits) :
    ∃ console, (carryOut files stdin (.tok includeEof input) limits).run around {} = (.ok 0, console) ∧
      Text.lines console.output.toList =
        (listedTokens includeEof source.text).map (fun t => tokenText t ++ ['\n']) ∧
      (∀ t ∈ listedTokens includeEof source.text, Text.Printable (tokenText t)) ∧
      readTokenDump console.output = some (listedTokens includeEof source.text) ∧
      console.warnings =
        (if LogLevel.warning.rank ≤ around.settings.level.rank then
          (warningAbout source.name (listedTokens includeEof source.text)).toList
        else []) ∧
      ∀ {files' : FileReader} {input' : Input} {source' : Source}, input'.Holds files' source' →
        ∀ (stdin' : String) (around' : Surroundings) (limits' : Limits) (console' : Console),
          (carryOut files' stdin' (.tok includeEof input') limits').run around' {} = (.ok 0, console') →
            (console.output = console'.output ↔ tokenize source.text = tokenize source'.text) := by
  obtain ⟨console, hrun, houtput, hwarnings⟩ := run_tok h includeEof stdin around limits
  refine ⟨console, hrun, ?_, fun t _ => printable_tokenText t, ?_, hwarnings, ?_⟩
  · rw [houtput, lines_tokenDump]
  · rw [houtput, readTokenDump_tokenDump]
  · intro files' input' source' h' stdin' around' limits' console' hrun'
    obtain ⟨other, hother, houtput', -⟩ := run_tok h' includeEof stdin' around' limits'
    obtain rfl : other = console' := (Prod.mk.inj (hother.symm.trans hrun')).2
    rw [houtput, houtput', ← listedTokens_eq_iff]
    refine ⟨fun hdumps => ?_, fun hlisted => by rw [hlisted]⟩
    have hread := congrArg readTokenDump hdumps
    simpa only [readTokenDump_tokenDump, Option.some.injEq] using hread

set_option maxRecDepth 20000 in
/-- A quote, a backslash and a control character are illegal, and are read back. Blanks between them do not
show. -/
theorem token_dump_of_illegal_characters :
    ∃ console console',
      (carryOut (fun _ => .error .noSuchFile) "" (.tok false (.expr "a\x27\x5c\x07"))).run
        ⟨.ofVerbosity false 1, fun _ => ""⟩ {} = (.ok 0, console) ∧
      (carryOut (fun _ => .error .noSuchFile) "" (.tok false (.expr "a \x27\n\x5c \x07"))).run
        ⟨.ofVerbosity false 1, fun _ => ""⟩ {} = (.ok 0, console') ∧
      console.output = "IDENT        'a'\n" ++ "ILLEGAL      \x22'\x22\n" ++ "ILLEGAL      '\\\\'\n" ++
        "ILLEGAL      '\\x07'\n" ∧
      readTokenDump console.output = some [⟨.ident, "a"⟩, ⟨.illegal, "\x27"⟩, ⟨.illegal, "\x5c"⟩,
        ⟨.illegal, "\x07"⟩] ∧
      console.warnings =
        [⟨.warning, "<expr>: warning: 3 illegal token(s), first ILLEGAL(\x22'\x22)"⟩] ∧
      console.output = console'.output := by
  have hsource : (Input.expr "a\x27\x5c\x07").Holds (fun _ => .error .noSuchFile)
    ⟨"<expr>", "a\x27\x5c\x07"⟩ := .expr
  have hspaced : (Input.expr "a \x27\n\x5c \x07").Holds (fun _ => .error .noSuchFile)
    ⟨"<expr>", "a \x27\n\x5c \x07"⟩ := .expr
  have hlisted : listedTokens false "a\x27\x5c\x07" = [⟨.ident, "a"⟩, ⟨.illegal, "\x27"⟩,
    ⟨.illegal, "\x5c"⟩, ⟨.illegal, "\x07"⟩] := by cbv
  have htokens : tokenize "a\x27\x5c\x07" = tokenize "a \x27\n\x5c \x07" := by cbv
  obtain ⟨console, hrun, hlines, -, hread, hwarnings, hsame⟩ :=
    token_dump_tells_tokens hsource false "" ⟨.ofVerbosity false 1, fun _ => ""⟩ {}
  obtain ⟨console', hrun', -⟩ :=
    token_dump_tells_tokens hspaced false "" ⟨.ofVerbosity false 1, fun _ => ""⟩ {}
  rw [hlisted] at hlines hread hwarnings
  refine ⟨console, console', hrun, hrun', ?_, hread, hwarnings.trans (by cbv),
    (hsame hspaced _ _ _ console' hrun').mpr htokens⟩
  rw [← String.toList_inj, ← Text.flatten_lines console.output.toList, hlines]
  cbv

end Command

end Monkey
