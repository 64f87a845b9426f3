import Mathlib
import Monkey.Proofs.Trace

/-!
# The settings of the log

The settings of the log decide which lines of it are shown and how, and nothing else. Two runs that differ
in them alone end alike, with the same result and the same output, whether they succeed or fail. If lines
have the same format, then the run with the lower level shows a part of what the other one shows, in the
same order.

On a command line these settings are options of the program. Wherever such an option is put in front, the
rest of the line is understood as before.
-/

namespace Monkey

variable {ε α : Type}

/-- Two runs end alike: with the same result and the same output. -/
structure EndAlike (first second : Except ε α × Console) : Prop where
  result : first.1 = second.1
  output : first.2.output = second.2.output

/-- Times aside, the lines of the one log are among those of the other, in the same order. -/
def Console.ShowsPartOf (first second : Console) : Prop :=
  (first.lines.map LogLine.untimed).Sublist (second.lines.map LogLine.untimed)

/-- From the same console, and with the same prompt, the runs of an action end alike whatever the log is to
show. In the same format, a lower level shows a part of what a higher one shows. -/
def Action.IgnoresLog (action : Action ε α) : Prop :=
  ∀ (first second : Surroundings) (console : Console), first.settings.prompt = second.settings.prompt →
    EndAlike (action.run first console) (action.run second console) ∧
      (first.settings.richFormat = second.settings.richFormat →
        first.settings.level.rank ≤ second.settings.level.rank →
          (action.run first console).2.ShowsPartOf (action.run second console).2)

/-- What an entry says without the time. -/
def LogEntry.untimed (richFormat : Bool) (entry : LogEntry) : String :=
  (if richFormat then "[" ++ entry.level.name ++ "] " else "") ++ entry.message

/-- The lines that entries add are those of the shown ones, times aside. -/
theorem Console.map_untimed_noteAll (around : Surroundings) (entries : List LogEntry) (console : Console) :
    (console.noteAll around entries).lines.map LogLine.untimed =
      console.lines.map LogLine.untimed ++
        (entries.filter (LogEntry.isShown around.settings)).map
          (LogEntry.untimed around.settings.richFormat) := by
  refine map_lines_noteAll (fun number entry => ?_) entries console
  cases hrich : around.settings.richFormat <;>
    simp [LogLine.untimed, LogLine.ofEntry, LogEntry.untimed, hrich]

/-- A lower level shows a part of the same entries. -/
theorem Console.showsPartOf_noteAll {first second : Surroundings}
    (hformat : first.settings.richFormat = second.settings.richFormat)
    (hlevel : first.settings.level.rank ≤ second.settings.level.rank) (entries : List LogEntry)
    (console : Console) : (console.noteAll first entries).ShowsPartOf (console.noteAll second entries) := by
  rw [ShowsPartOf, map_untimed_noteAll, map_untimed_noteAll, hformat]
  have hshown : (entries.filter (LogEntry.isShown first.settings)).Sublist
      (entries.filter (LogEntry.isShown second.settings)) :=
    List.monotone_filter_right entries fun _ => isShown_mono hlevel
  exact (hshown.map _).append_left _

/-- An action ignores the settings of the log if what it leaves depends on the prompt alone. -/
theorem Action.ignoresLog_of_leaves {action : Action ε α}
    (h : ∀ prompt, ∃ result output entries, action.Leaves prompt result output entries) :
    action.IgnoresLog := by
  intro first second console hprompt
  obtain ⟨result, output, entries, hleaves⟩ := h first.settings.prompt
  rw [hleaves first console rfl, hleaves second console hprompt.symm]
  refine ⟨⟨rfl, ?_⟩, fun hformat hlevel => Console.showsPartOf_noteAll hformat hlevel entries console⟩
  simp only [Console.write, Console.output_noteAll]

/-- Answering a line ignores the settings of the log. -/
theorem answerLine_ignoresLog (line : String) (limits : Limits) : (answerLine line limits).IgnoresLog := by
  refine Action.ignoresLog_of_leaves fun prompt => ?_
  cases hanswer : evalLine line limits with
  | error error => exact ⟨_, _, _, answerLine_leaves_error hanswer⟩
  | ok reply => exact ⟨_, _, _, answerLine_leaves hanswer⟩

/-- A session ignores the settings of the log. -/
theorem converse_ignoresLog (input : List Char) (limits : Limits) : (converse input limits).IgnoresLog := by
  refine Action.ignoresLog_of_leaves fun prompt => ?_
  cases hanswers : answers input limits with
  | error error =>
    obtain ⟨output, entries, hleaves⟩ := converse_leaves_error prompt hanswers
    exact ⟨_, output, entries, hleaves⟩
  | ok replies => exact ⟨_, _, _, converse_leaves prompt hanswers⟩

namespace Command

/-- A task ignores the settings of the log. -/
theorem carryOut_ignoresLog (files : FileReader) (stdin : String) (task : Task) (limits : Limits) :
    (carryOut files stdin task limits).IgnoresLog := by
  refine Action.ignoresLog_of_leaves fun prompt => ?_
  have hends := carryOut_endsAs files prompt stdin task limits
  cases htask : runTask files prompt stdin task limits with
  | error abort =>
    rw [htask] at hends
    obtain ⟨output, entries, hleaves⟩ := hends
    exact ⟨_, output, entries, hleaves⟩
  | ok finish =>
    rw [htask] at hends
    exact ⟨_, _, _, hends⟩

/-! ## Options in front of a command line -/

/-- What was read before is kept in front of what is read. -/
def Scanned.after (uses : List Use) (scanned : Scanned) : Scanned :=
  { scanned with uses := uses ++ scanned.uses }

@[simp]
theorem Scanned.extras_after (uses : List Use) (scanned : Scanned) :
    (scanned.after uses).extras = scanned.extras := rfl

theorem apply_after (manual : Manual) (uses before : List Use) (scanned : Scanned) :
    apply manual (scanned.after before) uses = (apply manual scanned uses).map (Scanned.after before) := by
  unfold apply
  split
  · rfl
  · simp [Except.map, Scanned.after]

/-- What was read before has no influence on what is read. -/
theorem scanProgram_after (manual : Manual) (before : List Use) :
    ∀ (words : List (String × Word)) (scanned : Scanned),
      scanProgram manual (scanned.after before) words =
        (scanProgram manual scanned words).map fun found => (found.1.after before, found.2)
  | [], scanned => rfl
  | (_, .plain text) :: rest, scanned => rfl
  | (raw, .separator) :: rest, scanned => by
    unfold scanProgram
    split <;> rfl
  | (_, .unknown text) :: rest, scanned => by
    rw [scanProgram, scanProgram]
    exact scanProgram_after manual before rest { scanned with extras := scanned.extras ++ [text] }
  | (_, .option spec long attached) :: rest, scanned => by
    rw [scanProgram, scanProgram]
    cases expandFor manual spec long attached with
    | error stop => rfl
    | ok expansion =>
      simp only [Except.bind, bind]
      cases expansion.pending with
      | none =>
        simp only [apply_after]
        cases apply manual scanned expansion.uses with
        | error stop => rfl
        | ok scanned => exact scanProgram_after manual before rest scanned
      | some spec =>
        match rest with
        | [] => rfl
        | (_, .plain value) :: rest' =>
          simp only [apply_after]
          cases apply manual scanned (expansion.uses ++ [(spec.switch, some value)]) with
          | error stop => rfl
          | ok scanned => exact scanProgram_after manual before rest' scanned
        | (_, .separator) :: _ | (_, .unknown _) :: _ | (_, .option ..) :: _ => rfl

/-- An option that takes no value is used before what comes after it, and changes nothing else. -/
theorem scanProgram_flag {manual : Manual} {spec : OptionSpec} (hvalue : spec.takesValue = false)
    (hhelp : spec.switch ≠ .help) (word : String) (long : Bool) (words : List (String × Word)) :
    scanProgram manual {} ((word, .option spec long none) :: words) =
      (scanProgram manual {} words).map fun found =>
        (found.1.after [(spec.switch, none)], found.2) := by
  rw [← scanProgram_after, scanProgram]
  simp [expandFor, expand, expandCluster, hvalue, apply, hhelp, Except.bind, bind, Except.mapError,
    Scanned.after]

/-- What each word of a line is does not depend on the words after it, up to two hyphens. -/
theorem classifyFor_cons {manual : Manual} {word : String} {meaning : Word} (hword : word ≠ "--")
    (h : classify manual.options word = .ok meaning) (words : List String) :
    classifyFor manual (word :: words) = (classifyFor manual words).map ((word, meaning) :: ·) := by
  unfold classifyFor
  rw [classifyAll]
  · rw [h]
    simp only [Except.bind, bind]
    cases classifyAll manual.options words <;> rfl
  · exact hword

/-- What is asked for by one more use of an option of the program. -/
def Invocation.withFlag (switch : Switch) (invocation : Invocation) : Invocation :=
  { invocation with
    verbosity := invocation.verbosity + if switch = .verbose then 1 else 0
    richFormat := decide (switch = .log) || invocation.richFormat }

/-- An option of the program that takes no value changes nothing else when it is put in front. -/
theorem ofArguments_flag (word : String) {spec : OptionSpec} {long : Bool} (hword : word ≠ "--")
    (h : classify mainManual.options word = .ok (.option spec long none))
    (hvalue : spec.takesValue = false) (hhelp : spec.switch ≠ .help) (arguments : List String) :
    Invocation.ofArguments (word :: arguments) =
      (Invocation.ofArguments arguments).map (Invocation.withFlag spec.switch) := by
  unfold Invocation.ofArguments
  rw [classifyFor_cons hword h]
  cases classifyFor mainManual arguments with
  | error stop => rfl
  | ok words =>
    simp only [Except.map, Except.bind, bind, scanProgram_flag hvalue hhelp]
    cases scanProgram mainManual {} words with
    | error stop => rfl
    | ok found =>
      obtain ⟨program, _ | ⟨name, rest⟩⟩ := found
      · rfl
      simp only
      cases verbWords.lookup name with
      | none => rfl
      | some verb =>
        simp only
        cases classifyFor verb.manual rest with
        | error stop => rfl
        | ok words =>
          simp only
          cases scanCommand verb.manual {} verb.slot words with
          | error stop => rfl
          | ok command =>
            simp only [Scanned.extras_after]
            cases program.extras ++ command.extras with
            | cons word extras => rfl
            | nil =>
              simp [Scanned.after, Scanned.uses?, Invocation.withFlag, List.countP_cons, Nat.add_comm]

/-- The options of the program for a number of requests for more output and for rich format. -/
def logWords (verbosity : Nat) (richFormat : Bool) : List String :=
  List.replicate verbosity "-v" ++ if richFormat then ["-l"] else []

/-- What is asked for by options for the log in front of a command line. -/
def Invocation.withLog (verbosity : Nat) (richFormat : Bool) (invocation : Invocation) : Invocation :=
  { invocation with
    verbosity := invocation.verbosity + verbosity
    richFormat := richFormat || invocation.richFormat }

/-- Options for the log change nothing else when they are put in front of a command line. -/
theorem ofArguments_logWords (verbosity : Nat) (richFormat : Bool) (arguments : List String) :
    Invocation.ofArguments (logWords verbosity richFormat ++ arguments) =
      (Invocation.ofArguments arguments).map (Invocation.withLog verbosity richFormat) := by
  have hlog := fun words => ofArguments_flag "-l" (by simp) rfl rfl (by simp) words
  have hverbose := fun words => ofArguments_flag "-v" (by simp) rfl rfl (by simp) words
  induction verbosity with
  | zero =>
    cases richFormat with
    | false => exact (congrFun Except.map_id _).symm
    | true => exact hlog arguments
  | succ verbosity ih =>
    change Invocation.ofArguments ("-v" :: (logWords verbosity richFormat ++ arguments)) = _
    rw [hverbose, ih]
    cases Invocation.ofArguments arguments <;> rfl

/-- More requests for output do not lower the level. -/
theorem rank_ofVerbosity_mono {first second : Int} (h : first ≤ second) (rich rich' : Bool) :
    (Settings.ofVerbosity rich first).level.rank ≤ (Settings.ofVerbosity rich' second).level.rank := by
  simp only [Settings.ofVerbosity]
  split_ifs <;> first | omega | decide

/-- What a report says apart from the log. -/
def Report.answer (report : Report) : Nat × String := (report.status, report.output)

/-- Runs that end alike are reported alike. -/
theorem answer_reportOf_ok {first second : Except Abort Nat × Console} (h : EndAlike first second) :
    (reportOf (.ok first)).map Report.answer = (reportOf (.ok second)).map Report.answer := by
  obtain ⟨result, console⟩ := first
  obtain ⟨result', console'⟩ := second
  obtain ⟨hresult, houtput⟩ := h
  simp only at hresult houtput
  subst hresult
  cases result <;> simp [reportOf, Except.map, Report.answer, houtput]

/-- Command lines that differ in the options for the log alone are refused alike or end alike. -/
theorem execute_ignoresLog (files : FileReader) (stdin : String) (arguments : List String)
    (verbosity verbosity' : Nat) (rich rich' : Bool) (clock clock' : Nat → String) (limits : Limits) :
    (∃ stop, execute files stdin clock (logWords verbosity rich ++ arguments) limits = .error stop ∧
      execute files stdin clock' (logWords verbosity' rich' ++ arguments) limits = .error stop) ∨
    ∃ ended ended', execute files stdin clock (logWords verbosity rich ++ arguments) limits = .ok ended ∧
      execute files stdin clock' (logWords verbosity' rich' ++ arguments) limits = .ok ended' ∧
      EndAlike ended ended' ∧
      (rich = rich' → verbosity ≤ verbosity' → ended.2.ShowsPartOf ended'.2) := by
  simp only [execute, ofArguments_logWords]
  cases Invocation.ofArguments arguments with
  | error stop => exact .inl ⟨stop, rfl, rfl⟩
  | ok invocation =>
    obtain ⟨halike, hpart⟩ := carryOut_ignoresLog files stdin invocation.task limits
      ⟨(invocation.withLog verbosity rich).settings, clock⟩
      ⟨(invocation.withLog verbosity' rich').settings, clock'⟩ {} rfl
    refine .inr ⟨_, _, rfl, rfl, halike, fun hrich hverbosity => hpart ?_ ?_⟩
    · exact congrArg (· || invocation.richFormat) hrich
    · refine rank_ofVerbosity_mono ?_ _ _
      simp only [Invocation.withLog]
      omega

/-- The settings of the log touch no result. Every task, every line and every session ignores them, and
command lines that differ in them alone are refused alike or end alike, also in their reports. -/
theorem results_ignore_log (files : FileReader) (stdin : String) (limits : Limits) :
    (∀ task, (carryOut files stdin task limits).IgnoresLog) ∧
    (∀ line, (answerLine line limits).IgnoresLog) ∧
    (∀ input, (converse input limits).IgnoresLog) ∧
    ∀ (arguments : List String) (verbosity verbosity' : Nat) (rich rich' : Bool),
      (∀ clock clock' : Nat → String,
        (∃ stop, execute files stdin clock (logWords verbosity rich ++ arguments) limits = .error stop ∧
          execute files stdin clock' (logWords verbosity' rich' ++ arguments) limits = .error stop) ∨
        ∃ ended ended', execute files stdin clock (logWords verbosity rich ++ arguments) limits = .ok ended ∧
          execute files stdin clock' (logWords verbosity' rich' ++ arguments) limits = .ok ended' ∧
          EndAlike ended ended' ∧
          (rich = rich' → verbosity ≤ verbosity' → ended.2.ShowsPartOf ended'.2)) ∧
      ∀ time time' : String,
        (run files stdin time (logWords verbosity rich ++ arguments) limits).map Report.answer =
          (run files stdin time' (logWords verbosity' rich' ++ arguments) limits).map Report.answer := by
  refine ⟨(carryOut_ignoresLog files stdin · limits), (answerLine_ignoresLog · limits),
    (converse_ignoresLog · limits), ?_⟩
  intro arguments verbosity verbosity' rich rich'
  refine ⟨(execute_ignoresLog files stdin arguments verbosity verbosity' rich rich' · · limits),
    fun time time' => ?_⟩
  rw [run_eq_reportOf_execute, run_eq_reportOf_execute]
  rcases execute_ignoresLog files stdin arguments verbosity verbosity' rich rich' (fun _ => time)
    (fun _ => time') limits with ⟨stop, hfirst, hsecond⟩ | ⟨ended, ended', hfirst, hsecond, halike, -⟩
  · rw [hfirst, hsecond]
  · rw [hfirst, hsecond]
    exact answer_reportOf_ok halike

/-- Surroundings without a clock, for a number of requests for more output. -/
def plainSurroundings (verbosity : Int) : Surroundings := ⟨.ofVerbosity false verbosity, fun _ => ""⟩

set_option maxRecDepth 20000 in
/-- Printing the canonical form of a name shows no line, and two lines if more output is requested. -/
theorem fmt_shows_part_of_more_output :
    let task := carryOut (fun _ => .error .noSuchFile) "" (.fmt (.expr "a"))
    task.run (plainSurroundings 0) {} = (.ok 0, ⟨"a\n", []⟩) ∧
      task.run (plainSurroundings 1) {} = (.ok 0, ⟨"a\n", [⟨none, .stage "Parsing" (some "<expr>")⟩,
        ⟨none, ⟨.info, "Parsed 1 statement(s) from '<expr>'"⟩⟩]⟩) ∧
      (task.run (plainSurroundings 0) {}).2.ShowsPartOf (task.run (plainSurroundings 1) {}).2 := by
  refine ⟨by cbv, by cbv, ?_⟩
  have hignores := (results_ignore_log (fun _ => .error .noSuchFile) "" {}).1 (.fmt (.expr "a"))
  exact (hignores (plainSurroundings 0) (plainSurroundings 1) {} rfl).2 rfl (by decide)

end Command

end Monkey
