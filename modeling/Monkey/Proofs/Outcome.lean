import Monkey.Command.Run
import Monkey.Proofs.Encoding
import Monkey.Proofs.LongNumber

/-!
# How commands end

A command that reads a program text ends with status 0 and its complete output, or with status 1, no
output and a message, which is shown whatever the settings are. There are three things that it does not
report: a file name with a NUL in it, a file that encodes no text, and, where the text is parsed, a parse
that stops at a number of too many digits. Each of them ends the run without a status, and nothing else
does.
-/

namespace Monkey.Command

open Grammar

/-- The input that a task reads. A session reads none. -/
def Task.input? : Task → Option Input
  | .repl => none
  | .tok _ input | .ast input | .fmt input => some input

/-- Whether a task parses the text that it reads. -/
def Task.Parses : Task → Prop
  | .repl | .tok .. => False
  | .ast _ | .fmt _ => True

/-- The text of an input is given with it, or it is what a file encodes, with its line ends unified. -/
inductive Input.Holds (files : FileReader) : Input → Source → Prop
  | expr {text : String} : Holds files (.expr text) ⟨"<expr>", text⟩
  | file {name : String} {text : List Char} :
      '\x00' ∉ name.toList → files (.ofName name) = .ok (Text.Utf8.encode text) →
      Holds files (.file name) ⟨(Path.ofName name).text, String.ofList (Text.normalizeNewlines text)⟩

/-- There is no text, and a message says why. -/
inductive Input.Lacks (files : FileReader) : Input → String → Prop
  | missing : Lacks files .missing "error: [MKC-0010] no input: pass a file or -e SOURCE"
  | refused {name : String} {fault : SystemFault} :
      '\x00' ∉ name.toList → files (.ofName name) = .error fault →
      Lacks files (.file name) ("error: [MKC-0020] cannot read " ++ (Path.ofName name).text ++ ": " ++
        fault.message (.ofName name))

/-- What a task prints of a text: a line for each token, the dump of the tree or its canonical form. -/
inductive Task.Prints (limits : Limits) (source : Source) : Task → String → Prop
  | tok {includeEof : Bool} {input : Input} :
      Prints limits source (.tok includeEof input) (String.join (((tokenize source.text).filter fun token =>
        includeEof || decide (token.kind ≠ .eof)).map tokenLine))
  | ast {input : Input} {program : Node} :
      parse source.text limits.levels = .ok program → program.depth ≤ limits.depth →
      Prints limits source (.ast input) ("\n".intercalate (program.dump 0) ++ "\n")
  | fmt {input : Input} {program : Node} :
      parse source.text limits.levels = .ok program → program.depth ≤ limits.depth →
      Prints limits source (.fmt input) (program.canonical ++ "\n")

/-- A task prints nothing of a text, and a message says why. -/
inductive Task.Reports (limits : Limits) (source : Source) (task : Task) : String → Prop
  | invalid {error : SyntaxError} :
      task.Parses → parse source.text limits.levels = .error (.invalid error) →
      Reports limits source task (source.name ++ ": error: " ++ error.message)
  | tooDeep {program : Node} :
      task.Parses → parse source.text limits.levels = .ok program → limits.depth < program.depth →
      Reports limits source task "error: [MKC-0030] program nested too deeply to print"

/-- There is no text, and nothing says why: the name of a file has a NUL in it, or its bytes encode no
text. -/
inductive Input.Escapes (files : FileReader) : Input → Prop
  | nul {name : String} : '\x00' ∈ name.toList → Escapes files (.file name)
  | undecodable {name : String} {bytes : List UInt8} :
      files (.ofName name) = .ok bytes → (∀ text, Text.Utf8.encode text ≠ bytes) →
      Escapes files (.file name)

/-- What no message reports: an input without a text, or a number that the parse of it stops at. -/
inductive Task.Escapes (limits : Limits) (files : FileReader) (task : Task) (input : Input) : Prop
  | input : input.Escapes files → Escapes limits files task input
  | longNumber {source : Source} :
      input.Holds files source → task.Parses →
      StopsAtLongNumber limits.levels (tokens source.text.toList) → Escapes limits files task input

/-- A task has ended with output, or without any and with a message as the last entry of its log. -/
inductive Finish.Settles (prints reports : String → Prop) : Finish → Prop
  | printed {output : String} {log : List LogEntry} :
      prints output → Settles prints reports ⟨0, output, log⟩
  | reported {message : String} {log : List LogEntry} :
      reports message → Settles prints reports ⟨1, "", log ++ [⟨.error, message⟩]⟩

variable {limits : Limits} {files : FileReader} {stdin time prompt : String} {task : Task} {input : Input}
  {source : Source}

/-! ## The input -/

theorem readInput_of_nul {name : String} (h : '\x00' ∈ name.toList) :
    readInput files (.file name) = .error .nulInFileName := by
  simp [readInput, h]

theorem readInput_of_refused {name : String} {fault : SystemFault} (h : '\x00' ∉ name.toList)
    (hfile : files (.ofName name) = .error fault) :
    readInput files (.file name) = .ok (.error ⟨.error, "error: [MKC-0020] cannot read " ++
      (Path.ofName name).text ++ ": " ++ fault.message (.ofName name)⟩) := by
  simp [readInput, h, hfile]

theorem readInput_of_text {name : String} {text : List Char} (h : '\x00' ∉ name.toList)
    (hfile : files (.ofName name) = .ok (Text.Utf8.encode text)) :
    readInput files (.file name) =
      .ok (.ok ⟨(Path.ofName name).text, String.ofList (Text.normalizeNewlines text)⟩) := by
  simp [readInput, h, hfile, Text.Utf8.decode_encode]

theorem readInput_of_undecodable {name : String} {bytes : List UInt8} {error : Text.Utf8.DecodeError}
    (h : '\x00' ∉ name.toList) (hfile : files (.ofName name) = .ok bytes)
    (hdecode : Text.Utf8.decode bytes = .error error) :
    readInput files (.file name) = .error (.undecodable error) := by
  simp [readInput, h, hfile, hdecode]

/-- A text that is there is read. -/
theorem Input.Holds.readInput_eq (h : input.Holds files source) :
    readInput files input = .ok (.ok source) := by
  cases h with
  | expr => rfl
  | file hnul hfile => exact readInput_of_text hnul hfile

/-- A message says why there is no text. -/
theorem Input.Lacks.readInput_eq {message : String} (h : input.Lacks files message) :
    readInput files input = .ok (.error ⟨.error, message⟩) := by
  cases h with
  | missing => rfl
  | refused hnul hfile => exact readInput_of_refused hnul hfile

/-- What escapes is no answer about the input. -/
theorem Input.Escapes.readInput_eq (h : input.Escapes files) :
    ∃ abort, readInput files input = .error abort := by
  cases h with
  | nul hnul => exact ⟨_, readInput_of_nul hnul⟩
  | @undecodable name bytes hfile hbytes =>
    by_cases hnul : '\x00' ∈ name.toList
    · exact ⟨_, readInput_of_nul hnul⟩
    · obtain ⟨error, hdecode⟩ := Text.Utf8.exists_decode_eq_error_iff.mpr hbytes
      exact ⟨_, readInput_of_undecodable hnul hfile hdecode⟩

/-- An input holds a text, a message says why it does not, or it escapes. -/
theorem Input.holds_or_lacks_or_escapes (files : FileReader) (input : Input) :
    (∃ source, input.Holds files source) ∨ (∃ message, input.Lacks files message) ∨
      input.Escapes files := by
  cases input with
  | expr text => exact .inl ⟨_, .expr⟩
  | missing => exact .inr (.inl ⟨_, .missing⟩)
  | file name =>
    by_cases hnul : '\x00' ∈ name.toList
    · exact .inr (.inr (.nul hnul))
    cases hfile : files (.ofName name) with
    | error fault => exact .inr (.inl ⟨_, .refused hnul hfile⟩)
    | ok bytes =>
      by_cases hbytes : ∃ text, Text.Utf8.encode text = bytes
      · obtain ⟨text, rfl⟩ := hbytes
        exact .inl ⟨_, .file hnul hfile⟩
      · exact .inr (.inr (.undecodable hfile fun text htext => hbytes ⟨text, htext⟩))

/-! ## Tasks -/

/-- A text is parsed to a program, or there is a syntax error, unless the parse stops at a number of too
many digits. -/
theorem parse_eq_ok_or_invalid (text : String) {levels : Nat}
    (h : ¬ StopsAtLongNumber levels (tokens text.toList)) :
    (∃ program, parse text levels = .ok program) ∨ ∃ error, parse text levels = .error (.invalid error) := by
  rw [← unreadable_iff_stopsAtLongNumber spelled_of_mem_tokens] at h
  rw [parse]
  cases hparse : parseTokens .standard levels (tokens text.toList) with
  | ok program => exact .inl ⟨program, rfl⟩
  | error failure =>
    cases failure with
    | invalid error => exact .inr ⟨error, rfl⟩
    | unreadable error => exact absurd ⟨error, hparse⟩ h

/-- A parse that stops at a number of too many digits ends the printing of a tree. -/
theorem printTree_of_stops {render : Node → Option String} {levels : Nat}
    (h : StopsAtLongNumber levels (tokens source.text.toList)) :
    ∃ abort, printTree render source levels = .error abort := by
  obtain ⟨error, herror⟩ := (unreadable_iff_stopsAtLongNumber spelled_of_mem_tokens).mpr h
  exact ⟨.unreadable error, by rw [printTree, parse, herror]⟩

/-- Any other parse settles it: the tree is printed, or a message says why not. -/
theorem printTree_settles {render : Node → Option String} {print : Node → String}
    (hrender : ∀ program, render program =
      if program.depth ≤ limits.depth then some (print program) else none)
    (h : ¬ StopsAtLongNumber limits.levels (tokens source.text.toList)) (htask : task.Parses) :
    ∃ finish, printTree render source limits.levels = .ok finish ∧ finish.Settles
      (fun output => ∃ program, parse source.text limits.levels = .ok program ∧
        program.depth ≤ limits.depth ∧ output = print program ++ "\n") (task.Reports limits source) := by
  unfold printTree
  rcases parse_eq_ok_or_invalid source.text h with ⟨program, hparse⟩ | ⟨error, hparse⟩
  · by_cases hdepth : program.depth ≤ limits.depth
    · simp only [hparse, hrender, if_pos hdepth]
      exact ⟨_, rfl, .printed ⟨program, rfl, hdepth, rfl⟩⟩
    · simp only [hparse, hrender, if_neg hdepth]
      exact ⟨_, rfl, @Finish.Settles.reported _ _ _ [_, _] (.tooDeep htask hparse (Nat.not_le.mp hdepth))⟩
  · simp only [hparse]
    exact ⟨_, rfl, @Finish.Settles.reported _ _ _ [_] (.invalid htask hparse)⟩

/-- Weaker conditions on the output and the message hold as well. -/
theorem Finish.Settles.mono {finish : Finish} {prints reports prints' reports' : String → Prop}
    (h : finish.Settles prints reports) (hprints : ∀ output, prints output → prints' output)
    (hreports : ∀ message, reports message → reports' message) : finish.Settles prints' reports' := by
  cases h with
  | printed houtput => exact .printed (hprints _ houtput)
  | reported hmessage => exact .reported (hreports _ hmessage)

/-- What is done with an input that holds a text is done with the text. -/
theorem withInput_of_holds {act : Source → Except Abort Finish} (h : input.Holds files source) :
    withInput files input act = act source := by
  rw [withInput, h.readInput_eq]
  rfl

/-- Nothing but a message comes of an input that has no text. -/
theorem withInput_of_lacks {act : Source → Except Abort Finish} {message : String}
    (h : input.Lacks files message) : withInput files input act = .ok ⟨1, "", [⟨.error, message⟩]⟩ := by
  rw [withInput, h.readInput_eq]
  rfl

theorem withInput_of_escapes {act : Source → Except Abort Finish} (h : input.Escapes files) :
    ∃ abort, withInput files input act = .error abort := by
  obtain ⟨abort, hread⟩ := h.readInput_eq
  exact ⟨abort, by rw [withInput, hread]; rfl⟩

/-- A task does something with its input. -/
theorem exists_act (hinput : task.input? = some input) :
    ∃ act, (∀ files prompt stdin, runTask files prompt stdin task limits = withInput files input act) ∧
      (∀ source, (task.Parses → ¬ StopsAtLongNumber limits.levels (tokens source.text.toList)) →
        ∃ finish, act source = .ok finish ∧
          finish.Settles (task.Prints limits source) (task.Reports limits source)) ∧
      ∀ source, task.Parses → StopsAtLongNumber limits.levels (tokens source.text.toList) →
        ∃ abort, act source = .error abort := by
  cases task with
  | repl => cases hinput
  | tok includeEof =>
    cases hinput
    exact ⟨_, fun _ _ _ => rfl, fun source _ => ⟨_, rfl, .printed .tok⟩, fun _ hparses => hparses.elim⟩
  | ast =>
    cases hinput
    refine ⟨_, fun _ _ _ => rfl, fun source h => ?_,
      fun source _ hstops => printTree_of_stops hstops⟩
    have hparses : (Task.ast input).Parses := trivial
    obtain ⟨finish, hrun, hsettles⟩ := printTree_settles (fun _ => rfl) (h hparses) hparses
    refine ⟨finish, hrun, hsettles.mono ?_ fun _ => id⟩
    rintro output ⟨program, hparse, hdepth, rfl⟩
    exact .ast hparse hdepth
  | fmt =>
    cases hinput
    refine ⟨_, fun _ _ _ => rfl, fun source h => ?_,
      fun source _ hstops => printTree_of_stops hstops⟩
    have hparses : (Task.fmt input).Parses := trivial
    obtain ⟨finish, hrun, hsettles⟩ := printTree_settles (fun _ => rfl) (h hparses) hparses
    refine ⟨finish, hrun, hsettles.mono ?_ fun _ => id⟩
    rintro output ⟨program, hparse, hdepth, rfl⟩
    exact .fmt hparse hdepth

/-- What escapes ends a task without a finish. -/
theorem runTask_of_escapes (hinput : task.input? = some input) (h : task.Escapes limits files input) :
    ∃ abort, runTask files prompt stdin task limits = .error abort := by
  obtain ⟨act, hrun, -, hstops⟩ := exists_act hinput
  rw [hrun]
  cases h with
  | input hescapes => exact withInput_of_escapes hescapes
  | longNumber hsource hparses hlong =>
    rw [withInput_of_holds hsource]
    exact hstops _ hparses hlong

/-- Otherwise a task ends with what it prints of its text, or with a message. -/
theorem runTask_settles (hinput : task.input? = some input) (h : ¬ task.Escapes limits files input) :
    ∃ finish, runTask files prompt stdin task limits = .ok finish ∧ finish.Settles
      (fun output => ∃ source, input.Holds files source ∧ task.Prints limits source output)
      (fun message => input.Lacks files message ∨
        ∃ source, input.Holds files source ∧ task.Reports limits source message) := by
  obtain ⟨act, hrun, hsettles, -⟩ := exists_act hinput
  rw [hrun]
  rcases input.holds_or_lacks_or_escapes files with ⟨source, hsource⟩ | ⟨message, hmessage⟩ | hescapes
  · obtain ⟨finish, hact, hfinish⟩ := hsettles source fun hparses hlong =>
      h (.longNumber hsource hparses hlong)
    rw [withInput_of_holds hsource]
    exact ⟨finish, hact, hfinish.mono (fun _ houtput => ⟨source, hsource, houtput⟩)
      fun _ hreport => .inr ⟨source, hsource, hreport⟩⟩
  · rw [withInput_of_lacks hmessage]
    exact ⟨_, rfl, @Finish.Settles.reported _ _ _ [] (.inl hmessage)⟩
  · exact absurd (.input hescapes) h

/-! ## Runs -/

/-- The log of a first and a second part is shown one after the other. -/
theorem renderLog_append (settings : Settings) (time : String) (first second : List LogEntry) :
    renderLog settings time (first ++ second) =
      renderLog settings time first ++ renderLog settings time second := by
  rw [renderLog, List.filter_append, List.map_append, String.join_append]
  rfl

/-- An error is shown whatever a command line asks for. -/
theorem renderLog_error (invocation : Invocation) (time message : String) :
    renderLog invocation.settings time [⟨.error, message⟩] =
      LogEntry.line invocation.settings time ⟨.error, message⟩ := by
  have hshown : (⟨.error, message⟩ : LogEntry).isShown invocation.settings = true := by
    unfold Invocation.settings Settings.ofVerbosity LogEntry.isShown
    split <;> [rfl; split <;> rfl]
  simp [renderLog, hshown]

/-- A run has ended with status 0 and its output, or with status 1, no output, and a message as the last
line of its error output. -/
structure Report.Settles (report : Report) (settings : Settings) (time : String)
    (prints reports : String → Prop) : Prop where
  status : report.status = 0 ∨ report.status = 1
  printed : report.status = 0 → prints report.output
  reported : report.status = 1 → report.output = "" ∧ ∃ message before, reports message ∧
    report.errorOutput = before ++ LogEntry.line settings time ⟨.error, message⟩

theorem Finish.Settles.report {finish : Finish} {prints reports : String → Prop}
    (h : finish.Settles prints reports) (invocation : Invocation) (time : String) :
    Report.Settles ⟨finish.status, finish.output, renderLog invocation.settings time finish.log⟩
      invocation.settings time prints reports := by
  cases h with
  | printed houtput => exact ⟨.inl rfl, fun _ => houtput, fun hone => absurd hone Nat.zero_ne_one⟩
  | @reported message log hmessage =>
    refine ⟨.inr rfl, fun hzero => absurd hzero Nat.one_ne_zero,
      fun _ => ⟨rfl, message, renderLog invocation.settings time log, hmessage, ?_⟩⟩
    rw [renderLog_append, renderLog_error]

/-- What escapes ends a run without a report. -/
theorem run_of_escapes {arguments : List String} {invocation : Invocation}
    (h : Invocation.ofArguments arguments = .ok invocation)
    (hinput : invocation.task.input? = some input) (hescapes : invocation.task.Escapes limits files input)
    (stdin time : String) : ∃ abort, run files stdin time arguments limits = .error abort := by
  obtain ⟨abort, hrun⟩ := runTask_of_escapes hinput hescapes
  unfold run
  simp only [h]
  exact ⟨abort, by rw [hrun]; rfl⟩

/-- A run of a command that reads a program text ends with a report exactly if nothing escapes. It then
has the status 0 and all that is printed of the text, or the status 1, no output and a message. -/
theorem run_settles {arguments : List String} {invocation : Invocation}
    (h : Invocation.ofArguments arguments = .ok invocation)
    (hinput : invocation.task.input? = some input) (files : FileReader) (stdin time : String)
    (limits : Limits) :
    ((∃ report, run files stdin time arguments limits = .ok report) ↔
      ¬ invocation.task.Escapes limits files input) ∧
    ∀ report, run files stdin time arguments limits = .ok report →
      report.Settles invocation.settings time
        (fun output => ∃ source, input.Holds files source ∧ invocation.task.Prints limits source output)
        (fun message => input.Lacks files message ∨
          ∃ source, input.Holds files source ∧ invocation.task.Reports limits source message) := by
  by_cases hescapes : invocation.task.Escapes limits files input
  · -- There is no report, so nothing is said of one.
    obtain ⟨abort, hrun⟩ := run_of_escapes h hinput hescapes stdin time
    rw [hrun]
    refine ⟨iff_of_false ?_ (not_not_intro hescapes), ?_⟩
    · rintro ⟨_, ⟨⟩⟩
    · rintro _ ⟨⟩
  · obtain ⟨finish, hrun, hfinish⟩ := runTask_settles hinput hescapes
    unfold run
    simp only [h]
    rw [hrun]
    refine ⟨iff_of_true ⟨_, rfl⟩ hescapes, ?_⟩
    rintro report ⟨⟩
    exact hfinish.report invocation time

/-- The canonical form of a file is asked for. -/
theorem ofArguments_fmt_file :
    Invocation.ofArguments ["fmt", "a.mk"] = .ok ⟨0, false, .fmt (.file "a.mk")⟩ := rfl

/-- The byte 255 starts no character. -/
theorem decode_255 : Text.Utf8.decode [0xFF] = .error ⟨.startByte, 0, 1, 0xFF⟩ := by
  rw [Text.Utf8.decode, Text.Utf8.decodeFrom]
  rfl

/-- A file with this byte encodes no text. -/
theorem escapes_of_255 : (Task.fmt (.file "a.mk")).Escapes {} (fun _ => .ok [0xFF]) (.file "a.mk") :=
  .input (.undecodable rfl (Text.Utf8.exists_decode_eq_error_iff.mp ⟨_, decode_255⟩))

/-- A file that encodes no text ends the run without a report. One with the text `a` is printed, and for one
with the text `(` there is a message. -/
theorem reports_of_files :
    (¬ ∃ report, run (fun _ => .ok [0xFF]) "" "" ["fmt", "a.mk"] = .ok report) ∧
    (∃ report, run (fun _ => .ok [0x61]) "" "" ["fmt", "a.mk"] = .ok report ∧ report.status = 0 ∧
      ∃ source, Input.Holds (fun _ => .ok [0x61]) (.file "a.mk") source ∧
        (Task.fmt (.file "a.mk")).Prints {} source report.output) ∧
    ∃ report, run (fun _ => .ok [0x28]) "" "" ["fmt", "a.mk"] = .ok report ∧ report.status = 1 ∧
      report.output = "" := by
  have hescapes := (run_settles ofArguments_fmt_file rfl (fun _ => .ok [0xFF]) "" "" {}).1
  have hprinted : run (fun _ => .ok [0x61]) "" "" ["fmt", "a.mk"] = .ok ⟨0, "a\n", ""⟩ := by
    decide +kernel
  have hreported : run (fun _ => .ok [0x28]) "" "" ["fmt", "a.mk"] =
      .ok ⟨1, "", "a.mk: error: [PAR-0020] no prefix parse function for EOF\n"⟩ := by decide +kernel
  refine ⟨?_, ⟨_, hprinted, rfl, ?_⟩, ⟨_, hreported, rfl, ?_⟩⟩
  · rw [hescapes]
    exact not_not_intro escapes_of_255
  · exact ((run_settles ofArguments_fmt_file rfl _ "" "" {}).2 _ hprinted).printed rfl
  · exact (((run_settles ofArguments_fmt_file rfl _ "" "" {}).2 _ hreported).reported rfl).1

/-- Not every run that reads a program text ends with status 0 or 1. -/
theorem undecodable_file_escapes :
    ¬ ∀ (files : FileReader) (stdin time : String) (arguments : List String) (invocation : Invocation),
      Invocation.ofArguments arguments = .ok invocation → invocation.task ≠ .repl →
        ∃ report, run files stdin time arguments = .ok report ∧
          (report.status = 0 ∨ report.status = 1) := by
  intro hall
  obtain ⟨report, hrun, -⟩ := hall (fun _ => .ok [0xFF]) "" "" _ _ ofArguments_fmt_file (by decide)
  obtain ⟨abort, habort⟩ := run_of_escapes ofArguments_fmt_file rfl escapes_of_255 "" ""
  rw [habort] at hrun
  cases hrun

end Monkey.Command
