import Monkey.Command.Perform
import Monkey.Proofs.LineEnds

/-!
# What actions leave

An action leaves a result, an output and a list of entries, and these depend on the surroundings only
through the prompt: which of the entries are written as lines of the log, and how, is all that the other
settings and the clock decide. What a part of an action leaves is followed by what the next part leaves,
up to the first failure.

What the session and the commands leave as they happen is what their definitions as a whole say.
-/

namespace Monkey

variable {ε ε' α β : Type} {prompt text : String} {around : Surroundings} {console : Console}

/-! ## Consoles -/

namespace Console

/-- Write the lines of those entries that are shown. -/
def noteAll (around : Surroundings) (entries : List LogEntry) (console : Console) : Console :=
  entries.foldl (note around) console

@[simp]
theorem write_empty (console : Console) : console.write "" = console := by
  simp [write]

theorem write_write (first second : String) (console : Console) :
    (console.write first).write second = console.write (first ++ second) := by
  simp [write, String.append_assoc]

/-- The output and the log are written independently. -/
theorem note_write (around : Surroundings) (entry : LogEntry) (text : String) (console : Console) :
    (console.write text).note around entry = (console.note around entry).write text := by
  by_cases h : entry.isShown around.settings = true <;> simp [note, write, h]

theorem noteAll_write (around : Surroundings) (entries : List LogEntry) (text : String)
    (console : Console) :
    (console.write text).noteAll around entries = (console.noteAll around entries).write text := by
  induction entries generalizing console with
  | nil => rfl
  | cons entry entries ih => simpa only [noteAll, List.foldl_cons, note_write] using ih _

theorem noteAll_append (around : Surroundings) (first second : List LogEntry) (console : Console) :
    console.noteAll around (first ++ second) = (console.noteAll around first).noteAll around second :=
  List.foldl_append

/-- The output is left alone by the log. -/
theorem output_noteAll (around : Surroundings) (entries : List LogEntry) (console : Console) :
    (console.noteAll around entries).output = console.output := by
  induction entries generalizing console with
  | nil => rfl
  | cons entry entries ih =>
    have hnote : (console.note around entry).output = console.output := by
      unfold note
      split <;> rfl
    rw [← hnote]
    exact ih _

/-- What does not depend on the number of a line is the same for the line of an entry wherever the entry
is logged. -/
theorem map_lines_noteAll {f : LogLine → β} {g : LogEntry → β}
    (h : ∀ number entry, f (.ofEntry around number entry) = g entry) (entries : List LogEntry)
    (console : Console) :
    (console.noteAll around entries).lines.map f =
      console.lines.map f ++ (entries.filter (LogEntry.isShown around.settings)).map g := by
  induction entries generalizing console with
  | nil => simp [noteAll]
  | cons entry entries ih =>
    have hcons : console.noteAll around (entry :: entries) =
      (console.note around entry).noteAll around entries := rfl
    rw [hcons, ih]
    by_cases hshown : entry.isShown around.settings = true <;> simp [note, hshown, h]

/-- At a time that stands still the log has the text of its entries. -/
theorem errorOutput_noteAll {time : String} (hclock : ∀ number, around.clock number = time)
    (entries : List LogEntry) (console : Console) :
    (console.noteAll around entries).errorOutput =
      console.errorOutput ++ renderLog around.settings time entries := by
  have hline : ∀ number entry,
      (LogLine.ofEntry around number entry).text = entry.line around.settings time := by
    intro number entry
    cases hrich : around.settings.richFormat <;>
      simp [LogLine.text, LogLine.ofEntry, LogEntry.line, hrich, hclock]
  rw [errorOutput, map_lines_noteAll hline, String.join_append]
  rfl

end Console

/-! ## Actions -/

namespace Action

/-- With the prompt, and whatever else the surroundings are, an action ends with the result, writes the
output and logs the entries. -/
def Leaves (prompt : String) (action : Action ε α) (result : Except ε α) (output : String)
    (entries : List LogEntry) : Prop :=
  ∀ around console, around.settings.prompt = prompt →
    action.run around console = (result, (console.noteAll around entries).write output)

variable {first : Action ε α} {following : α → Action ε β} {value : α} {error : ε} {entry : LogEntry}
  {result : Except ε β} {output output' : String} {entries entries' : List LogEntry}

theorem leaves_pure (value : α) : (pure value : Action ε α).Leaves prompt (.ok value) "" [] := by
  intro around console _
  rw [Console.write_empty]
  rfl

theorem leaves_fail (error : ε) : (fail error : Action ε α).Leaves prompt (.error error) "" [] := by
  intro around console _
  rw [Console.write_empty]
  rfl

theorem leaves_write (text : String) : (write text : Action ε Unit).Leaves prompt (.ok ()) text [] :=
  fun _ _ _ => rfl

theorem leaves_log (entry : LogEntry) : (log entry : Action ε Unit).Leaves prompt (.ok ()) "" [entry] := by
  intro around console _
  rw [Console.write_empty]
  rfl

theorem run_bind_of_ok {after : Console} (h : first.run around console = (.ok value, after)) :
    (first >>= following).run around console = (following value).run around after := by
  rw [run_bind, h]

theorem run_bind_of_error {after : Console} (h : first.run around console = (.error error, after)) :
    (first >>= following).run around console = (.error error, after) := by
  rw [run_bind, h]

/-- It does not matter how a sequence of actions is grouped. -/
instance : LawfulMonad (Action ε) := by
  refine LawfulMonad.mk' (Action ε) ?_ (fun _ _ => rfl) ?_
  · intro α action
    funext around console
    change (action >>= pure).run around console = action.run around console
    rcases haction : action.run around console with ⟨_ | value, after⟩
    · rw [run_bind_of_error haction]
    · rw [run_bind_of_ok haction]
      rfl
  · intro α β γ first following last
    funext around console
    change (first >>= following >>= last).run around console = (first >>= _).run around console
    rcases hfirst : first.run around console with ⟨_ | value, after⟩
    · rw [run_bind_of_error hfirst, run_bind_of_error (run_bind_of_error hfirst)]
    · rw [run_bind_of_ok hfirst]
      rcases hnext : (following value).run around after with ⟨_ | value', after'⟩
      · rw [run_bind_of_error hnext, run_bind_of_error ((run_bind_of_ok hfirst).trans hnext)]
      · rw [run_bind_of_ok hnext, run_bind_of_ok ((run_bind_of_ok hfirst).trans hnext)]

/-- What is left by two parts is left by the one and then by the other. -/
theorem Leaves.bind (h : first.Leaves prompt (.ok value) output entries)
    (hfollowing : (following value).Leaves prompt result output' entries') :
    (first >>= following).Leaves prompt result (output ++ output') (entries ++ entries') := by
  intro around console hprompt
  rw [run_bind_of_ok (h around console hprompt), hfollowing around _ hprompt, Console.noteAll_write,
    Console.write_write, Console.noteAll_append]

theorem Leaves.bind_error (h : first.Leaves prompt (.error error) output entries) :
    (first >>= following).Leaves prompt (.error error) output entries := by
  intro around console hprompt
  exact run_bind_of_error (h around console hprompt)

theorem Leaves.of_eq {action : Action ε β} (h : action.Leaves prompt result output entries)
    (houtput : output = output') (hentries : entries = entries') :
    action.Leaves prompt result output' entries' :=
  houtput ▸ hentries ▸ h

theorem Leaves.prompt_bind {following : String → Action ε β}
    (h : (following prompt).Leaves prompt result output entries) :
    (Action.prompt >>= following).Leaves prompt result output entries := by
  rintro around console rfl
  exact h around console rfl

theorem Leaves.write_bind {following : Unit → Action ε β}
    (h : (following ()).Leaves prompt result output entries) :
    (write text >>= following).Leaves prompt result (text ++ output) entries :=
  (leaves_write text).bind h

theorem Leaves.log_bind {following : Unit → Action ε β}
    (h : (following ()).Leaves prompt result output entries) :
    (log entry >>= following).Leaves prompt result output (entry :: entries) := by
  simpa using (leaves_log entry).bind h

theorem leaves_write_pure (text : String) (value : α) :
    (write text >>= fun _ => pure value : Action ε α).Leaves prompt (.ok value) text [] := by
  have hleaves : (write text >>= fun _ => pure value : Action ε α).Leaves prompt (.ok value)
      (text ++ "") ([] ++ []) := (leaves_write text).bind (leaves_pure value)
  simpa using hleaves

/-- Only the failure changes when failures are reported as others. -/
theorem Leaves.mapError {action : Action ε α} {result : Except ε α}
    (h : action.Leaves prompt result output entries) (f : ε → ε') :
    (action.mapError f).Leaves prompt (result.mapError f) output entries := by
  intro around console hprompt
  change ((action.run around console).1.mapError f, (action.run around console).2) = _
  rw [h around console hprompt]

/-- What is written for each value of a list is written one after the other. -/
theorem leaves_forEach_write {values : List α} {act : α → Action ε Unit} {outputs : α → String}
    (h : ∀ value, (act value).Leaves prompt (.ok ()) (outputs value) []) :
    (forEach values act).Leaves prompt (.ok ()) (String.join (values.map outputs)) [] := by
  induction values with
  | nil => exact leaves_pure ()
  | cons value values ih =>
    rw [forEach, List.map_cons, String.join_cons]
    exact (h value).bind ih

/-- The entries of a list are logged one after the other. -/
theorem leaves_forEach_log (entries : List LogEntry) (value : α) :
    (forEach entries log >>= fun _ => pure value : Action ε α).Leaves prompt (.ok value) "" entries := by
  induction entries with
  | nil => exact leaves_pure value
  | cons entry entries ih =>
    rw [forEach, bind_assoc]
    exact .log_bind ih

end Action

/-! ## The session -/

variable {line : String} {reply : Reply} {replies : List Reply} {error : Text.NumeralError}
  {input : List Char} {limits : Limits}

/-- An answered line leaves its entries. -/
theorem answerLine_leaves (h : evalLine line limits = .ok reply) :
    (answerLine line limits).Leaves prompt (.ok reply.text) "" reply.log := by
  unfold evalLine at h
  unfold answerLine
  cases hparse : parse line limits.levels with
  | error failure =>
    cases failure with
    | unreadable error => simp [hparse] at h
    | invalid error =>
      simp only [hparse, Except.ok.injEq] at h
      subst h
      exact .log_bind (.log_bind (Action.leaves_pure _))
  | ok program =>
    cases hcanonical : program.canonical? limits.depth with
    | none =>
      simp only [hparse, hcanonical, Except.ok.injEq] at h ⊢
      subst h
      exact .log_bind (.log_bind (.log_bind (Action.leaves_pure _)))
    | some text =>
      simp only [hparse, hcanonical, Except.ok.injEq] at h ⊢
      subst h
      exact .log_bind (.log_bind (Action.leaves_pure _))

/-- A line with a number whose text is not converted leaves its failure and the start of its parse. -/
theorem answerLine_leaves_error (h : evalLine line limits = .error error) :
    (answerLine line limits).Leaves prompt (.error error) "" [.stage "Parsing" (some "<repl>")] := by
  unfold evalLine at h
  unfold answerLine
  cases hparse : parse line limits.levels with
  | error failure =>
    cases failure with
    | unreadable error =>
      simp only [hparse, Except.error.injEq] at h
      subst h
      exact .log_bind (Action.leaves_fail _)
    | invalid error => simp [hparse] at h
  | ok program => cases hcanonical : program.canonical? limits.depth <;> simp [hparse, hcanonical] at h

theorem answers_nil (limits : Limits) : answers [] limits = .ok [] := by
  rw [answers, Text.lines_nil]
  rfl

/-- The answers to a text are the answer to its first line and those to the rest. -/
theorem answers_cons (c : Char) (rest : List Char) (limits : Limits) :
    answers (c :: rest) limits =
      (evalLine (String.ofList (Text.splitLine (c :: rest)).1) limits).bind fun reply =>
        (answers (Text.splitLine (c :: rest)).2 limits).map (reply :: ·) := by
  rw [answers, Text.lines, List.mapM_cons]
  rfl

/-- A session leaves a prompt and the answer to its first line, and then what it leaves of the rest. -/
theorem converse_cons_leaves {c : Char} {rest : List Char} {result : Except Text.NumeralError Unit}
    {output : String} {entries : List LogEntry}
    (hreply : evalLine (String.ofList (Text.splitLine (c :: rest)).1) limits = .ok reply)
    (hrest : (converse (Text.splitLine (c :: rest)).2 limits).Leaves prompt result output entries) :
    (converse (c :: rest) limits).Leaves prompt result (prompt ++ (reply.text ++ ("\n" ++ output)))
      (reply.log ++ entries) := by
  rw [converse, ← String.empty_append (s := reply.text ++ ("\n" ++ output))]
  refine .prompt_bind (.write_bind ?_)
  exact (answerLine_leaves hreply).bind (.write_bind (.write_bind hrest))

/-- A session over a text leaves its answers, each before the next prompt. -/
theorem converse_leaves (prompt : String) (h : answers input limits = .ok replies) :
    (converse input limits).Leaves prompt (.ok ())
      (prompt ++ String.join (replies.map (Reply.output prompt))) (replies.flatMap (·.log)) := by
  induction input using Text.lineInduction generalizing replies with
  | nil =>
    cases (answers_nil limits).symm.trans h
    rw [converse]
    exact .prompt_bind (.write_bind (Action.leaves_pure ()))
  | line c rest ih =>
    rw [answers_cons] at h
    cases hreply : evalLine (String.ofList (Text.splitLine (c :: rest)).1) limits with
    | error error => simp [hreply, Except.bind] at h
    | ok reply =>
      cases hreplies : answers (Text.splitLine (c :: rest)).2 limits with
      | error error => simp [hreply, hreplies, Except.bind, Except.map] at h
      | ok replies =>
        simp only [hreply, hreplies, Except.bind, Except.map, Except.ok.injEq] at h
        subst h
        simpa [Reply.output, String.append_assoc] using converse_cons_leaves hreply (ih hreplies)

/-- A session over a text with a number that is not converted fails, and leaves what it did before. -/
theorem converse_leaves_error (prompt : String) (h : answers input limits = .error error) :
    ∃ output entries, (converse input limits).Leaves prompt (.error error) output entries := by
  induction input using Text.lineInduction with
  | nil => cases (answers_nil limits).symm.trans h
  | line c rest ih =>
    rw [answers_cons] at h
    cases hreply : evalLine (String.ofList (Text.splitLine (c :: rest)).1) limits with
    | error failure =>
      simp only [hreply, Except.bind, Except.error.injEq] at h
      subst h
      rw [converse]
      exact ⟨_, _, .prompt_bind (.write_bind (answerLine_leaves_error hreply).bind_error)⟩
    | ok reply =>
      cases hreplies : answers (Text.splitLine (c :: rest)).2 limits with
      | ok replies => simp [hreply, hreplies, Except.bind, Except.map] at h
      | error failure =>
        simp only [hreply, hreplies, Except.bind, Except.map, Except.error.injEq] at h
        subst h
        obtain ⟨output, entries, hrest⟩ := ih hreplies
        exact ⟨_, _, converse_cons_leaves hreply hrest⟩

namespace Command

/-! ## Commands -/

variable {files : FileReader} {input : Input} {stdin : String} {source : Source}
  {action : Action Abort Nat}

/-- An action ends as a task does: it leaves its status, its output and its log, or it fails alike. -/
def EndsAs (prompt : String) (action : Action Abort Nat) : Except Abort Finish → Prop
  | .ok finish => action.Leaves prompt (.ok finish.status) finish.output finish.log
  | .error abort => ∃ output entries, action.Leaves prompt (.error abort) output entries

/-- A task that goes on from its input ends as it does with the text of the input. -/
theorem loadInput_bind_endsAs {following : Option Source → Action Abort Nat}
    {act : Source → Except Abort Finish} (hnone : following none = pure 1)
    (hsome : ∀ source, EndsAs prompt (following (some source)) (act source)) :
    EndsAs prompt (loadInput files input >>= following) (withInput files input act) := by
  unfold loadInput withInput
  cases hread : readInput files input with
  | error abort => exact ⟨_, _, (Action.leaves_fail abort).bind_error⟩
  | ok text =>
    cases text with
    | error entry =>
      have hmissing : (do Action.log entry; pure none : Action Abort (Option Source)).Leaves prompt
          (.ok none) "" [entry] := .log_bind (Action.leaves_pure none)
      exact hmissing.bind (hnone ▸ Action.leaves_pure 1)
    | ok source => exact hsome source

/-- A parsed input is printed as the tree of its text. -/
theorem printInput_endsAs (files : FileReader) (input : Input) (render : Node → Option String)
    (levels : Nat) : EndsAs prompt (printInput files input render levels)
      (withInput files input fun source => printTree render source levels) := by
  unfold printInput parseInput
  rw [bind_assoc]
  refine loadInput_bind_endsAs rfl fun source => ?_
  simp only [bind_assoc]
  unfold printTree
  cases hparse : parse source.text levels with
  | error failure =>
    cases failure with
    | unreadable error => exact ⟨_, _, .log_bind (Action.leaves_fail _).bind_error⟩
    | invalid error =>
      simp only [bind_assoc, pure_bind]
      exact .log_bind (.log_bind (Action.leaves_pure 1))
  | ok program =>
    simp only [bind_assoc, pure_bind, printRendered]
    cases hrender : render program with
    | some text => exact .log_bind (.log_bind (Action.leaves_write_pure _ 0))
    | none => exact .log_bind (.log_bind (.log_bind (Action.leaves_pure 1)))

/-- To write nothing for a value is to leave it out. -/
theorem join_map_ite (values : List α) (p : α → Bool) (f : α → String) :
    String.join (values.map fun value => if p value then f value else "") =
      String.join ((values.filter p).map f) := by
  induction values with
  | nil => rfl
  | cons value values ih => by_cases h : p value = true <;> simp [h, ih]

/-- The tokens of a text are dumped one after the other. -/
theorem printTokens_endsAs (includeEof : Bool) (source : Source) :
    EndsAs prompt (printTokens includeEof source) (.ok (dumpTokens includeEof source)) := by
  have htokens : (Action.forEach (tokenize source.text) fun token =>
      if includeEof || decide (token.kind ≠ .eof) then Action.write (tokenLine token)
      else (pure () : Action Abort Unit)).Leaves prompt (.ok ()) (dumpTokens includeEof source).output
        [] := by
    rw [dumpTokens, ← join_map_ite]
    refine Action.leaves_forEach_write fun token => ?_
    split
    · exact Action.leaves_write _
    · exact Action.leaves_pure ()
  have hentries : LogEntry.stage "Lexing" (some source.name) :: ([] ++ _) =
      (dumpTokens includeEof source).log := rfl
  rw [EndsAs, ← hentries, ← String.append_empty (s := (dumpTokens includeEof source).output)]
  exact .log_bind (htokens.bind (.log_bind (Action.leaves_forEach_log _ 0)))

/-- A task ends as it happens as its definition says. -/
theorem carryOut_endsAs (files : FileReader) (prompt stdin : String) (task : Task) (limits : Limits) :
    EndsAs prompt (carryOut files stdin task limits) (runTask files prompt stdin task limits) := by
  cases task with
  | repl =>
    unfold carryOut runTask runSession
    rw [String.toList_ofList]
    cases hanswers : answers (Text.normalizeNewlines stdin.toList) limits with
    | error error =>
      obtain ⟨output, entries, hsession⟩ := converse_leaves_error prompt hanswers
      exact ⟨_, _, .log_bind (hsession.mapError Abort.unreadable).bind_error⟩
    | ok replies =>
      have hsession := (converse_leaves prompt hanswers).mapError Abort.unreadable
      refine Action.Leaves.of_eq (.log_bind (hsession.bind (Action.leaves_pure 0))) ?_ ?_
      · exact String.append_empty
      · exact congrArg _ (List.append_nil _)
  | tok includeEof input => exact loadInput_bind_endsAs rfl (printTokens_endsAs includeEof)
  | ast input => exact printInput_endsAs files input _ _
  | fmt input => exact printInput_endsAs files input _ _

/-! ## Reports -/

/-- What a command line leaves that was carried out: a report, unless a fault ended it. -/
def reportOf : Except Stop (Except Abort Nat × Console) → Except Abort Report
  | .error stop => .ok stop.report
  | .ok (.error abort, _) => .error abort
  | .ok (.ok status, console) => .ok ⟨status, console.output, console.errorOutput⟩

/-- The run of a command line is what it leaves at a time that stands still. -/
theorem run_eq_reportOf_execute (files : FileReader) (stdin time : String) (arguments : List String)
    (limits : Limits) :
    run files stdin time arguments limits =
      reportOf (execute files stdin (fun _ => time) arguments limits) := by
  unfold run execute
  cases Invocation.ofArguments arguments with
  | error stop => rfl
  | ok invocation =>
    have hends := carryOut_endsAs files invocation.settings.prompt stdin invocation.task limits
    change (runTask files invocation.settings.prompt stdin invocation.task limits).bind _ =
      reportOf (.ok ((carryOut files stdin invocation.task limits).run _ _))
    cases htask : runTask files invocation.settings.prompt stdin invocation.task limits with
    | error abort =>
      rw [htask] at hends
      obtain ⟨output, entries, hleaves⟩ := hends
      rw [hleaves ⟨invocation.settings, fun _ => time⟩ {} rfl]
      rfl
    | ok finish =>
      rw [htask] at hends
      have hclock : ∀ number, (Surroundings.mk invocation.settings fun _ => time).clock number = time :=
        fun _ => rfl
      have houtput := Console.output_noteAll ⟨invocation.settings, fun _ => time⟩ finish.log {}
      have herrors := Console.errorOutput_noteAll hclock finish.log {}
      rw [hends ⟨invocation.settings, fun _ => time⟩ {} rfl, reportOf, Console.write, houtput]
      simp only [Console.errorOutput] at herrors ⊢
      rw [herrors]
      simp [Except.bind, String.join]

end Command

end Monkey
