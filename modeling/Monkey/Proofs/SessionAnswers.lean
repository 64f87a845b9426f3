import Monkey.Proofs.LongNumber
import Monkey.Proofs.OneLine
import Monkey.Proofs.Trace

/-!
# A session answers line by line

A session takes its input apart at line feeds and writes one answer for each line, with a prompt before
the first one and after every one. An answer depends on nothing but its line, the line feed at the end of
which makes no difference; and it is one line itself. So nothing that a line leaves open, and no error in
it, reaches the lines after it.
-/

namespace Monkey

/-- A reply answers a line: the line is answered so alone, at any time and wherever it stands, with its
line feed and without it, and the answer has no line break. -/
structure Reply.Answers (limits : Limits) (line : String) (reply : Reply) : Prop where
  unterminated : evalLine line limits = .ok reply
  terminated : evalLine (line ++ "\n") limits = .ok reply
  anywhere : ∀ around console, ((answerLine line limits).run around console).1 = .ok reply.text
  oneLine : OneLine reply.text.toList

/-- The text that complete lines make, with a last line that has no line feed. -/
def lineText (complete : List String) (last : String) : String :=
  String.join (complete.map (· ++ "\n")) ++ last

/-- The lines that are to be answered: a last line that is empty is none. -/
def askedLines (complete : List String) (last : String) : List String :=
  complete ++ if last = "" then [] else [last]

/-- What a session writes with its replies. -/
def sessionText (prompt : String) (replies : List Reply) : String :=
  prompt ++ String.join (replies.map fun reply => reply.text ++ "\n" ++ prompt)

variable {complete : List String} {last prompt line : String} {replies : List Reply} {reply : Reply}
  {limits : Limits}

/-- A line is answered alike with its line feed and without it. -/
theorem evalLine_append_lineFeed (line : String) (limits : Limits) :
    evalLine (line ++ "\n") limits = evalLine line limits := by
  apply evalLine_congr
  rw [String.toList_append]
  exact tokens_append_lineFeed line.toList

/-- A line that is answered is answered by its reply. -/
theorem Reply.answers_of_evalLine (h : evalLine line limits = .ok reply) :
    Reply.Answers limits line reply where
  unterminated := h
  terminated := (evalLine_append_lineFeed line limits).trans h
  anywhere around console := congrArg Prod.fst (answerLine_leaves h around console rfl)
  oneLine := oneLine_reply h

/-- The characters of complete lines, each with its line feed. -/
theorem toList_lineText (complete : List String) (last : String) :
    (lineText complete last).toList =
      (complete.map String.toList).flatMap (· ++ ['\n']) ++ last.toList := by
  simp [lineText, String.toList_join, List.flatMap_map]

/-- Every text is made of complete lines and a last one. -/
theorem exists_eq_lineText (text : String) :
    ∃ complete last, (∀ line ∈ complete, '\n' ∉ line.toList) ∧ '\n' ∉ last.toList ∧
      text = lineText complete last := by
  obtain ⟨complete, last, hcomplete, hlast, htext⟩ := Text.exists_eq_flatMap_append text.toList
  refine ⟨complete.map String.ofList, String.ofList last, ?_, by simpa using hlast, ?_⟩
  · simpa using hcomplete
  · rw [← String.toList_inj, toList_lineText, htext]
    simp [Function.comp_def]

/-- The answers to a text are those to its lines without their line feeds. -/
theorem answers_lineText (hcomplete : ∀ line ∈ complete, '\n' ∉ line.toList) (hlast : '\n' ∉ last.toList) :
    answers (lineText complete last).toList limits =
      (askedLines complete last).mapM (evalLine · limits) := by
  have hclean : ∀ line ∈ complete.map String.toList, '\n' ∉ line := by simpa using hcomplete
  have hline : ∀ line : String,
      evalLine (String.ofList (line.toList ++ ['\n'])) limits = evalLine line limits := by
    intro line
    rw [String.ofList_append, String.ofList_toList]
    exact evalLine_append_lineFeed line limits
  rw [answers, toList_lineText, Text.lines_flatMap_append hclean hlast, askedLines, List.mapM_append,
    List.mapM_append, List.map_map, List.mapM_map]
  simp only [Function.comp_def, hline]
  by_cases hempty : last = ""
  · simp [hempty]
  · simp [hempty]

/-- What a session writes is one line for each reply, the prompt included, and the last prompt. -/
theorem sessionText_eq (prompt : String) (replies : List Reply) :
    sessionText prompt replies = lineText (replies.map fun reply => prompt ++ reply.text) prompt := by
  induction replies with
  | nil => simp [sessionText, lineText]
  | cons reply replies ih =>
    simp only [sessionText, lineText, List.map_cons, String.join_cons, String.append_assoc] at ih ⊢
    rw [ih]

/-- A traversal gives the results of its members. -/
theorem forall₂_of_mapM {α β ε : Type} {f : α → Except ε β} {items : List α} {results : List β}
    (h : items.mapM f = .ok results) : List.Forall₂ (fun a b => f a = .ok b) items results := by
  induction items generalizing results with
  | nil =>
    cases h
    exact .nil
  | cons a rest ih =>
    rw [List.mapM_cons] at h
    cases hfirst : f a with
    | error error => simp [hfirst, bind, Except.bind] at h
    | ok b =>
      cases hrest : rest.mapM f with
      | error error => simp [hfirst, hrest, bind, Except.bind] at h
      | ok others =>
        simp only [hfirst, hrest, bind, Except.bind, pure, Except.pure, Except.ok.injEq] at h
        subst h
        exact .cons hfirst (ih hrest)

/-- Answers and a prompt without line feeds make one line of output for each line of input, and the last
prompt is left. -/
theorem lines_sessionText (hprompt : '\n' ∉ prompt.toList)
    (hreplies : ∀ reply ∈ replies, OneLine reply.text.toList) :
    Text.lines (sessionText prompt replies).toList =
      replies.map (fun reply => (prompt ++ reply.text ++ "\n").toList) ++
        if prompt = "" then [] else [prompt.toList] := by
  have hclean : ∀ line ∈ (replies.map fun reply => prompt ++ reply.text).map String.toList,
      '\n' ∉ line := by
    simp only [List.map_map, List.forall_mem_map, Function.comp_apply, String.toList_append,
      List.mem_append, not_or]
    exact fun reply hreply => ⟨hprompt, fun hfeed => (hreplies reply hreply _ hfeed).1 rfl⟩
  rw [sessionText_eq, toList_lineText, Text.lines_flatMap_append hclean hprompt]
  simp [Function.comp_def]

/-- A session over a text whose lines are all answered writes a prompt and the answer to the first line, a
prompt and the answer to the next line, and so on up to a last prompt. Each line is answered as it is
alone, with its line feed or without it, and each answer takes one line of the output. -/
theorem session_answers_each_line (limits : Limits) :
    (∀ text : String, ∃ complete last, (∀ line ∈ complete, '\n' ∉ line.toList) ∧ '\n' ∉ last.toList ∧
      text = lineText complete last) ∧
    ∀ (complete : List String) (last : String), (∀ line ∈ complete, '\n' ∉ line.toList) →
      '\n' ∉ last.toList → (∀ line ∈ askedLines complete last, ∃ reply, evalLine line limits = .ok reply) →
      ∃ replies : List Reply,
        List.Forall₂ (Reply.Answers limits) (askedLines complete last) replies ∧
        (∀ (around : Surroundings) (console : Console),
          (converse (lineText complete last).toList limits).run around console =
            (.ok (), (console.noteAll around (replies.flatMap (·.log))).write
              (sessionText around.settings.prompt replies))) ∧
        ∀ prompt : String,
          runSession prompt (lineText complete last) limits =
            .ok ⟨sessionText prompt replies, replies.flatMap (·.log)⟩ ∧
          ('\n' ∉ prompt.toList → Text.lines (sessionText prompt replies).toList =
            replies.map (fun reply => (prompt ++ reply.text ++ "\n").toList) ++
              if prompt = "" then [] else [prompt.toList]) := by
  refine ⟨exists_eq_lineText, fun complete last hcomplete hlast hanswered => ?_⟩
  obtain ⟨replies, hreplies⟩ := (exists_mapM_iff (evalLine · limits) _).mpr hanswered
  have hanswers := (answers_lineText hcomplete hlast).trans hreplies
  have hall : List.Forall₂ (Reply.Answers limits) (askedLines complete last) replies :=
    (forall₂_of_mapM hreplies).imp fun _ _ => Reply.answers_of_evalLine
  refine ⟨replies, hall, fun around console => ?_, fun prompt => ⟨?_, fun hprompt => ?_⟩⟩
  · exact converse_leaves around.settings.prompt hanswers around console rfl
  · unfold runSession
    rw [hanswers]
    rfl
  · have hone : List.Forall₂ (fun reply line => OneLine reply.text.toList ∧ Reply.Answers limits line reply)
        replies (askedLines complete last) := hall.flip.imp fun _ _ h => ⟨h.oneLine, h⟩
    exact lines_sessionText hprompt ((List.forall₂_and_left _ _).mp hone).1

set_option maxRecDepth 20000 in
/-- An open block and an error leave no trace in the answers to the lines after them, the last of which
has no line feed. -/
theorem session_after_open_block_and_error :
    ((converse "if (a) \x7b b\n)\nc".toList).run ⟨{}, fun _ => ""⟩ {}).2.output =
      "> if (a) \x7bb\x7d\n> ERROR: [PAR-0020] no prefix parse function for RPAREN\n> c\n> " := by
  obtain ⟨log, hopen⟩ : ∃ log, evalLine "if (a) \x7b b" = .ok ⟨"if (a) \x7bb\x7d", log⟩ := ⟨_, by cbv⟩
  obtain ⟨log', herror⟩ : ∃ log, evalLine ")" =
      .ok ⟨"ERROR: [PAR-0020] no prefix parse function for RPAREN", log⟩ := by
    have hparse : parse ")" = .error (.invalid (.missingPrefixRule ⟨.rparen, ")"⟩)) := by cbv
    exact ⟨_, by rw [evalLine, hparse]; rfl⟩
  obtain ⟨log'', hlast⟩ : ∃ log, evalLine "c" = .ok ⟨"c", log⟩ := ⟨_, by cbv⟩
  have hasked : askedLines ["if (a) \x7b b", ")"] "c" = ["if (a) \x7b b", ")", "c"] := rfl
  have htext : lineText ["if (a) \x7b b", ")"] "c" = "if (a) \x7b b\n)\nc" := rfl
  obtain ⟨replies, hreplies, hrun, -⟩ := (session_answers_each_line {}).2 ["if (a) \x7b b", ")"] "c"
    (by simp) (by simp) (by simp [hasked, hopen, herror, hlast])
  rw [hasked] at hreplies
  rcases hreplies with _ | ⟨hfirst, _ | ⟨hsecond, _ | ⟨hthird, ⟨⟩⟩⟩⟩
  cases hfirst.unterminated.symm.trans hopen
  cases hsecond.unterminated.symm.trans herror
  cases hthird.unterminated.symm.trans hlast
  rw [← htext, hrun]
  simp [Console.write, Console.output_noteAll, sessionText]

end Monkey
