import Monkey.Node.Equality
import Monkey.Proofs.Termination
import Monkey.Proofs.WindowIndex

/-!
# The end of the stack

A stack can run out in any method of a parser or of its lexer, in the middle of a construct and even while
the window is being moved. Whatever the parser was about to do, it then ends with the current token, at
which a run without an end of the stack is at some point as well. Otherwise the stack makes no difference.

That a method keeps to this is part of what a method is: it is shown once for each single step, for one
method after the other and for a loop. What remains is to say it of a whole program.
-/

namespace Monkey

namespace Method

variable {α : Type} {method : Method α} {less more : Stack} {start : Window} {t : Token}

/-- A method that is run without an end of the stack is at a window at some point. As it goes on by single
tokens, these are the windows from where it starts to where it ends. -/
def Passes (method : Method α) (start place : Window) : Prop :=
  ∃ count further, place = start.moved count ∧ (method.run start).window = start.moved (count + further)

/-- A stack that does not run out makes no difference to a greater one. -/
theorem runWithin_eq_of_le (hle : less ≤ more)
    (h : ∀ t, (method.runWithin less start).result ≠ .error (.invalid (.nestingTooDeep t))) :
    method.runWithin less start = method.runWithin more start := by
  have hagrees := method.agrees hle start
  generalize method.runWithin less start = short at hagrees h ⊢
  cases hagrees with
  | same => rfl
  | overflow => exact absurd rfl (h _)

/-- Where a stack runs out, the current token is one at which the run without an end of the stack is at some
point, unless that run ends with too deep a nesting itself. -/
theorem exists_passes (hrun : ∀ t, (method.run start).result ≠ .error (.invalid (.nestingTooDeep t)))
    (h : (method.runWithin less start).result = .error (.invalid (.nestingTooDeep t))) :
    ∃ place, method.Passes start place ∧ place.cur = t := by
  have hagrees : (method.runWithin less start).Agrees start (method.run start) :=
    method.agrees (Stack.le_unlimited less) start
  generalize hlong : method.run start = long at hagrees hrun
  generalize method.runWithin less start = short at hagrees h
  cases hagrees with
  | same => exact absurd h (hrun t)
  | @overflow window _ count further hcur hle hreaches =>
    simp only [Ending.result, Except.error.injEq, ParseFailure.invalid.injEq,
      SyntaxError.nestingTooDeep.injEq] at h
    have hend : long.window = start.moved further := by
      cases hreaches with
      | done | failed => rfl
      | overflow => exact absurd rfl (hrun _)
    exact ⟨start.moved count, ⟨count, further - count, rfl, by rw [hlong, hend, Nat.add_sub_cancel' hle]⟩,
      hcur ▸ h⟩

end Method

namespace Parser

variable {source : String} {levels : Nat}

theorem length_tokens_lt (h : source.length < levels) : (tokens source.toList).length < levels :=
  Nat.lt_of_le_of_lt (length_tokens_le source.toList) h

/-- Without an end of the stack a text is parsed as with any number of levels above its length. -/
theorem parse_eq_parseWithin (h : source.length < levels) :
    parse source levels = parseWithin .unlimited source :=
  calc parse source levels
    _ = parse source (source.length + 1) :=
      (Grammar.parseTokens_of_lt (length_tokens_lt h)).trans
        (Grammar.parseTokens_of_lt (length_tokens_lt (Nat.lt_succ_self _))).symm
    _ = parseWithin .unlimited source := parse_eq_result source _

theorem parseWithin_unlimited_ne (source : String) (t : Token) :
    parseWithin .unlimited source ≠ .error (.invalid (.nestingTooDeep t)) := by
  rw [← parse_eq_parseWithin (Nat.lt_succ_self source.length)]
  exact Grammar.parseTokens_ne_tooDeep (length_tokens_lt (Nat.lt_succ_self _)) t

/-- From some number of frames on the stack makes no difference. -/
theorem exists_frames_enough (depth : Operation → Nat) (source : String) :
    ∃ enough, ∀ more, enough ≤ more →
      parseWithin ⟨some more, depth⟩ source = parseWithin .unlimited source := by
  obtain ⟨enough, h⟩ := (programOf source).settled depth (.ofSource source)
  exact ⟨enough, fun more hmore => congrArg Ending.result (h more hmore)⟩

theorem mem_tokenize_of_passes {place : Window} (h : (programOf source).Passes (.ofSource source) place) :
    place.cur ∈ tokenize source := by
  obtain ⟨count, further, rfl, -⟩ := h
  rw [((Window.at_ofSource source).moved count).cur_eq]
  exact tokenAt_mem_tokenize source _

/-- The end of the stack is transparent, whatever the operations take of it. If a program is read without
running out of frames, the result is the one without an end of the stack, which is never that nesting is too
deep, and the same for every greater number of frames. If the frames run out, in whichever method this is,
nesting is too deep at a token of the text or the end of input that is current at some point of the run
without an end. Some number of frames is enough, and then parsing is as with any number of levels of nesting
above the length of the text. -/
theorem stack_limit_transparent (depth : Operation → Nat) (frames : Nat) (source : String) :
    ((∀ t, parseWithin ⟨some frames, depth⟩ source ≠ .error (.invalid (.nestingTooDeep t))) →
      parseWithin ⟨some frames, depth⟩ source = parseWithin .unlimited source ∧
        ∀ more, frames ≤ more →
          parseWithin ⟨some more, depth⟩ source = parseWithin ⟨some frames, depth⟩ source) ∧
    (∀ t, parseWithin ⟨some frames, depth⟩ source = .error (.invalid (.nestingTooDeep t)) →
      t ∈ tokenize source ∧ ∃ place, (programOf source).Passes (.ofSource source) place ∧ place.cur = t) ∧
    (∀ t, parseWithin .unlimited source ≠ .error (.invalid (.nestingTooDeep t))) ∧
    (∃ enough, ∀ more, enough ≤ more →
      parseWithin ⟨some more, depth⟩ source = parseWithin .unlimited source) ∧
    ∀ levels, source.length < levels → parse source levels = parseWithin .unlimited source := by
  have hnever := parseWithin_unlimited_ne source
  refine ⟨fun h => ⟨?_, fun more hmore => ?_⟩, fun t h => ?_, hnever, exists_frames_enough depth source,
    fun _ => parse_eq_parseWithin⟩
  · exact congrArg Ending.result (Method.runWithin_eq_of_le (Stack.le_unlimited _) h)
  · exact (congrArg Ending.result (Method.runWithin_eq_of_le (Stack.le_of_frames depth hmore) h)).symm
  · obtain ⟨place, hpasses, rfl⟩ := Method.exists_passes hnever h
    exact ⟨mem_tokenize_of_passes hpasses, place, hpasses, rfl⟩

/-- With four frames the stack runs out where the name of a let statement has become the current token and
the token after it is to be pulled. Twenty frames are as good as any greater number. -/
theorem stack_runs_out_at_name :
    let source := "let f = 1"
    let depth : Operation → Nat := fun _ => 1
    (parseWithin ⟨some 4, depth⟩ source = .error (.invalid (.nestingTooDeep ⟨.ident, "f"⟩)) ∧
      ⟨.ident, "f"⟩ ∈ tokenize source ∧
      ∃ place, (programOf source).Passes (.ofSource source) place ∧ place.cur = ⟨.ident, "f"⟩) ∧
    (parseWithin ⟨some 20, depth⟩ source).isOk = true ∧
      parseWithin ⟨some 100, depth⟩ source = parseWithin ⟨some 20, depth⟩ source := by
  intro source depth
  have hfour : parseWithin ⟨some 4, depth⟩ source =
      .error (.invalid (.nestingTooDeep ⟨.ident, "f"⟩)) := by decide +kernel
  have htwenty : (parseWithin ⟨some 20, depth⟩ source).isOk = true := by decide +kernel
  have henough : ∀ t, parseWithin ⟨some 20, depth⟩ source ≠ .error (.invalid (.nestingTooDeep t)) := by
    intro t hdeep
    rw [hdeep] at htwenty
    cases htwenty
  exact ⟨⟨hfour, (stack_limit_transparent depth 4 source).2.1 _ hfour⟩, htwenty,
    ((stack_limit_transparent depth 20 source).1 henough).2 100 (by decide)⟩

end Parser

end Monkey
