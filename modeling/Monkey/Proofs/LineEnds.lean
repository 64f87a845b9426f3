import Monkey.Proofs.TokenBoundary
import Monkey.Session

/-!
# Line ends

To the tokens of a program every blank is like every other one and several are like one. The tokens of a
text are therefore the same however its lines end, and those of a line are the same with its line feed
and without it.

A text is taken apart at its line feeds in one way only: into lines that end with their line feed, and
what is left after the last line feed.
-/

namespace Monkey

variable {c d : Char} {text front back line : List Char}

/-! ## Tokens -/

/-- The tokens of a line are the same with its line feed and without it. -/
theorem tokens_append_lineFeed (line : List Char) : tokens (line ++ ['\n']) = tokens line := by
  rw [tokens_append_blank_append (by decide), tokens_nil, List.append_nil]

/-- Texts with the same tokens are parsed alike. -/
theorem parse_congr {first second : String} {levels : Nat}
    (h : tokens first.toList = tokens second.toList) : parse first levels = parse second levels := by
  rw [parse, parse, h]

/-- Lines with the same tokens are answered alike. -/
theorem evalLine_congr {first second : String} {limits : Limits}
    (h : tokens first.toList = tokens second.toList) : evalLine first limits = evalLine second limits := by
  rw [evalLine, evalLine, parse_congr h]

/-! ## Lines -/

namespace Text

/-- What holds of the empty text, and of a text if it holds of what follows its first line, holds of every
text. -/
theorem lineInduction {motive : List Char → Prop} (nil : motive [])
    (line : ∀ c rest, motive (splitLine (c :: rest)).2 → motive (c :: rest)) :
    ∀ text, motive text
  | [] => nil
  | c :: rest => line c rest (lineInduction nil line (splitLine (c :: rest)).2)
termination_by text => text.length
decreasing_by exact length_splitLine_snd c rest

@[simp]
theorem lines_nil : lines [] = [] := by
  rw [lines]

/-- A text without a line feed is one line. -/
theorem splitLine_of_not_mem (h : '\n' ∉ text) : splitLine text = (text, []) := by
  induction text with
  | nil => rfl
  | cons c rest ih =>
    simp only [List.mem_cons, not_or] at h
    rw [splitLine, if_neg (Ne.symm h.1), ih h.2]

/-- The first line ends at the first line feed. -/
theorem splitLine_append_lineFeed (h : '\n' ∉ line) (rest : List Char) :
    splitLine (line ++ '\n' :: rest) = (line ++ ['\n'], rest) := by
  induction line with
  | nil => rfl
  | cons c line ih =>
    simp only [List.mem_cons, not_or] at h
    rw [List.cons_append, splitLine, if_neg (Ne.symm h.1), ih h.2]
    rfl

/-- The lines of a text are its first line and the lines of what follows. -/
theorem lines_of_ne_nil (h : text ≠ []) : lines text = (splitLine text).1 :: lines (splitLine text).2 := by
  cases text with
  | nil => exact absurd rfl h
  | cons c rest => rw [lines]

/-- A line with its line feed comes before the lines of what follows. -/
theorem lines_append_lineFeed (h : '\n' ∉ line) (rest : List Char) :
    lines (line ++ '\n' :: rest) = (line ++ ['\n']) :: lines rest := by
  rw [lines_of_ne_nil (by simp), splitLine_append_lineFeed h]

/-- What has no line feed is one line, unless it is empty. -/
theorem lines_of_not_mem (h : '\n' ∉ text) : lines text = if text = [] then [] else [text] := by
  by_cases htext : text = []
  · rw [htext, lines_nil, if_pos rfl]
  · rw [lines_of_ne_nil htext, splitLine_of_not_mem h, lines_nil, if_neg htext]

/-- The lines of a text that is made of lines with their line feeds and of a last line without one. -/
theorem lines_flatMap_append {complete : List (List Char)} {last : List Char}
    (h : ∀ line ∈ complete, '\n' ∉ line) (hlast : '\n' ∉ last) :
    lines (complete.flatMap (· ++ ['\n']) ++ last) =
      complete.map (· ++ ['\n']) ++ if last = [] then [] else [last] := by
  induction complete with
  | nil => simpa using lines_of_not_mem hlast
  | cons line complete ih =>
    obtain ⟨hline, hcomplete⟩ := List.forall_mem_cons.mp h
    rw [List.flatMap_cons, List.append_assoc, List.append_assoc, List.singleton_append,
      lines_append_lineFeed hline, ih hcomplete]
    rfl

/-- Every text is made of lines with their line feeds and of a last line without one. -/
theorem exists_eq_flatMap_append (text : List Char) :
    ∃ (complete : List (List Char)) (last : List Char), (∀ line ∈ complete, '\n' ∉ line) ∧
      '\n' ∉ last ∧ text = complete.flatMap (· ++ ['\n']) ++ last := by
  induction text with
  | nil => exact ⟨[], [], by simp⟩
  | cons c rest ih =>
    obtain ⟨complete, last, hcomplete, hlast, rfl⟩ := ih
    by_cases hc : c = '\n'
    · exact ⟨[] :: complete, last, by simpa using hcomplete, hlast, by simp [hc]⟩
    · cases complete with
      | nil => exact ⟨[], c :: last, by simp, by simpa [Ne.symm hc] using hlast, rfl⟩
      | cons line complete =>
        obtain ⟨hline, hmore⟩ := List.forall_mem_cons.mp hcomplete
        refine ⟨(c :: line) :: complete, last, ?_, hlast, rfl⟩
        exact List.forall_mem_cons.mpr ⟨by simpa [Ne.symm hc] using hline, hmore⟩

end Text

end Monkey
