/-!
# Line ends

Input may end its lines with a line feed, a carriage return or both; normalising makes each of
the three a line feed. Lines are then split after every line feed, which stays with its line,
and a last line without one counts as a line if it is not empty.
-/

namespace Monkey.Text

/-- Every carriage return, with the line feed that may follow it, becomes a line feed. -/
def normalizeNewlines : List Char → List Char
  | [] => []
  | '\r' :: '\n' :: rest => '\n' :: normalizeNewlines rest
  | c :: rest => (if c = '\r' then '\n' else c) :: normalizeNewlines rest

/-- The first line of a text, its line feed included, and what follows it. -/
def splitLine : List Char → List Char × List Char
  | [] => ([], [])
  | c :: rest =>
    if c = '\n' then ([c], rest)
    else
      let parts := splitLine rest
      (c :: parts.1, parts.2)

/-- The first line and the rest are the text. -/
theorem splitLine_append (text : List Char) : (splitLine text).1 ++ (splitLine text).2 = text := by
  induction text with
  | nil => rfl
  | cons c rest ih => by_cases h : c = '\n' <;> simp [splitLine, h, ih]

/-- What follows the first line is shorter than the text. -/
theorem length_splitLine_snd (c : Char) (rest : List Char) :
    (splitLine (c :: rest)).2.length < (c :: rest).length := by
  have happend := congrArg List.length (splitLine_append (c :: rest))
  have hline : 0 < (splitLine (c :: rest)).1.length := by
    by_cases h : c = '\n' <;> simp [splitLine, h]
  simp only [List.length_append] at happend
  omega

/-- The lines of a text, each with its line feed. -/
def lines (text : List Char) : List (List Char) :=
  match text with
  | [] => []
  | c :: rest =>
    let parts := splitLine (c :: rest)
    parts.1 :: lines parts.2
termination_by text.length
decreasing_by exact length_splitLine_snd c rest

/-- The lines of a text together are the text. -/
theorem flatten_lines (text : List Char) : (lines text).flatten = text := by
  fun_induction lines text with
  | case1 => rfl
  | case2 c rest parts ih => rw [List.flatten_cons, ih, splitLine_append]

end Monkey.Text
