import Mathlib.Data.List.TakeWhile
import Monkey.Command.Run
import Monkey.Proofs.LineEnds
import Monkey.Proofs.PrintableText

/-!
# A token dump is read back line by line

The name of a kind has no space in it and a quoted text starts with its mark, so the spaces of a line, however
many there are, separate the two; and different kinds have different names. Everything in a line is printable,
as a character that is not is escaped, and no character that ends a line is printable. So a dump has one line
for each token, whatever the texts of the tokens are, and the tokens are read off the lines.
-/

namespace Monkey

namespace TokenKind

theorem ne_space_of_mem_name (kind : TokenKind) : ∀ c ∈ kind.name.toList, (c != ' ') = true := by
  have hall : kind.name.toList.all (· != ' ') = true := by cases kind <;> decide
  exact List.all_eq_true.mp hall

/-- The kind with a name. -/
def named? (name : List Char) : Option TokenKind := all.find? fun kind => kind.name.toList == name

/-- Different kinds have different names. -/
theorem named?_name (kind : TokenKind) : named? kind.name.toList = some kind := by
  cases kind <;> decide

end TokenKind

namespace Command

/-! ## Lines of tokens -/

/-- The line of a token without its line feed: the name of the kind, spaces and the quoted text. -/
def tokenText (t : Token) : List Char :=
  t.kind.name.toList ++
    (List.replicate (12 - t.kind.name.length + 1) ' ' ++ Text.Quoted.encode t.literal.toList)

theorem toList_tokenLine (t : Token) : (tokenLine t).toList = tokenText t ++ ['\n'] := by
  simp [tokenLine, tokenText, padRight, Text.quoted, List.replicate_succ']

theorem printable_tokenText (t : Token) : Text.Printable (tokenText t) := by
  rw [tokenText, Text.printable_append, Text.printable_append]
  exact ⟨t.kind.printable_name, Text.printable_replicate (by decide) _, Text.Quoted.printable_encode _⟩

/-- The token of a line with its line feed. -/
def readTokenLine (line : List Char) : Option Token := do
  let kind ← TokenKind.named? (line.takeWhile (· != ' '))
  let found ← Text.Quoted.read ((line.dropWhile (· != ' ')).dropWhile (· == ' '))
  if found.2 = ['\n'] then some ⟨kind, String.ofList found.1⟩ else none

/-- The name of the kind ends at the first space. -/
theorem takeWhile_tokenLine (t : Token) :
    (tokenLine t).toList.takeWhile (· != ' ') = t.kind.name.toList := by
  rw [toList_tokenLine, tokenText, List.append_assoc, List.takeWhile_append_of_pos t.kind.ne_space_of_mem_name,
    List.replicate_succ, List.cons_append, List.cons_append, List.takeWhile_cons_of_neg (by decide),
    List.append_nil]

/-- The quoted text starts after the spaces. -/
theorem dropWhile_tokenLine (t : Token) :
    ((tokenLine t).toList.dropWhile (· != ' ')).dropWhile (· == ' ') =
      Text.Quoted.encode t.literal.toList ++ ['\n'] := by
  have hspaces : ∀ c ∈ List.replicate (12 - t.kind.name.length + 1) ' ', (c == ' ') = true := by
    intro c hc
    simp [List.eq_of_mem_replicate hc]
  have hmark : ¬ (Text.Quoted.mark t.literal.toList == ' ') = true := by
    rcases Text.Quoted.mark_cases t.literal.toList with h | h <;> rw [h] <;> decide
  rw [toList_tokenLine, tokenText, List.append_assoc, List.dropWhile_append_of_pos t.kind.ne_space_of_mem_name]
  -- The first space already ends the name, and is dropped with the others.
  have hfirst : ∀ rest : List Char, (List.replicate (12 - t.kind.name.length + 1) ' ' ++ rest).dropWhile
      (· != ' ') = List.replicate (12 - t.kind.name.length + 1) ' ' ++ rest := fun _ => rfl
  rw [List.append_assoc, hfirst, List.dropWhile_append_of_pos hspaces, Text.Quoted.encode, List.cons_append,
    List.cons_append]
  exact List.dropWhile_cons_of_neg hmark

/-- A token is read off its line. -/
theorem readTokenLine_tokenLine (t : Token) : readTokenLine (tokenLine t).toList = some t := by
  rw [readTokenLine, takeWhile_tokenLine, dropWhile_tokenLine, TokenKind.named?_name,
    Text.Quoted.read_encode_append]
  simp

/-! ## Dumps -/

/-- The tokens of a dump. -/
def readTokenDump (output : String) : Option (List Token) :=
  (Text.lines output.toList).mapM readTokenLine

/-- A dump has one line for each token. -/
theorem lines_tokenDump (listed : List Token) :
    Text.lines (String.join (listed.map tokenLine)).toList =
      listed.map fun t => tokenText t ++ ['\n'] := by
  have hchars : (String.join (listed.map tokenLine)).toList =
      (listed.map tokenText).flatMap (· ++ ['\n']) ++ [] := by
    simp only [String.toList_join, List.flatMap_map, toList_tokenLine, List.append_nil]
  have hfeeds : ∀ line ∈ listed.map tokenText, '\n' ∉ line := by
    intro line hline
    obtain ⟨t, -, rfl⟩ := List.mem_map.mp hline
    exact (printable_tokenText t).lineFeed_not_mem
  rw [hchars, Text.lines_flatMap_append hfeeds List.not_mem_nil, if_pos rfl, List.append_nil, List.map_map]
  rfl

/-- The tokens of a dump are those that were dumped. -/
theorem readTokenDump_tokenDump (listed : List Token) :
    readTokenDump (String.join (listed.map tokenLine)) = some listed := by
  rw [readTokenDump, lines_tokenDump]
  induction listed with
  | nil => rfl
  | cons t rest ih =>
    have ht := readTokenLine_tokenLine t
    rw [toList_tokenLine] at ht
    rw [List.map_cons, List.mapM_cons, ht, ih]
    rfl

end Command

end Monkey
