import Mathlib.Logic.Function.Iterate
import Mathlib.Logic.Relation
import Monkey.Proofs.CursorText
import Monkey.Token.Request

/-!
# A cursor is the rest of its text

However a cursor is asked for characters and tokens, and however far past the end it is moved, it stays
on its text and never goes back. All that its answers depend on is the text from its position on: they
are the answers of a new cursor on that text. The tokens of this text are therefore handed out once
each and in order, in whatever portions they are asked for.
-/

namespace Monkey

namespace Cursor

variable {cursor other : Cursor} {p : Char → Bool} {c : Char}

/-! ## Moves -/

/-- A cursor reached by moving on by single characters. -/
def Leads : Cursor → Cursor → Prop := Relation.ReflTransGen fun cursor after => after = cursor.readChar

namespace Leads

theorem refl (cursor : Cursor) : cursor.Leads cursor := Relation.ReflTransGen.refl

theorem readChar (cursor : Cursor) : cursor.Leads cursor.readChar := .single rfl

theorem trans {last : Cursor} (h : cursor.Leads other) (h' : other.Leads last) : cursor.Leads last :=
  Relation.ReflTransGen.trans h h'

theorem skipWhile (p : Char → Bool) (cursor : Cursor) : cursor.Leads (cursor.skipWhile p) := by
  fun_induction Cursor.skipWhile p cursor with
  | case1 cursor c hch hp ih => exact (readChar cursor).trans ih
  | case2 | case3 => exact .refl _

theorem readLexeme (cursor : Cursor) (c : Char) : cursor.Leads (cursor.readLexeme c).2 := by
  unfold Cursor.readLexeme
  repeat' split
  · exact skipWhile _ _
  · exact skipWhile _ _
  all_goals first | exact readChar _ | exact (readChar _).trans (readChar _)

theorem nextToken (cursor : Cursor) : cursor.Leads cursor.nextToken.2 := by
  unfold Cursor.nextToken
  dsimp only
  split
  · exact skipWhile _ _
  · exact (skipWhile _ _).trans (readLexeme _ _)

theorem readAll (cursor : Cursor) : cursor.Leads cursor.readAll.2 := by
  fun_induction Cursor.readAll cursor with
  | case1 cursor next heof => exact nextToken cursor
  | case2 cursor next hgo following ih => exact (nextToken cursor).trans ih

theorem take (count : Nat) (cursor : Cursor) : cursor.Leads (cursor.take count).2 := by
  induction count generalizing cursor with
  | zero => exact refl cursor
  | succ count ih =>
    rw [Cursor.take]
    dsimp only
    split
    · exact nextToken cursor
    · exact (nextToken cursor).trans (ih _)

/-- Every request is met by moving on. -/
theorem respond (cursor : Cursor) (request : Request) : cursor.Leads (cursor.respond request).2 := by
  cases request with
  | readChar => exact readChar cursor
  | peekChar => exact refl cursor
  | nextToken => exact nextToken cursor
  | tokenize | iterate => exact readAll cursor
  | take count => exact take count cursor

theorem respondAll (requests : List Request) (cursor : Cursor) :
    cursor.Leads (cursor.respondAll requests).2 := by
  induction requests generalizing cursor with
  | nil => exact refl cursor
  | cons request requests ih => exact (respond cursor request).trans (ih _)

theorem valid (h : cursor.Leads other) (hvalid : cursor.Valid) : other.Valid := by
  induction h with
  | refl => exact hvalid
  | tail _ hstep ih => exact hstep ▸ ih.readChar

theorem source_eq (h : cursor.Leads other) : other.source = cursor.source := by
  induction h with
  | refl => rfl
  | tail _ hstep ih => exact hstep ▸ ih

/-- Moving on never goes back. -/
theorem position_le (h : cursor.Leads other) (hvalid : cursor.Valid) :
    cursor.position ≤ other.position := by
  induction h with
  | refl => exact Nat.le_refl _
  | @tail mid last hmid hstep ih =>
    have hread := (valid hmid hvalid).readPosition_eq
    have hle := (valid hmid hvalid).position_le
    subst hstep
    change cursor.position ≤ mid.readPosition
    omega

/-- Past the end of the text there is nothing to be read, however often it is tried. -/
theorem ch_eq_none (h : cursor.Leads other) (hvalid : cursor.Valid) (hch : cursor.ch = none) :
    other.ch = none := by
  have hle := h.position_le hvalid
  rw [hvalid.ch_eq, Array.getElem?_eq_none_iff] at hch
  rw [(h.valid hvalid).ch_eq, Array.getElem?_eq_none_iff, h.source_eq]
  omega

end Leads

/-! ## Answers -/

/-- The first token of a text, the end of input where there is none, and what follows it. -/
def firstToken (text : List Char) : Token × List Char := (scan text).getD (.endOfInput, [])

theorem firstToken_fst (text : List Char) :
    (firstToken text).1 = (tokens text).headD .endOfInput := by
  cases hscan : scan text with
  | none => simp [firstToken, hscan, tokens_of_scan_eq_none hscan]
  | some first => simp [firstToken, hscan, tokens_of_scan_eq_some hscan]

theorem tokens_firstToken_snd (text : List Char) :
    tokens (firstToken text).2 = (tokens text).tail := by
  cases hscan : scan text with
  | none => simp [firstToken, hscan, tokens_of_scan_eq_none hscan, tokens_nil]
  | some first => simp [firstToken, hscan, tokens_of_scan_eq_some hscan]

/-- Only the end of input has its kind. -/
theorem scan_eq_none_of_kind {text : List Char} (h : (firstToken text).1.kind = .eof) :
    scan text = none := by
  cases hscan : scan text with
  | none => rfl
  | some first =>
    have hmem : first.1 ∈ tokens text := by simp [tokens_of_scan_eq_some hscan]
    rw [firstToken, hscan, Option.getD_some] at h
    exact absurd h (spelled_of_mem_tokens first.1 hmem).kind_ne_eof

/-- Where the end of input is read nothing is left. -/
theorem firstToken_of_kind {text : List Char} (h : (firstToken text).1.kind = .eof) :
    firstToken text = (.endOfInput, []) := by
  rw [firstToken, scan_eq_none_of_kind h, Option.getD_none]

theorem tokens_of_kind {text : List Char} (h : (firstToken text).1.kind = .eof) : tokens text = [] :=
  tokens_of_scan_eq_none (scan_eq_none_of_kind h)

/-- A token that is not the end of input comes before those of what follows it. -/
theorem tokens_eq_cons {text : List Char} (h : (firstToken text).1.kind ≠ .eof) :
    tokens text = (firstToken text).1 :: tokens (firstToken text).2 := by
  cases hscan : scan text with
  | none => exact absurd (by rw [firstToken, hscan]; rfl) h
  | some first => simp [firstToken, hscan, tokens_of_scan_eq_some hscan]

/-- The answer to a request as the text that is left determines it, and the text that is left then. -/
def Request.onText (text : List Char) : Request → Answer × List Char
  | .readChar => (.done, text.tail)
  | .peekChar => (.char text.tail.head?, text)
  | .nextToken => (.token (firstToken text).1, (firstToken text).2)
  | .tokenize => (.tokens (tokens text ++ [.endOfInput]), [])
  | .iterate => (.tokens (tokens text), [])
  | .take count =>
    (.tokens ((tokens text).take count), (fun text => (firstToken text).2)^[count] text)

namespace Valid

theorem nextToken_eq (h : cursor.Valid) :
    cursor.nextToken.1 = (firstToken cursor.remaining).1 ∧
      cursor.nextToken.2.remaining = (firstToken cursor.remaining).2 := by
  have hnext := h.nextToken.2
  unfold firstToken
  cases hscan : scan cursor.remaining with
  | some first =>
    rw [hscan] at hnext
    exact hnext
  | none =>
    rw [hscan] at hnext
    refine ⟨hnext, ?_⟩
    -- Only blanks are left. The cursor skips them and stands past the text.
    have hskip := h.reads_skipWhile isBlank
    have hdrop : cursor.remaining.dropWhile isBlank = [] := by
      unfold scan at hscan
      split at hscan
      · assumption
      · cases hscan
    rw [hdrop] at hskip
    have hch := hskip.valid.head?_remaining
    rw [hskip.remaining_after, List.head?_nil] at hch
    unfold Cursor.nextToken
    simp only [← hch]
    exact hskip.remaining_after

theorem remaining_readAll (h : cursor.Valid) : cursor.readAll.2.remaining = [] := by
  fun_induction Cursor.readAll cursor with
  | case1 cursor next heof =>
    obtain ⟨htoken, hrest⟩ := h.nextToken_eq
    rw [htoken] at heof
    rw [hrest, firstToken_of_kind heof]
  | case2 cursor next hgo following ih => exact ih h.nextToken.1

theorem take_eq (h : cursor.Valid) (count : Nat) :
    (cursor.take count).1 = (tokens cursor.remaining).take count ∧
      (cursor.take count).2.remaining =
        (fun text => (firstToken text).2)^[count] cursor.remaining := by
  induction count generalizing cursor with
  | zero => exact ⟨rfl, rfl⟩
  | succ count ih =>
    obtain ⟨htoken, hrest⟩ := h.nextToken_eq
    rw [Cursor.take, Function.iterate_succ_apply]
    by_cases heof : cursor.nextToken.1.kind = .eof
    · -- Taking stops early here, where reading more tokens would change nothing.
      rw [if_pos heof]
      rw [htoken] at heof
      rw [hrest, tokens_of_kind heof, firstToken_of_kind heof]
      exact ⟨rfl, (Function.iterate_fixed rfl count).symm⟩
    · obtain ⟨hmore, hlast⟩ := ih h.nextToken.1
      rw [if_neg heof]
      rw [htoken] at heof
      rw [hrest] at hmore hlast
      rw [tokens_eq_cons heof, List.take_succ_cons, ← hmore, htoken]
      exact ⟨rfl, hlast⟩

/-- What a request is answered with and what it leaves is determined by the text that is left. -/
theorem respond (h : cursor.Valid) (request : Request) :
    (cursor.respond request).1 = (request.onText cursor.remaining).1 ∧
      (cursor.respond request).2.remaining = (request.onText cursor.remaining).2 := by
  cases request with
  | readChar => exact ⟨rfl, h.remaining_readChar⟩
  | peekChar => exact ⟨congrArg Answer.char h.peekChar_eq, rfl⟩
  | nextToken => exact ⟨congrArg Answer.token h.nextToken_eq.1, h.nextToken_eq.2⟩
  | tokenize =>
    refine ⟨congrArg Answer.tokens ?_, h.remaining_readAll⟩
    rw [tokenize, h.readAll_eq]
  | iterate => exact ⟨congrArg Answer.tokens h.readAll_eq, h.remaining_readAll⟩
  | take count => exact ⟨congrArg Answer.tokens (h.take_eq count).1, (h.take_eq count).2⟩

/-- Two cursors with the same text left answer alike, whatever they are asked for. -/
theorem respondAll_eq (h : cursor.Valid) (hother : other.Valid)
    (heq : cursor.remaining = other.remaining) (requests : List Request) :
    (cursor.respondAll requests).1 = (other.respondAll requests).1 := by
  induction requests generalizing cursor other with
  | nil => rfl
  | cons request requests ih =>
    obtain ⟨hanswer, hrest⟩ := h.respond request
    obtain ⟨hanswer', hrest'⟩ := hother.respond request
    rw [← heq] at hanswer' hrest'
    rw [Cursor.respondAll, Cursor.respondAll, hanswer, hanswer',
      ih ((Leads.respond cursor request).valid h) ((Leads.respond other request).valid hother)
        (hrest.trans hrest'.symm)]

end Valid

/-! ## Tokens that are handed out -/

/-- The tokens of the text that a cursor has left. -/
def tokensLeft (cursor : Cursor) : List Token := tokens cursor.remaining

/-- The tokens in an answer, without the end of input. -/
def Answer.delivered : Answer → List Token
  | done | char _ => []
  | token t => [t].filter fun t => decide (t.kind ≠ .eof)
  | tokens list => list.filter fun t => decide (t.kind ≠ .eof)

/-- Each request for tokens is answered with the first ones of those that are left, as many as it asks
for, and the others are left then. -/
structure HandsOut (cursor : Cursor) : Prop where
  nextToken : (cursor.respond .nextToken).1 = .token (cursor.tokensLeft.headD .endOfInput) ∧
    (cursor.respond .nextToken).2.tokensLeft = cursor.tokensLeft.tail
  tokenize : (cursor.respond .tokenize).1 = .tokens (cursor.tokensLeft ++ [.endOfInput]) ∧
    (cursor.respond .tokenize).2.tokensLeft = []
  iterate : (cursor.respond .iterate).1 = .tokens cursor.tokensLeft ∧
    (cursor.respond .iterate).2.tokensLeft = []
  take : ∀ count, (cursor.respond (.take count)).1 = .tokens (cursor.tokensLeft.take count) ∧
    (cursor.respond (.take count)).2.tokensLeft = cursor.tokensLeft.drop count

/-- Tokens that were left are all delivered, as none of them is the end of input. -/
theorem delivered_of_subset {list : List Token} (h : list ⊆ cursor.tokensLeft) :
    (Answer.tokens list).delivered = list :=
  List.filter_eq_self.mpr fun t ht =>
    decide_eq_true (spelled_of_mem_tokens t (h ht)).kind_ne_eof

/-- Reading tokens off a text one by one drops them. -/
theorem tokens_iterate_firstToken (count : Nat) (text : List Char) :
    tokens ((fun text => (firstToken text).2)^[count] text) = (tokens text).drop count := by
  induction count generalizing text with
  | zero => rfl
  | succ count ih =>
    rw [Function.iterate_succ_apply, ih, tokens_firstToken_snd, List.drop_tail]

namespace Valid

theorem handsOut (h : cursor.Valid) : cursor.HandsOut where
  nextToken := by
    obtain ⟨htoken, hrest⟩ := h.respond .nextToken
    rw [tokensLeft, tokensLeft, htoken, hrest]
    exact ⟨congrArg Answer.token (firstToken_fst _), tokens_firstToken_snd _⟩
  tokenize := by
    obtain ⟨htokens, hrest⟩ := h.respond .tokenize
    rw [tokensLeft, tokensLeft, htokens, hrest]
    exact ⟨rfl, tokens_nil⟩
  iterate := by
    obtain ⟨htokens, hrest⟩ := h.respond .iterate
    rw [tokensLeft, tokensLeft, htokens, hrest]
    exact ⟨rfl, tokens_nil⟩
  take count := by
    obtain ⟨htokens, hrest⟩ := h.respond (.take count)
    rw [tokensLeft, tokensLeft, htokens, hrest]
    exact ⟨rfl, tokens_iterate_firstToken count _⟩

/-- What is handed out comes before what is left. -/
theorem delivered_append (h : cursor.Valid) {request : Request} (hread : request ≠ .readChar) :
    (cursor.respond request).1.delivered ++ (cursor.respond request).2.tokensLeft =
      cursor.tokensLeft := by
  cases request with
  | readChar => exact absurd rfl hread
  | peekChar => rfl
  | nextToken =>
    rw [h.handsOut.nextToken.1, h.handsOut.nextToken.2]
    cases htokens : cursor.tokensLeft with
    | nil => rfl
    | cons t rest =>
      have hsubset : [t] ⊆ cursor.tokensLeft := by simp [htokens]
      have hfirst : (Answer.tokens [t]).delivered = [t] := delivered_of_subset hsubset
      exact congrArg (· ++ rest) hfirst
  | tokenize =>
    have hall : (Answer.tokens (cursor.tokensLeft ++ [.endOfInput])).delivered =
        (Answer.tokens cursor.tokensLeft).delivered := by
      simp [Answer.delivered]
    rw [h.handsOut.tokenize.1, h.handsOut.tokenize.2, List.append_nil, hall,
      delivered_of_subset (List.Subset.refl _)]
  | iterate =>
    rw [h.handsOut.iterate.1, h.handsOut.iterate.2, List.append_nil,
      delivered_of_subset (List.Subset.refl _)]
  | take count =>
    rw [(h.handsOut.take count).1, (h.handsOut.take count).2,
      delivered_of_subset (List.take_subset count _), List.take_append_drop]

/-- Over any number of requests for tokens, each token is delivered once and in order. -/
theorem flatMap_delivered_append (h : cursor.Valid) {requests : List Request}
    (hread : .readChar ∉ requests) :
    (cursor.respondAll requests).1.flatMap Answer.delivered ++
      (cursor.respondAll requests).2.tokensLeft = cursor.tokensLeft := by
  induction requests generalizing cursor with
  | nil => rfl
  | cons request requests ih =>
    obtain ⟨hfirst, hothers⟩ := not_or.mp (mt List.mem_cons.mpr hread)
    rw [Cursor.respondAll, List.flatMap_cons, List.append_assoc,
      ih ((Leads.respond cursor request).valid h) hothers, h.delivered_append (Ne.symm hfirst)]

end Valid

/-! ## The end of input -/

/-- A cursor on no character is at the end of input and stays where it is. -/
theorem nextToken_of_ch_eq_none (h : cursor.ch = none) : cursor.nextToken = (.endOfInput, cursor) := by
  have hskip : cursor.skipWhile isBlank = cursor := by
    rw [skipWhile]
    split
    · simp_all
    · rfl
  rw [nextToken, hskip]
  simp only [h]

/-- Once the end of input is read, the cursor stands on no character. -/
theorem Valid.ch_nextToken_eq_none (h : cursor.Valid) (heof : cursor.nextToken.1 = .endOfInput) :
    cursor.nextToken.2.ch = none := by
  obtain ⟨htoken, hrest⟩ := h.nextToken_eq
  have hkind : (firstToken cursor.remaining).1.kind = .eof := by rw [← htoken, heof]; rfl
  rw [← h.nextToken.1.head?_remaining, hrest, firstToken_of_kind hkind, List.head?_nil]

/-- Whatever a cursor on a text has been asked for, its fields agree with its place in the text; it goes
on without going back; it answers as a new cursor on the rest of the text does; and the tokens of this
rest are handed out once each and in order, up to the end of input, which is read for ever. -/
theorem requests_answered_from_rest (source : String) (earlier later : List Request) :
    let cursor := ((ofSource source).respondAll earlier).2
    let after := (cursor.respondAll later).2
    (cursor.position ≤ source.length + 1 ∧
      cursor.readPosition = min (cursor.position + 1) (source.length + 1) ∧
      cursor.ch = source.toList[cursor.position]?) ∧
    (cursor.position ≤ after.position ∧ (cursor.respond .peekChar).2 = cursor) ∧
    (cursor.respondAll later).1 =
      ((ofSource (String.ofList (source.toList.drop cursor.position))).respondAll later).1 ∧
    (cursor.tokensLeft = tokens (source.toList.drop cursor.position) ∧ cursor.HandsOut ∧
      (.readChar ∉ later →
        (cursor.respondAll later).1.flatMap Answer.delivered ++ after.tokensLeft =
          cursor.tokensLeft)) ∧
    ((cursor.respond .nextToken).1 = .token .endOfInput →
      ((cursor.respond .nextToken).2.respondAll later).2.respond .nextToken =
        (.token .endOfInput, ((cursor.respond .nextToken).2.respondAll later).2)) := by
  intro cursor after
  have hleads : (ofSource source).Leads cursor := Leads.respondAll earlier _
  have hvalid : cursor.Valid := hleads.valid (valid_ofSource source)
  have hsource : cursor.source = source.toList.toArray := hleads.source_eq
  have hsize : cursor.source.size = source.length := by
    rw [hsource, List.size_toArray, String.length_toList]
  have hremaining : cursor.remaining = source.toList.drop cursor.position := by
    rw [remaining, hsource]
  refine ⟨⟨hsize ▸ hvalid.position_le, hsize ▸ hvalid.readPosition_eq, ?_⟩,
    ⟨(Leads.respondAll later cursor).position_le hvalid, rfl⟩, ?_,
    ⟨congrArg tokens hremaining, hvalid.handsOut, hvalid.flatMap_delivered_append⟩, ?_⟩
  · rw [hvalid.ch_eq, hsource, List.getElem?_toArray]
  · refine hvalid.respondAll_eq (valid_ofSource _) ?_ later
    rw [remaining_ofSource, String.toList_ofList, hremaining]
  · intro heof
    have htoken : cursor.nextToken.1 = .endOfInput := Answer.token.inj heof
    have hch := (Leads.respondAll later cursor.nextToken.2).ch_eq_none hvalid.nextToken.1
      (hvalid.ch_nextToken_eq_none htoken)
    change (Answer.token (nextToken _).1, (nextToken _).2) = _
    rw [show (cursor.respond .nextToken).2 = cursor.nextToken.2 from rfl, nextToken_of_ch_eq_none hch]

/-- After two tokens of `f(1)` were taken, the other two are delivered; and once the end of input was
read, it is read again after moving past it. -/
theorem requests_for_call :
    ((((ofSource "f(1)").respondAll [.take 2, .peekChar]).2.respondAll [.nextToken, .iterate]).1.flatMap
        Answer.delivered ++
      (((ofSource "f(1)").respondAll [.take 2, .peekChar]).2.respondAll [.nextToken, .iterate]).2.tokensLeft =
      [⟨.int, "1"⟩, ⟨.rparen, ")"⟩]) ∧
    (((((ofSource "f(1)").respondAll [.iterate, .readChar]).2.respond .nextToken).2.respondAll
      [.readChar]).2.respond .nextToken).1 = .token .endOfInput := by
  have hleft : ((ofSource "f(1)").respondAll [.take 2, .peekChar]).2.tokensLeft =
      [⟨.int, "1"⟩, ⟨.rparen, ")"⟩] := by decide +kernel
  have heof : (((ofSource "f(1)").respondAll [.iterate, .readChar]).2.respond .nextToken).1 =
      .token .endOfInput := by decide +kernel
  refine ⟨?_, ?_⟩
  · have h := requests_answered_from_rest "f(1)" [.take 2, .peekChar] [.nextToken, .iterate]
    exact (h.2.2.2.1.2.2 (by decide)).trans hleft
  · have h := requests_answered_from_rest "f(1)" [.iterate, .readChar] [.readChar]
    exact congrArg Prod.fst (h.2.2.2.2 heof)

end Cursor

end Monkey
