import Monkey.Proofs.Extension
import Monkey.Proofs.Printed

/-!
# Completing what was read in part

A phrase of which only the first tokens were read can be completed: there are tokens that make a phrase
of them, whatever comes next, as long as that does not go on with an expression. A parse fails inside
several phrases at once, and the tokens that complete the innermost one are followed by those that
close the phrases around it. None of these tokens goes on with the expression before it, so what was
read in full stays as it was.
-/

namespace Monkey

/-- A token of a kind that a completion is made of: a name, or the only spelling of the kind. -/
def Token.sample (kind : TokenKind) : Token :=
  if kind = .ident then ⟨.ident, "x"⟩ else kind.token

/-- A sample is spelled as its kind requires, for every kind that has one. -/
theorem Token.spelled_sample {kind : TokenKind} (h : kind = .ident ∨ kind.spelling ≠ "") :
    (Token.sample kind).Spelled := by
  by_cases hident : kind = .ident
  · subst hident
    exact ⟨by decide, rfl⟩
  · rw [sample, if_neg hident]
    cases kind <;> first | rfl | simp_all [TokenKind.spelling]

namespace Derivation

/-- A condition on the tokens of an input and those that are left after its first part. -/
abbrev Phrase := List Token → List Token → Prop

/-- Tokens that do not go on with an expression before them. -/
def Uncontinued (tail : List Token) : Prop := ¬ (TokenStream.cur tail).kind.ContinuesExpression

theorem uncontinued_append {front tail : List Token} (hfront : Uncontinued front)
    (htail : Uncontinued tail) : Uncontinued (front ++ tail) := by
  cases front with
  | nil => exact htail
  | cons t rest => exact hfront

theorem uncontinued_braces (n : Nat) : Uncontinued (braces n) := by
  cases n with
  | zero => exact (by decide : ¬ (TokenKind.eof).ContinuesExpression)
  | succ n => exact (by decide : ¬ (TokenKind.rbrace).ContinuesExpression)

/-- Kinds of tokens that complete a phrase or close the ones around it. -/
def Closing (kinds : List TokenKind) : Prop :=
  (∀ kind ∈ kinds, kind = .ident ∨ kind.spelling ≠ "") ∧ ¬ (kinds.headD .eof).ContinuesExpression

instance (kinds : List TokenKind) : Decidable (Closing kinds) := inferInstanceAs (Decidable (_ ∧ _))

theorem allSpelled_samples {kinds : List TokenKind}
    (h : ∀ kind ∈ kinds, kind = .ident ∨ kind.spelling ≠ "") : AllSpelled (kinds.map .sample) := by
  intro t ht
  obtain ⟨kind, hkind, rfl⟩ := List.mem_map.mp ht
  exact Token.spelled_sample (h kind hkind)

theorem Closing.uncontinued {kinds : List TokenKind} (h : Closing kinds) :
    Uncontinued (kinds.map .sample) := by
  cases kinds with
  | nil => exact h.2
  | cons kind rest =>
    have hkind : (Token.sample kind).kind = kind := by
      by_cases hident : kind = .ident <;> simp [Token.sample, hident]
    have hstart : ¬ (Token.sample kind).kind.ContinuesExpression := by
      rw [hkind]
      exact h.2
    exact hstart

/-- A phrase has been read up to the tokens that are unread. With the completion in the place of these
it is a phrase before any tokens that do not go on with it. -/
structure Completes (phrase : Phrase) (input unread front completion : List Token) : Prop where
  eq : input = front ++ unread
  spelled : AllSpelled completion
  starts : front = [] → Uncontinued completion
  complete : ∀ tail, Uncontinued tail → phrase (front ++ (completion ++ tail)) tail

/-- What has been read of a phrase can be completed. -/
def Completable (phrase : Phrase) (input unread : List Token) : Prop :=
  ∃ front completion, Completes phrase input unread front completion

variable {phrase first second : Phrase} {input mid unread front completion : List Token} {n : Nat}

/-- A completed phrase can come in the place of the one that was read in part. -/
theorem Completes.replaces (h : Completes phrase input unread front completion) {tail : List Token}
    (htail : Uncontinued tail) : Replaces (front ++ (completion ++ tail)) input := by
  cases front with
  | nil =>
    have hstart : Uncontinued (completion ++ tail) := uncontinued_append (h.starts rfl) htail
    exact .inr hstart
  | cons t rest =>
    rw [h.eq]
    exact .inl rfl

/-- Of a phrase that is missing nothing has been read. -/
theorem completable_missing (kinds : List TokenKind) (hkinds : Closing kinds)
    (h : ∀ tail, Uncontinued tail → phrase (kinds.map .sample ++ tail) tail) :
    Completable phrase input input :=
  ⟨[], kinds.map .sample, rfl, (allSpelled_samples hkinds.1), fun _ => hkinds.uncontinued, h⟩

/-- Of a phrase that nothing but the first token has been read of everything else is missing. -/
theorem completable_first {stream : List Token} {kind : TokenKind}
    (hcur : (TokenStream.cur stream).kind = kind) (hkind : kind ≠ .eof) (kinds : List TokenKind)
    (hkinds : ∀ kind ∈ kinds, kind = .ident ∨ kind.spelling ≠ "")
    (h : ∀ tail, Uncontinued tail → phrase (TokenStream.cur stream :: (kinds.map .sample ++ tail)) tail) :
    Completable phrase stream (TokenStream.advance stream) :=
  ⟨[TokenStream.cur stream], kinds.map .sample,
    TokenStream.eq_cons_of_cur stream (by rwa [hcur]), allSpelled_samples hkinds, by simp, h⟩

/-- A phrase that has been read in full is completed by closing the blocks that it leaves open. -/
theorem Extends.completable (h : Extends phrase input unread front n) :
    Completable phrase input unread := by
  refine ⟨front, braces n, h.eq, fun t ht => ?_, fun _ => uncontinued_braces n, fun tail htail => ?_⟩
  · rw [List.eq_of_mem_replicate ht]
    rfl
  · exact h.extend tail (.inr htail)

/-- The first token of a phrase comes before what has been read of the rest. -/
theorem Completable.head {stream : List Token} {kind : TokenKind}
    (hcur : (TokenStream.cur stream).kind = kind) (hkind : kind ≠ .eof)
    (h : Completable (fun input after => phrase (TokenStream.cur stream :: input) after)
      (TokenStream.advance stream) unread) : Completable phrase stream unread := by
  obtain ⟨front, completion, h⟩ := h
  refine ⟨TokenStream.cur stream :: front, completion, ?_, h.spelled, by simp, h.complete⟩
  rw [List.cons_append, ← h.eq]
  exact TokenStream.eq_cons_of_cur stream (by rwa [hcur])

/-- A phrase that has been read in part is closed by further tokens. -/
theorem Completable.close (h : Completable first input unread) (kinds : List TokenKind)
    (hkinds : Closing kinds)
    (hstep : ∀ input tail, Uncontinued tail → first input (kinds.map .sample ++ tail) →
      phrase input tail) :
    Completable phrase input unread := by
  obtain ⟨front, completion, h⟩ := h
  refine ⟨front, completion ++ kinds.map .sample, h.eq, ?_, ?_, fun tail htail => ?_⟩
  · exact List.forall_mem_append.mpr ⟨h.spelled, (allSpelled_samples hkinds.1)⟩
  · exact fun hfront => uncontinued_append (h.starts hfront) hkinds.uncontinued
  · rw [List.append_assoc completion]
    exact hstep _ tail htail (h.complete _ (uncontinued_append hkinds.uncontinued htail))

theorem Completable.map (h : Completable first input unread)
    (hstep : ∀ input tail, first input tail → phrase input tail) : Completable phrase input unread :=
  h.close [] (by decide) fun input tail _ hfirst => hstep input tail hfirst

/-- A phrase that has been read in full comes before one that has been read in part. -/
theorem Completable.append (hfirst : Extends first input mid front n)
    (hsecond : Completable second mid unread)
    (hstep : ∀ input mid after, first input mid → second mid after → phrase input after) :
    Completable phrase input unread := by
  obtain ⟨back, completion, hsecond⟩ := hsecond
  -- At the end of input nothing more is read, and before it no block is left open.
  have hopen : n = 0 ∨ back = [] := by
    by_cases hmid : mid = []
    · have heq := hsecond.eq
      rw [hmid, eq_comm, List.append_eq_nil_iff] at heq
      exact .inr heq.1
    · exact .inl (hfirst.closed hmid)
  refine ⟨front ++ back, braces n ++ completion, ?_, ?_, ?_, fun tail htail => ?_⟩
  · rw [hfirst.eq, hsecond.eq, List.append_assoc]
  · refine List.forall_mem_append.mpr ⟨fun t ht => ?_, hsecond.spelled⟩
    rw [List.eq_of_mem_replicate ht]
    rfl
  · intro hnil
    exact uncontinued_append (uncontinued_braces n)
      (hsecond.starts (List.append_eq_nil_iff.mp hnil).2)
  · have hback := hfirst.extend _ (hsecond.replaces htail)
    have htokens : front ++ back ++ (braces n ++ completion ++ tail) =
        front ++ (braces n ++ (back ++ (completion ++ tail))) := by
      rcases hopen with rfl | rfl
      · simp [braces]
      · simp
    rw [htokens]
    exact hstep _ _ _ hback (hsecond.complete tail htail)

end Derivation

end Monkey
