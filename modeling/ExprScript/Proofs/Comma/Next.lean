import ExprScript.Proofs.Token.Sequence

/-! # The mark behind a place

Behind every place of a source there is trivia, and then a mark, unless the source ends.
The trivia is a single text, so that the mark is a single one as well. It is the mark that
the scanner finds there.
-/

namespace ExprScript

open Scanner

/-! ## Trivia is found in one way only -/

theorem append_unique_of_ends {ends : Char → Bool} {first second rest rest' : List Char}
    (goesOn : ∀ c ∈ first, ends c = false) (ended : ∀ c, rest.head? = some c → ends c = true)
    (goesOn' : ∀ c ∈ second, ends c = false) (ended' : ∀ c, rest'.head? = some c → ends c = true)
    (text : first ++ rest = second ++ rest') : first = second := by
  have taken : ∀ {first rest : List Char}, (∀ c ∈ first, ends c = false) →
      (∀ c, rest.head? = some c → ends c = true) →
        (first ++ rest).takeWhile (fun c => !ends c) = first := by
    intro first rest goesOn ended
    rw [List.takeWhile_append_of_pos fun c member => by rw [goesOn c member]; rfl]
    cases rest with
    | nil => exact List.append_nil first
    | cons c rest => rw [List.takeWhile_cons_of_neg (by simp [ended c rfl]), List.append_nil]
  rw [← taken goesOn ended, text, taken goesOn' ended']

private theorem comment_goes_no_further {comment more rest rest' : List Char}
    (unbroken : ¬ ['*', '/'] <:+: comment ++ more)
    (text : '*' :: '/' :: rest = more ++ '*' :: '/' :: rest') : more = [] := by
  match more with
  | [] => rfl
  | [c] =>
      rw [List.singleton_append] at text
      cases (List.cons.inj text).2
  | c :: d :: more =>
      cases text
      exact absurd ⟨comment, more, by simp⟩ unbroken

theorem comment_unique {comment comment' rest rest' : List Char}
    (unbroken : ¬ ['*', '/'] <:+: comment) (unbroken' : ¬ ['*', '/'] <:+: comment')
    (text : comment ++ '*' :: '/' :: rest = comment' ++ '*' :: '/' :: rest') :
    comment = comment' := by
  rcases List.append_eq_append_iff.mp text with ⟨more, rfl, text'⟩ | ⟨more, rfl, text'⟩
  · rw [comment_goes_no_further unbroken' text', List.append_nil]
  · rw [comment_goes_no_further unbroken text', List.append_nil]

theorem Trivia.eq_nil {gap follow : List Char} (trivia : Trivia gap follow)
    (noTrivia : NoTrivia (gap ++ follow)) : gap = [] := by
  cases trivia with
  | none => rfl
  | blank isBlank => cases isBlank.symm.trans (noTrivia _ rfl).1
  | line => exact absurd rfl ((noTrivia '/' rfl).2 rfl).1
  | block => exact absurd rfl ((noTrivia '/' rfl).2 rfl).2

theorem Trivia.unique {gap gap' follow follow' : List Char} (trivia : Trivia gap follow)
    (noTrivia : NoTrivia follow) (trivia' : Trivia gap' follow') (noTrivia' : NoTrivia follow')
    (text : gap ++ follow = gap' ++ follow') : gap = gap' := by
  have notBlank : Text.isBlank '/' = false := by decide
  induction trivia generalizing gap' with
  | none => exact (trivia'.eq_nil (text ▸ noTrivia)).symm
  | blank isBlank later induction =>
      cases trivia' with
      | none => exact Trivia.eq_nil (.blank isBlank later) (text ▸ noTrivia')
      | blank isBlank' later' =>
          rcases List.cons.inj text with ⟨rfl, text'⟩
          exact congrArg _ (induction noTrivia later' text')
      | line =>
          cases (List.cons.inj text).1
          cases isBlank.symm.trans notBlank
      | block =>
          cases (List.cons.inj text).1
          cases isBlank.symm.trans notBlank
  | line oneLine ended later induction =>
      cases trivia' with
      | none => exact Trivia.eq_nil (.line oneLine ended later) (text ▸ noTrivia')
      | blank isBlank' =>
          cases (List.cons.inj text).1
          cases isBlank'.symm.trans notBlank
      | line oneLine' ended' later' =>
          simp only [List.cons_append, List.append_assoc, List.cons.injEq, true_and] at text
          cases append_unique_of_ends oneLine ended oneLine' ended' text
          rw [induction noTrivia later' (List.append_cancel_left text)]
      | block => cases (List.cons.inj (List.cons.inj text).2).1
  | block unbroken later induction =>
      cases trivia' with
      | none => exact Trivia.eq_nil (.block unbroken later) (text ▸ noTrivia')
      | blank isBlank' =>
          cases (List.cons.inj text).1
          cases isBlank'.symm.trans notBlank
      | line => cases (List.cons.inj (List.cons.inj text).2).1
      | block unbroken' later' =>
          simp only [List.cons_append, List.append_assoc, List.cons.injEq, true_and] at text
          cases comment_unique unbroken unbroken' text
          have follows := List.append_cancel_left text
          simp only [List.cons.injEq, true_and] at follows
          rw [induction noTrivia later' follows]

/-! ## The next mark -/

/-- Behind an offset of the source comes a mark, which stops at another offset. Nothing but trivia
lies before it, and it does not start a comment. -/
def Next (source : List Char) (offset : Nat) (mark : Char) (stop : Nat) : Prop :=
  ∃ passed gap rest, source = passed ++ (gap ++ mark :: rest) ∧ offset = byteSize passed ∧
    stop = byteSize (passed ++ gap ++ [mark]) ∧ Trivia gap (mark :: rest) ∧
      NoTrivia (mark :: rest)

namespace Next

variable {source : List Char} {offset stop : Nat} {mark : Char}

theorem unique {mark' : Char} {stop' : Nat} (next : Next source offset mark stop)
    (next' : Next source offset mark' stop') : mark' = mark ∧ stop' = stop := by
  rcases next with ⟨passed, gap, rest, rfl, rfl, rfl, trivia, noTrivia⟩
  rcases next' with ⟨passed', gap', rest', text, size, rfl, trivia', noTrivia'⟩
  have follows : gap ++ mark :: rest = gap' ++ mark' :: rest' := by
    have dropped := dropBytes_append passed (gap ++ mark :: rest)
    rw [text, size, dropBytes_append] at dropped
    exact dropped.symm
  rw [follows] at text
  cases List.append_cancel_right text
  cases trivia.unique noTrivia trivia' noTrivia' follows
  cases List.append_cancel_left follows
  exact ⟨rfl, rfl⟩

end Next

def FollowedBy (source : List Char) (offset : Nat) (mark : Char) (stop : Nat) : Prop :=
  ∀ mark' stop', Next source offset mark' stop' ↔ mark' = mark ∧ stop' = stop

theorem Next.followedBy {source : List Char} {offset stop : Nat} {mark : Char}
    (next : Next source offset mark stop) : FollowedBy source offset mark stop := by
  intro mark' stop'
  constructor
  · exact next.unique
  · rintro ⟨rfl, rfl⟩
    exact next

/-! ## The scanner finds the next mark -/

structure Punctuator.Is (mark : Punctuator) (c : Char) : Prop where
  toList_eq : mark.spelling.toList = [c]

namespace Scanner

theorem Branch.single {start : Position} {first : Char} {before after : Scanner} {lexeme : Lexeme}
    (branch : Branch start first before lexeme after) {mark : Punctuator} {c : Char}
    (isMark : lexeme.1 = .punctuator mark) (spelled : mark.Is c)
    (noTrivia : NoTrivia before.cursor.rest) : ∃ rest, before.cursor.rest = c :: rest ∧
      after.cursor.position.offset = before.cursor.position.offset + byteSize [c] := by
  cases branch with
  | string => cases isMark
  | opening => split at isMark <;> cases isMark
  | resumption => split at isMark <;> cases isMark
  | number => cases isMark
  | name _ run =>
      rcases Reader.readName_kind _ _ _ _ run with rfl | ⟨word, rfl⟩ <;> cases isMark
  | punctuator noHole found run =>
      cases isMark
      have starts := List.find?_some found
      simp only [Bool.and_eq_true, List.isPrefixOf_iff_prefix, spelled.toList_eq] at starts
      rcases starts.1 with ⟨rest, text⟩
      have single : mark.spelling.length = 1 := by
        rw [← String.length_toList, spelled.toList_eq]
        rfl
      rw [single] at run
      cases run
      have notReturn : c ≠ '\r' := by
        rintro rfl
        cases (noTrivia '\r' (text ▸ rfl)).1
      have behind := Reader.rest_advance_of_ne text.symm notReturn
      rcases Cursor.leads_advance before.cursor with ⟨passed, text', offset⟩
      rw [behind, ← text] at text'
      cases List.append_cancel_right text'
      exact ⟨rest, text.symm, offset⟩

/-- A token that is a single character is the next mark, from where the scanner was and from where
the token starts. -/
theorem next_finds (before : Scanner) (placed : before.Placed) :
    Ensures next before fun token after => after.source = before.source ∧ after.Placed ∧
      after.cursor.position.offset = token.span.stop.offset ∧
      ∀ mark c, token.kind = .punctuator mark → mark.Is c →
        FollowedBy before.source before.cursor.position.offset c token.span.stop.offset ∧
        FollowedBy before.source token.span.start.offset c token.span.stop.offset := by
  refine .bind (read_ensures.mono ?_)
  intro newline middle ⟨run, same⟩
  have skips := Reader.skipTrivia_skips _ _ _ run
  have noTrivia : NoTrivia middle.cursor.rest := skipTrivia_ensures _ _ _ run
  have placed' : middle.Placed := placed.of_leads ⟨same ▸ rfl, skips.leads⟩
  refine .get ?_
  dsimp only
  split
  · exact .pure ⟨same ▸ rfl, placed', rfl, nofun⟩
  · next first head =>
      refine .bind (((scanLexeme_branch _ first middle).both
        (scanLexeme_advances head _).ensures).mono ?_)
      intro lexeme after ⟨branch, passes⟩
      refine .get (.ite (fun _ => .bind (.throw _)) fun _ => .pure ?_)
      refine ⟨passes.source.trans (same ▸ rfl), placed'.of_leads passes.leads, rfl, ?_⟩
      intro mark c isMark spelled
      rcases branch.single isMark spelled noTrivia with ⟨rest, text, size⟩
      rcases skips with ⟨gap, text', offset, trivia⟩
      rcases placed with ⟨passed, source, place⟩
      rw [text] at text' noTrivia trivia
      rw [text'] at source
      rw [place, ← byteSize_append] at offset
      have stop : after.cursor.position.offset = byteSize (passed ++ gap ++ [c]) := by
        rw [byteSize_append, ← offset]
        exact size
      constructor
      · exact Next.followedBy ⟨passed, gap, rest, source, place, stop, trivia, noTrivia⟩
      · apply Next.followedBy
        refine ⟨passed ++ gap, [], rest, ?_, offset, ?_, .none, noTrivia⟩
        · rw [source, List.append_assoc, List.nil_append]
        · rw [List.append_nil]
          exact stop

end Scanner

end ExprScript
