import ExprScript.Proofs.Token.Lexing
import ExprScript.Proofs.Token.Tiling

/-! # The tokens of a whole text

The tokens of a text are those that the scanner returns one after the other until it
returns the end. A text that is a single token is read without trivia around it.
-/

namespace ExprScript.Scanner

open Reader

/-! ## One token -/

/-- How a token is read, and what becomes of the open braces: one case for each
branch of the scanner. -/
inductive Branch (start : Position) (first : Char) (before : Scanner) : Lexeme → Scanner → Prop
  | string {contents : String} {octal : Bool} {cursor : Cursor}
      (isQuote : first = '\x22' ∨ first = '\x27')
      (run : readString start before.cursor = .ok (contents, octal) cursor) :
      Branch start first before (.stringLiteral, .text contents, octal) { before with cursor }
  | opening {piece : TemplatePiece} {cursor : Cursor} (isQuote : first = '\x60')
      (run : (do Reader.skip; readTemplatePiece start : Reader TemplatePiece) before.cursor =
        .ok piece cursor) :
      Branch start first before
        (.piece (if piece.opensHole then .templateHead else .noSubstitutionTemplate)
          piece.cooked piece.raw)
        { before with
          cursor, braces := if piece.opensHole then .hole :: before.braces else before.braces }
  | resumption {piece : TemplatePiece} {cursor : Cursor} (isBrace : first = '\x7d')
      (inHole : before.braces.head? = some .hole)
      (run : (do Reader.skip; readTemplatePiece start : Reader TemplatePiece) before.cursor =
        .ok piece cursor) :
      Branch start first before
        (.piece (if piece.opensHole then .templateMiddle else .templateTail)
          piece.cooked piece.raw)
        { before with
          cursor, braces := if piece.opensHole then before.braces else before.braces.tail }
  | number {number : Float} {octal : Bool} {cursor : Cursor}
      (starts : first.isDigit = true ∨
        first = '.' ∧ before.cursor.peekSecond?.any Char.isDigit = true)
      (run : readNumeral start before.cursor = .ok (number, octal) cursor) :
      Branch start first before (.numericLiteral, .number number, octal) { before with cursor }
  | name {kind : TokenKind} {name : String} {cursor : Cursor}
      (starts : Text.isNameStart first = true ∨ first = '\\')
      (run : readName start before.cursor = .ok (kind, name) cursor) :
      Branch start first before (kind, .text name, false) { before with cursor }
  | punctuator {mark : Punctuator} {cursor : Cursor}
      (noHole : first = '\x7d' → before.braces.head? ≠ some .hole)
      (found : punctuatorOf? before.cursor.rest = some mark)
      (run : skipMany mark.spelling.length before.cursor = .ok () cursor) :
      Branch start first before (.mark mark)
        { before with cursor, braces := bracesAfter mark before.braces }

theorem scanTemplate_branch (start : Position) (withHole withoutHole : TokenKind)
    (before : Scanner) : Ensures (scanTemplate start withHole withoutHole) before
      fun result after => ∃ (piece : TemplatePiece) (cursor : Cursor),
        (do Reader.skip; readTemplatePiece start : Reader TemplatePiece) before.cursor =
          .ok piece cursor ∧
        result = (if piece.opensHole then withHole else withoutHole,
          .template piece.cooked piece.raw) ∧
        after = { before with
          cursor, braces := if piece.opensHole then .hole :: before.braces else before.braces } := by
  refine .bind (read_ensures.mono ?_)
  rintro piece middle ⟨run, same⟩
  refine .ite (fun opens => .modify (.pure ⟨piece, middle.cursor, run, ?_, ?_⟩)) fun closes =>
    .pure ⟨piece, middle.cursor, run, ?_, ?_⟩
  · rw [if_pos opens]
  · rw [if_pos opens, same]
  · rw [if_neg closes]
  · rw [if_neg closes, same]

theorem noteBrace_ensures (mark : Punctuator) (before : Scanner) :
    Ensures (noteBrace mark) before fun _ after =>
      after = { before with braces := bracesAfter mark before.braces } := by
  intro _ after run
  cases run
  cases mark <;> rfl

theorem scanLexeme_branch (start : Position) (first : Char) (before : Scanner) :
    Ensures (scanLexeme start first) before (Branch start first before) := by
  refine .get ?_
  refine .ite (fun isQuote => ?_) fun _ => .ite (fun isQuote => ?_) fun _ =>
    .ite (fun resumes => ?_) fun noHole => .ite (fun starts => ?_) fun _ =>
    .ite (fun starts => ?_) fun _ => ?_
  · refine .bind (read_ensures.mono ?_)
    rintro ⟨contents, octal⟩ after ⟨run, same⟩
    refine .pure ?_
    rw [same]
    exact .string (by simpa using isQuote) run
  · refine .bind ((scanTemplate_branch start _ _ before).mono ?_)
    rintro - - ⟨piece, cursor, run, rfl, rfl⟩
    exact .pure (.opening (by simpa using isQuote) run)
  · simp only [Bool.and_eq_true, beq_iff_eq] at resumes
    refine .set (.bind ((scanTemplate_branch start _ _ _).mono ?_))
    rintro - - ⟨piece, cursor, run, rfl, rfl⟩
    have opened : .hole :: before.braces.tail = before.braces :=
      List.cons_head?_tail resumes.2
    refine .pure ?_
    dsimp only at run ⊢
    rw [opened]
    exact .resumption resumes.1 resumes.2 run
  · refine .bind (read_ensures.mono ?_)
    rintro ⟨number, octal⟩ after ⟨run, same⟩
    refine .pure ?_
    rw [same]
    exact .number (by simpa using starts) run
  · refine .bind (read_ensures.mono ?_)
    rintro ⟨kind, name⟩ after ⟨run, same⟩
    refine .pure ?_
    rw [same]
    exact .name (by simpa using starts) run
  · refine .bind (.get ?_)
    dsimp only
    split
    · next mark found =>
        refine .bind (read_ensures.mono ?_)
        rintro ⟨⟩ middle ⟨run, same⟩
        refine .bind ((noteBrace_ensures mark middle).mono ?_)
        rintro - - rfl
        refine .pure (.pure ?_)
        rw [same]
        exact .punctuator (by simpa using noHole) found run
    · exact .throw _

/-- What a call of the scanner does, with the way in which the token is read. -/
theorem next_branch (before : Scanner) : Ensures next before fun token after =>
    token.kind ≠ .endOfInput → ∃ cursor first, before.cursor.Leads cursor ∧
      cursor.peek? = some first ∧ token.raw = cursor.textUntil after.cursor ∧
      Branch cursor.position first { before with cursor }
        (token.kind, token.payload, token.octal) after := by
  refine .bind (read_ensures.mono ?_)
  rintro newline middle ⟨run, same⟩
  have leads := skipTrivia_forward.ensures _ _ _ run
  refine .get ?_
  dsimp only
  split
  · exact .pure fun notEnd => absurd rfl notEnd
  · next first head =>
      refine .bind ((scanLexeme_branch _ first middle).mono fun lexeme after branch => ?_)
      refine .get (.ite (fun _ => .bind (.throw _)) fun _ => .pure fun _ => ?_)
      exact ⟨middle.cursor, first, leads, head, rfl, same ▸ branch⟩

/-! ## All tokens -/

variable {before middle last : Scanner} {token : Token} {tokens : List Token}

theorem Scanned.snoc (scanned : Scanned before tokens middle)
    (run : next middle = .ok token last) (notEnd : token.kind ≠ .endOfInput) :
    Scanned before (tokens ++ [token]) last := by
  induction scanned with
  | none => exact .token run notEnd .none
  | token first notEnd' _ induction => exact .token first notEnd' (induction run)

def collect (reversed : List Token) : Scan (Round (List Token) (List Token)) := do
  let token ← next
  if token.kind == .endOfInput then return .done reversed
  else return .again (token :: reversed)

/-- The tokens of a text are returned by calls of the scanner, and the last call
returns the end. -/
theorem allTokens_scanned (before : Scanner) : Ensures allTokens before fun tokens final =>
    ∃ last token, Scanned before tokens last ∧ next last = .ok token final ∧
      token.kind = .endOfInput := by
  apply Ensures.get
  apply Ensures.bind
  let reached := fun (reversed : List Token) scanner => Scanned before reversed.reverse scanner
  refine .repeatWithin reached ?_ ?_ _ .none
  · intro reversed scanner scanned
    apply Ensures.bind
    intro token after run
    apply Ensures.ite
    · intro isEnd
      exact .pure (.pure ⟨scanner, token, scanned, run, by simpa using isEnd⟩)
    · intro goesOn
      apply Ensures.pure
      change Scanned before (token :: reversed).reverse after
      rw [List.reverse_cons]
      exact scanned.snoc run (by simpa using goesOn)
  · intro scanner
    exact .bindAny fun _ _ => .throw _

theorem Scanned.rounds (scanned : Scanned before tokens last) (reversed : List Token) :
    Rounds collect tokens.length reversed before (tokens.reverse ++ reversed) last := by
  induction scanned generalizing reversed with
  | none => exact .none
  | @token scanner middle last token tokens run notEnd _ induction =>
      have goesOn : collect reversed scanner = .ok (.again (token :: reversed)) middle := by
        rw [collect, bind_run run]
        exact congrFun (if_neg (by simpa using notEnd)) middle
      rw [List.reverse_cons, List.append_assoc]
      exact .one goesOn (induction (token :: reversed))

theorem Scanned.length_le (scanned : Scanned before tokens last) :
    tokens.length ≤ before.cursor.rest.length := by
  induction scanned with
  | none => exact Nat.zero_le _
  | token run notEnd _ induction =>
      have shorter := (next_passes _ _ _ run notEnd).cursor.2
      rw [List.length_cons]
      omega

theorem Scanned.allTokens (scanned : Scanned before tokens last) {final : Scanner}
    (run : next last = .ok token final) (isEnd : token.kind = .endOfInput) :
    Achieves allTokens before fun found after => found = tokens ∧ after = final := by
  have done : Achieves (collect (tokens.reverse ++ [])) last fun outcome after =>
      outcome.Holds (fun _ => False) fun reversed => reversed = tokens.reverse ∧ after = final := by
    refine .bind ⟨token, final, run, .iteTrue (by simpa using isEnd) (.pure ⟨?_, rfl⟩)⟩
    exact List.append_nil _
  apply Achieves.get
  apply Achieves.bind
  apply ((scanned.rounds []).repeatWithin (Nat.lt_succ_of_le scanned.length_le) done).mono
  rintro reversed after ⟨rfl, rfl⟩
  exact .pure ⟨List.reverse_reverse tokens, rfl⟩

end Scanner

open Scanner

variable {source : String} {token : Token} {tokens : List Token}

theorem tokenize_eq_ok_iff : tokenize source = .ok tokens ↔
    ∃ last token final, Scanned (ofString source) tokens last ∧ next last = .ok token final ∧
      token.kind = .endOfInput := by
  constructor
  · intro found
    unfold tokenize at found
    split at found
    · next run =>
        cases found
        rcases allTokens_scanned _ _ _ run with ⟨last, token, scanned, run, isEnd⟩
        exact ⟨last, token, _, scanned, run, isEnd⟩
    · cases found
  · rintro ⟨last, token, final, scanned, run, isEnd⟩
    rcases scanned.allTokens run isEnd with ⟨found, after, run, rfl, -⟩
    unfold tokenize
    simp only [EStateM.run, run]

/-- A token that is written as the whole text starts where the text starts and leaves
nothing of it. -/
theorem fills_of_tokenize (found : tokenize source = .ok [token]) (spelled : token.raw = source) :
    ∃ after, next (ofString source) = .ok token after ∧ after.cursor.rest = [] ∧
      token.kind ≠ .endOfInput ∧ token.span.start.offset = 0 := by
  rcases tokenize_eq_ok_iff.mp found with ⟨last, -, -, scanned, -, -⟩
  cases scanned with
  | @token _ after _ _ _ run notEnd _ =>
      rcases next_reads _ _ _ run with ⟨cursor, skips, start, atEnd | ⟨-, passes, -, raw⟩⟩
      · exact absurd atEnd.1 notEnd
      rcases skips.leads with ⟨gap, text, offset⟩
      rcases passes.cursor.1 with ⟨middle, text', offset'⟩
      have whole : middle = source.toList := by
        rw [← spelled, raw, passes.leads.cursor.textUntil text', String.toList_ofList]
      have nothing : gap = [] ∧ after.cursor.rest = [] := by
        change source.toList = gap ++ cursor.rest at text
        change cursor.rest = middle ++ after.cursor.rest at text'
        have length := congrArg List.length text
        rw [text', whole, List.length_append, List.length_append] at length
        constructor
        · exact List.length_eq_zero_iff.mp (by omega)
        · exact List.length_eq_zero_iff.mp (by omega)
      refine ⟨after, run, nothing.2, notEnd, ?_⟩
      rw [start, offset, nothing.1]
      rfl

theorem tokenize_of_next {post : Token → Prop}
    (achieves : Achieves next (ofString source) fun token after =>
      token.kind ≠ .endOfInput ∧ after.cursor.rest = [] ∧ post token) :
    ∃ token, tokenize source = .ok [token] ∧ post token := by
  rcases achieves with ⟨token, after, run, notEnd, empty, holds⟩
  rcases next_at_end empty with ⟨last, run', isEnd⟩
  exact ⟨token, tokenize_eq_ok_iff.mpr ⟨after, last, after, .token run notEnd .none, run', isEnd⟩,
    holds⟩

end ExprScript
