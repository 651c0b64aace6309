import ExprScript.Proofs.Reading.Expression
import ExprScript.Proofs.Token.Sequence

/-! # Expressions that are the whole text

A primary expression with nothing behind it is the result of every rule on the way
from the whole text down to it. A string between quotes is such an expression.
-/

namespace ExprScript

structure ParserState.Finished (state : ParserState) : Prop where
  atEnd : state.lookahead.kind = .endOfInput
  calm : state.pendingInitializer = none

namespace Parse

open ParserState

variable {α : Type} {rules : Rules} {state : ParserState} {found : α → Prop}

theorem inherit_alone {action : Parse α} (calm : state.pendingInitializer = none)
    (achieves : Achieves action state fun result after => found result ∧ after.Finished) :
    Achieves (inherit action) state fun result after => found result ∧ after.Finished := by
  have same : { state with pendingInitializer := none } = state := by rw [← calm]
  refine .get (.modify (.bind ?_))
  rw [same]
  apply achieves.mono
  rintro result after ⟨holds, finished⟩
  refine .modify (.pure ⟨holds, finished.atEnd, ?_⟩)
  dsimp only
  rw [calm, finished.calm]
  rfl

theorem isolate_alone {action : Parse α} (calm : state.pendingInitializer = none)
    (achieves : Achieves action state fun result after => found result ∧ after.Finished) :
    Achieves (isolate action) state fun result after => found result ∧ after.Finished := by
  have same : { state with pendingInitializer := none } = state := by rw [← calm]
  refine .get (.modify (.bind ?_))
  rw [same]
  apply achieves.mono
  rintro result after ⟨holds, finished⟩
  refine .get ?_
  rw [finished.calm]
  exact .modify (.pure ⟨holds, finished.atEnd, calm⟩)

theorem advance_run {post : α → ParserState → Prop} {next : Token → Parse α} {following : Token}
    {scanner : Scanner} (run : Scanner.next state.scanner = .ok following scanner)
    (achieves : Achieves (next state.lookahead) { state with
      scanner, lookahead := following, previousEnd := state.lookahead.span.stop } post) :
    Achieves (advance >>= next) state post := by
  have scanned : scan Scanner.next state = .ok following { state with scanner } := by
    simp only [scan, EStateM.run, run]
  exact .bind (.bind ⟨_, _, scanned, lookahead_then (.modify (.pure achieves))⟩)

structure StartsPrimary (kind : TokenKind) : Prop where
  notNew : kind ≠ .keyword .newWord
  notUnary : unaryOp? kind = none
  notUpdate : updateOp? kind = none

variable {found : Expr → Prop}

theorem links_alone {start : Position} {first : Expr} (holds : found first)
    (finished : state.Finished) : Achieves (links rules start first) state fun expr after =>
      found expr ∧ after.Finished := by
  apply Achieves.get
  apply Rounds.none.repeatWithin (Nat.succ_pos _)
  apply kind_then
  rw [finished.atEnd]
  exact .pure ⟨holds, finished⟩

section

variable (calm : state.pendingInitializer = none) (starts : StartsPrimary state.lookahead.kind)
  (achieves : Achieves (primary rules) state fun expr after => found expr ∧ after.Finished)

include starts achieves

theorem chain_alone :
    Achieves (chain rules) state fun expr after => found expr ∧ after.Finished := by
  apply start_then
  apply kind_then
  apply Achieves.iteFalse (by simpa using starts.notNew)
  refine .bind (achieves.mono ?_)
  rintro first after ⟨holds, finished⟩
  dsimp only
  split
  · exact .pure ⟨holds, finished⟩
  · exact links_alone holds finished

include calm

theorem postfixed_alone :
    Achieves (postfixed rules) state fun expr after => found expr ∧ after.Finished := by
  apply start_then
  refine .bind ((inherit_alone calm (chain_alone starts achieves)).mono ?_)
  rintro expr after ⟨holds, finished⟩
  apply lookahead_then
  rw [finished.atEnd]
  exact .pure ⟨holds, finished⟩

theorem unary_alone :
    Achieves (unary rules) state fun expr after => found expr ∧ after.Finished := by
  apply start_then
  apply kind_then
  rw [starts.notUnary, starts.notUpdate]
  exact postfixed_alone calm starts achieves

theorem exponent_alone :
    Achieves (exponent rules) state fun expr after => found expr ∧ after.Finished := by
  refine .bind ((inherit_alone calm (unary_alone calm starts achieves)).mono ?_)
  rintro base after ⟨holds, finished⟩
  apply at?_false (by rw [finished.atEnd]; nofun)
  exact .iteTrue rfl (.pure ⟨holds, finished⟩)

theorem binary_alone :
    Achieves (binary rules) state fun expr after => found expr ∧ after.Finished := by
  refine .bind ((inherit_alone calm (exponent_alone calm starts achieves)).mono ?_)
  rintro first after ⟨holds, finished⟩
  apply Achieves.bind
  apply Achieves.get
  apply Rounds.none.repeatWithin (Nat.succ_pos _)
  apply kind_then
  rw [finished.atEnd]
  exact .pure (.get (.pure ⟨holds, finished⟩))

theorem conditional_alone :
    Achieves (conditional rules) state fun expr after => found expr ∧ after.Finished := by
  apply start_then
  refine .bind ((inherit_alone calm (binary_alone calm starts achieves)).mono ?_)
  rintro test after ⟨holds, finished⟩
  apply at?_false (by rw [finished.atEnd]; nofun)
  exact .iteTrue rfl (.pure ⟨holds, finished⟩)

end

def assigning (state : ParserState) : ParserState :=
  { state with assignmentStart := state.lookahead.span.start.offset }

theorem assignment_alone (calm : state.pendingInitializer = none)
    (starts : StartsPrimary state.lookahead.kind)
    (achieves : Achieves (primary rules) (assigning state) fun expr after =>
      found expr ∧ after.Finished) :
    Achieves (assignment rules) state fun expr after => found expr ∧ after.Finished := by
  have calm' : (assigning state).pendingInitializer = none := calm
  apply start_then
  refine .get (.modify (.bind ?_))
  apply (inherit_alone calm' (conditional_alone calm' starts achieves)).mono
  rintro expr after ⟨holds, finished⟩
  have tail : Achieves (assignmentTail rules state.lookahead.span.start expr) after
      fun result final => found result ∧ final.Finished := by
    unfold assignmentTail
    split
    · exact .pure ⟨holds, finished⟩
    · apply kind_then
      rw [finished.atEnd]
      exact .pure ⟨holds, finished⟩
  refine .bind (tail.mono ?_)
  rintro result final ⟨holds, finished⟩
  exact .modify (.pure ⟨holds, finished.atEnd, finished.calm⟩)

theorem program_alone {depth : Nat} (calm : state.pendingInitializer = none)
    (starts : StartsPrimary state.lookahead.kind)
    (achieves : Achieves (primary (Parse.rules depth)) (assigning state) fun expr after =>
      found expr ∧ after.Finished) :
    Achieves (program (depth + 1)) state fun expr _ => found expr := by
  refine .bind (start_then (.bind ?_))
  apply (isolate_alone calm (assignment_alone calm starts achieves)).mono
  rintro first after ⟨holds, finished⟩
  apply at?_false (by rw [finished.atEnd]; nofun)
  refine .iteTrue rfl (.pure (kind_then (.iteFalse ?_ (.pure holds))))
  simp [finished.atEnd]

end Parse

/-- The first state of the parser, after the first token is scanned. -/
def ParserState.first (token : Token) (scanner : Scanner) (strict : Bool) : ParserState :=
  { scanner, lookahead := token, previousEnd := token.span.start, strict }

/-- A text that is a primary expression is parsed to it. -/
theorem parse_of_primary {source : String} {strict : Bool} {token : Token} {scanner : Scanner}
    {found : Expr → Prop} (run : Scanner.next (.ofString source) = .ok token scanner)
    (starts : Parse.StartsPrimary token.kind)
    (achieves : Achieves (Parse.primary (Parse.rules source.length))
      (Parse.assigning (.first token scanner strict)) fun expr after =>
        found expr ∧ after.Finished) :
    ∃ expr, parse source strict = .ok expr ∧ found expr := by
  have calm : (ParserState.first token scanner strict).pendingInitializer = none := rfl
  rcases Parse.program_alone calm starts achieves with ⟨expr, after, parsed, holds⟩
  exact ⟨expr, parse_of_program run parsed, holds⟩

/-! ## Strings -/

open Scanner

/-- A string without octal escapes that is the whole text is parsed to its contents, in
strict mode too. -/
theorem parse_of_string {source : String} {token : Token} {scanner : Scanner} {value : String}
    (run : next (.ofString source) = .ok token scanner) (empty : scanner.cursor.rest = [])
    (isString : token.kind = .stringLiteral) (contents : token.payload = .text value)
    (noOctal : token.octal = false) (strict : Bool) :
    parse source strict = .ok (.string { loc := token.span, value }) := by
  have starts : Parse.StartsPrimary token.kind := by
    rw [isString]
    exact ⟨nofun, rfl, rfl⟩
  rcases next_at_end empty with ⟨last, run', atEnd⟩
  have achieves : Achieves (Parse.primary (Parse.rules source.length))
      (Parse.assigning (.first token scanner strict)) fun expr after =>
        expr = .string { loc := token.span, value } ∧ after.Finished := by
    have kind : (Parse.assigning (.first token scanner strict)).lookahead.kind =
        .stringLiteral := isString
    apply Parse.kind_then
    rw [kind]
    apply Achieves.bind
    apply Parse.kind_then
    rw [kind]
    refine .iteFalse (by decide) (Parse.advance_run run' (.get (.iteFalse ?_ (.pure (.pure ?_)))))
    · simp [Parse.assigning, ParserState.first, noOctal]
    · refine ⟨?_, atEnd, rfl⟩
      simp only [Parse.assigning, ParserState.first, Token.text, contents]
  rcases parse_of_primary run starts achieves with ⟨expr, parsed, rfl⟩
  exact parsed

/-- What is written between quotes is scanned as a single string, from the first
character of the text to the last, with the contents that were written and no octal
escape, and it is parsed in both modes. -/
theorem tokenize_quoteLiteral (value : String) : ∃ token,
    tokenize (Text.quoteLiteral value) = .ok [token] ∧ token.kind = .stringLiteral ∧
      token.payload = .text value ∧ token.octal = false ∧
      token.raw = Text.quoteLiteral value ∧ token.span.start = .first ∧
      token.span.stop.offset = (Text.quoteLiteral value).utf8ByteSize ∧
      ∀ strict, parse (Text.quoteLiteral value) strict =
        .ok (.string { loc := token.span, value }) := by
  generalize source : Text.quoteLiteral value = text
  have scans := @scans_string [] [] _ Reader.readsEscaped_literal value
  rw [List.append_nil, ← Text.quoteLiteral, source] at scans
  cases unread : text.toList with
  | nil =>
      rw [unread] at scans
      exact absurd scans.shorter (Nat.not_lt_zero _)
  | cons first others =>
      have head : (ofString text).cursor.peek? = some first := congrArg List.head? unread
      rcases next_achieves scans.noTrivia head (scans.scans .first first _ head rfl rfl) with
        ⟨token, after, run, ⟨shown, empty, -⟩, passes, -, span, raw⟩
      have isString : token.kind = .stringLiteral := congrArg Prod.fst shown
      have contents : token.payload = .text value := congrArg (·.2.1) shown
      have noOctal : token.octal = false := congrArg (·.2.2) shown
      have whole : (ofString text).cursor.rest = text.toList ++ after.cursor.rest := by
        rw [empty, List.append_nil]
        rfl
      refine ⟨token, ?_, isString, contents, noOctal, ?_, by rw [span]; rfl, ?_, ?_⟩
      · rcases next_at_end empty with ⟨last, run', atEnd⟩
        exact tokenize_eq_ok_iff.mpr ⟨after, last, after,
          .token run (by rw [isString]; nofun) .none, run', atEnd⟩
      · rw [raw, passes.leads.cursor.textUntil whole, String.ofList_toList]
      · rcases passes.cursor.1 with ⟨passed, text', offset⟩
        have passed' : passed = text.toList := List.append_cancel_right (text'.symm.trans whole)
        rw [span, offset, passed', ← utf8Len_eq_byteSize, ← String.utf8ByteSize_ofList,
          String.ofList_toList]
        exact Nat.zero_add _
      · exact parse_of_string run empty isString contents noOctal

end ExprScript
