import ExprScript.Proofs.Token.Progress

/-! # The scanner moves forward

Every token is the run of a reader, or a punctuator, at a place behind the trivia,
and it takes at least one character of the text.
-/

namespace ExprScript

namespace Scanner

open Reader

theorem readRegExpBody_forward (start : Position) : Forward (readRegExpBody start) := by
  refine .loop (fun _ before => .peek? ?_) _
  split
  · exact .fail _ rfl
  · next head =>
      refine .ite (.fail _ rfl) (.ite ?_ (.ite ?_ (.ite (.done _) (.ite (.skip head ?_) ?_))))
      · exact .skip head (.pure _)
      · exact .skip head (.pure _)
      · refine .bind .peek? fun escaped => ?_
        split
        · refine .ite (.bind (.fail _ rfl) fun _ => ?_) ?_
          · exact .bind .skip fun _ => .pure _
          · exact .bind .skip fun _ => .pure _
        · exact .fail _ rfl
      · exact .skip head (.pure _)

theorem readRegExp_forward (start : Position) : Forward (readRegExp start) := by
  refine .bind .skip fun _ => .bind (capture_forward (readRegExpBody_forward start)) fun _ => ?_
  refine .bind .skip fun _ => .bind (capture_forward (skipWhile_forward _)) fun _ => ?_
  exact .pure _

/-! ## The scanner -/

/-- The second scanner has moved over a part of the same text. -/
structure Leads (before after : Scanner) : Prop where
  source : after.source = before.source
  cursor : before.cursor.Leads after.cursor

theorem Leads.refl (scanner : Scanner) : Leads scanner scanner := ⟨rfl, .refl _⟩

theorem Leads.trans {first second third : Scanner} (left : Leads first second)
    (right : Leads second third) : Leads first third :=
  ⟨right.source.trans left.source, left.cursor.trans right.cursor⟩

/-- The second scanner has moved over at least one character of the same text. -/
structure Passes (before after : Scanner) : Prop where
  source : after.source = before.source
  cursor : before.cursor.Passes after.cursor

theorem Passes.leads {before after : Scanner} (passes : Passes before after) :
    Leads before after :=
  ⟨passes.source, passes.cursor.1⟩

theorem Passes.of_leads {first second third : Scanner} (passes : Passes first second)
    (leads : Leads second third) : Passes first third :=
  ⟨leads.source.trans passes.source, passes.cursor.of_leads leads.cursor⟩

def Placed (scanner : Scanner) : Prop :=
  ∃ passed, scanner.source = passed ++ scanner.cursor.rest ∧
    scanner.cursor.position.offset = byteSize passed

theorem Placed.of_leads {before after : Scanner} (placed : Placed before)
    (leads : Leads before after) : Placed after := by
  obtain ⟨passed, source, offset⟩ := placed
  obtain ⟨passed', rest, offset'⟩ := leads.cursor
  refine ⟨passed ++ passed', ?_, ?_⟩
  · rw [leads.source, source, rest, List.append_assoc]
  · rw [offset', offset, byteSize_append]

theorem placed_ofString (source : String) : Placed (ofString source) := ⟨[], rfl, rfl⟩

variable {α β : Type}

def Forward (action : Scan α) : Prop :=
  ∀ before, Safely action before fun _ after => before.Leads after

def Advances (action : Scan α) (before : Scanner) : Prop :=
  Safely action before fun _ after => before.Passes after

theorem Forward.pure (result : α) : Forward (Pure.pure result) :=
  fun before => .pure (Leads.refl before)

theorem Forward.modify {change : Scanner → Scanner}
    (source : ∀ before, (change before).source = before.source)
    (cursor : ∀ before, (change before).cursor = before.cursor) :
    Forward (modifyGet fun scanner => (⟨⟩, change scanner) : Scan PUnit) := by
  intro before
  refine ⟨source before, ?_⟩
  rw [cursor]
  exact .refl _

theorem Forward.bind {action : Scan α} {next : α → Scan β} (start : Forward action)
    (rest : ∀ value, Forward (next value)) : Forward (action >>= next) := by
  intro before
  refine .bind ((start before).mono fun value middle leads => ?_)
  exact (rest value middle).mono fun _ _ leads' => leads.trans leads'

theorem Advances.bind {action : Scan α} {next : α → Scan β} {before : Scanner}
    (advances : Advances action before) (forward : ∀ value, Forward (next value)) :
    Advances (action >>= next) before := by
  refine Safely.bind (Safely.mono advances fun value middle passes => ?_)
  exact (forward value middle).mono fun _ _ leads => passes.of_leads leads

theorem read_safely {reader : Reader α} {before : Scanner} {post : α → Cursor → Prop}
    (safely : Safely reader before.cursor post) :
    Safely (read reader) before fun result after =>
      after.source = before.source ∧ post result after.cursor := by
  unfold Safely at safely
  simp only [Safely, read, EStateM.run]
  cases run : reader before.cursor with
  | ok result cursor =>
      rw [run] at safely
      exact ⟨rfl, safely⟩
  | error error cursor =>
      rw [run] at safely
      exact safely

theorem Forward.read {reader : Reader α} (forward : Reader.Forward reader) :
    Forward (read reader) :=
  fun before => (read_safely (forward before.cursor)).mono fun _ _ holds => ⟨holds.1, holds.2⟩

theorem Advances.read {reader : Reader α} {before : Scanner}
    (advances : Reader.Advances reader before.cursor) : Advances (read reader) before :=
  (read_safely advances).mono fun _ _ holds => ⟨holds.1, holds.2⟩

theorem noteBrace_forward (mark : Punctuator) : Forward (noteBrace mark) := by
  refine .modify (fun before => ?_) fun before => ?_
  · split <;> rfl
  · split <;> rfl

theorem spelling_length_pos (mark : Punctuator) : 0 < mark.spelling.length := by
  cases mark <;> decide

variable {before : Scanner} {first : Char}

theorem scanPunctuator_advances (head : before.cursor.peek? = some first) (start : Position) :
    Advances (scanPunctuator start) before := by
  refine Safely.get ?_
  dsimp only
  split
  · next mark found =>
      refine Advances.bind (.read ?_) fun _ => .bind (noteBrace_forward _) fun _ => .pure _
      cases size : mark.spelling.length with
      | zero => exact absurd size (Nat.ne_of_gt (spelling_length_pos mark))
      | succ count => exact .skip head (skipMany_forward count)
  · exact .throw rfl

theorem scanTemplate_advances (head : before.cursor.peek? = some first) (start : Position)
    (withHole withoutHole : TokenKind) :
    Advances (scanTemplate start withHole withoutHole) before := by
  refine .bind (.read (.skip head (readTemplatePiece_forward start))) fun piece => ?_
  dsimp only
  split
  · exact .bind (.modify (fun _ => rfl) fun _ => rfl) fun _ => .pure _
  · exact .pure _

theorem scanLexeme_advances (head : before.cursor.peek? = some first) (start : Position) :
    Advances (scanLexeme start first) before := by
  refine Safely.get ?_
  refine .ite (fun _ => ?_) fun _ => .ite (fun _ => ?_) fun _ => .ite (fun _ => ?_) fun _ =>
    .ite (fun isNumber => ?_) fun _ => .ite (fun isName => ?_) fun _ => ?_
  · exact Advances.bind (.read (readString_advances head start)) fun _ => .pure _
  · exact Advances.bind (scanTemplate_advances head start _ _) fun _ => .pure _
  · let inner : Scanner := { before with braces := before.braces.tail }
    have head' : inner.cursor.peek? = some first := head
    refine .set (Safely.mono (Advances.bind (scanTemplate_advances head' start _ _) fun _ => .pure _)
      fun _ _ passes => ?_)
    exact ⟨passes.source, passes.cursor⟩
  · have starts : first.isDigit = true ∨ first = '.' := by
      simp only [Bool.or_eq_true, Bool.and_eq_true, beq_iff_eq] at isNumber
      exact isNumber.imp_right And.left
    exact Advances.bind (.read (readNumeral_advances head starts start)) fun _ => .pure _
  · simp only [Bool.or_eq_true, beq_iff_eq] at isName
    exact Advances.bind (.read (readName_advances head isName start)) fun _ => .pure _
  · exact Advances.bind (scanPunctuator_advances head start) fun _ => .pure _

/-- What a token is made of: the run of a reader from the cursor, or a punctuator
that the unread text starts with. -/
inductive Lexed (start : Position) (cursor : Cursor) : Lexeme → Prop
  | string {contents : String} {octal : Bool} {after : Cursor}
      (run : readString start cursor = .ok (contents, octal) after) :
      Lexed start cursor (.stringLiteral, .text contents, octal)
  | template {kind : TokenKind} {piece : TemplatePiece} {after : Cursor}
      (isTemplate : kind.isTemplate = true)
      (run : (do Reader.skip; readTemplatePiece start : Reader TemplatePiece) cursor =
        .ok piece after) :
      Lexed start cursor (kind, .template piece.cooked piece.raw, false)
  | number {number : Float} {octal : Bool} {after : Cursor}
      (run : readNumeral start cursor = .ok (number, octal) after) :
      Lexed start cursor (.numericLiteral, .number number, octal)
  | name {kind : TokenKind} {name : String} {after : Cursor} {first : Char}
      (head : cursor.rest.head? = some first)
      (starts : Text.isNameStart first = true ∨ first = '\\')
      (run : readName start cursor = .ok (kind, name) after) :
      Lexed start cursor (kind, .text name, false)
  | punctuator {mark : Punctuator} (found : punctuatorOf? cursor.rest = some mark) :
      Lexed start cursor (.punctuator mark, .none, false)

theorem read_ensures {reader : Reader α} {before : Scanner} :
    Ensures (read reader) before fun result after =>
      reader before.cursor = .ok result after.cursor ∧
        after = { before with cursor := after.cursor } := by
  intro result after run
  simp only [read, EStateM.run] at run
  split at run
  · next start =>
      cases run
      exact ⟨start, rfl⟩
  · cases run

theorem scanTemplate_lexed (start : Position) {withHole withoutHole : TokenKind}
    (isTemplate : withHole.isTemplate = true) (isTemplate' : withoutHole.isTemplate = true)
    (before : Scanner) : Ensures (scanTemplate start withHole withoutHole) before
      fun result _ => Lexed start before.cursor (result.1, result.2, false) := by
  refine .bind (read_ensures.mono fun piece after ⟨run, _⟩ => ?_)
  dsimp only
  split
  · exact .modify (.pure (.template isTemplate run))
  · exact .pure (.template isTemplate' run)

theorem scanLexeme_lexed (start : Position) {first : Char} {before : Scanner}
    (head : before.cursor.rest.head? = some first) :
    Ensures (scanLexeme start first) before fun lexeme _ =>
      Lexed start before.cursor lexeme := by
  refine .get ?_
  refine .ite (fun _ => ?_) fun _ => .ite (fun _ => ?_) fun _ => .ite (fun _ => ?_) fun _ =>
    .ite (fun _ => ?_) fun _ => .ite (fun starts => ?_) fun _ => ?_
  · exact .bind (read_ensures.mono fun _ _ ⟨run, _⟩ => .pure (.string run))
  · exact .bind ((scanTemplate_lexed start rfl rfl before).mono fun _ _ lexed => .pure lexed)
  · refine .set (.bind ((scanTemplate_lexed start rfl rfl _).mono fun _ _ lexed => ?_))
    exact .pure lexed
  · exact .bind (read_ensures.mono fun _ _ ⟨run, _⟩ => .pure (.number run))
  · simp only [Bool.or_eq_true, beq_iff_eq] at starts
    exact .bind (read_ensures.mono fun _ _ ⟨run, _⟩ => .pure (.name head starts run))
  · refine .bind (.get ?_)
    dsimp only
    split
    · next found => exact .bindAny fun _ _ => .bindAny fun _ _ => .pure (.pure (.punctuator found))
    · exact .throw _

def NoTrivia (text : List Char) : Prop :=
  ∀ c, text.head? = some c → Text.isBlank c = false ∧
    (c = '/' → text[1]? ≠ some '/' ∧ text[1]? ≠ some '*')

theorem skipTrivia_ensures (before : Cursor) :
    Ensures skipTrivia before fun _ after => NoTrivia after.rest := by
  apply Ensures.get
  refine .repeatWithin (fun _ _ => True) ?_ (fun _ => .bindAny fun _ _ => .throw _) _ trivial
  rintro - cursor -
  refine .bind (.get (.pure ?_))
  cases head : cursor.peek? with
  | none =>
      refine .pure fun c head' => ?_
      rw [Cursor.peek?] at head
      rw [head] at head'
      cases head'
  | some c =>
      refine .ite (fun _ => .bindAny fun _ _ => .pure trivial) fun notBlank => ?_
      refine .bind (.get (.pure (.ite (fun _ => .bindAny fun _ _ => .pure trivial) fun noLine => ?_)))
      refine .bind (.get (.pure (.ite (fun _ => .bindAny fun _ _ => .pure trivial) fun noBlock => ?_)))
      refine .pure fun d head' => ?_
      cases head.symm.trans head'
      refine ⟨by simpa using notBlank, fun isSlash => ⟨?_, ?_⟩⟩
      · simpa [isSlash, Cursor.peekSecond?] using noLine
      · simpa [isSlash, Cursor.peekSecond?] using noBlock

theorem skipTrivia_stays {cursor : Cursor} (noTrivia : NoTrivia cursor.rest) :
    skipTrivia cursor = .ok false cursor := by
  have achieves : Achieves skipTrivia cursor fun newline after =>
      newline = false ∧ after = cursor := by
    apply Achieves.get
    apply Rounds.none.repeatWithin (Nat.succ_pos _)
    apply Achieves.bind
    apply Achieves.get
    refine .pure ?_
    rw [Cursor.peek?]
    cases text : cursor.rest with
    | nil => exact .pure ⟨rfl, rfl⟩
    | cons c others =>
        rw [text] at noTrivia
        rcases noTrivia c rfl with ⟨notBlank, noComment⟩
        have second : cursor.peekSecond? = (c :: others)[1]? := by rw [Cursor.peekSecond?, text]
        apply Achieves.iteFalse (by simp [notBlank])
        apply Achieves.bind
        apply Achieves.get
        refine .pure (.iteFalse ?_ ?_)
        · rw [second]
          simpa using fun isSlash => (noComment isSlash).1
        · apply Achieves.bind
          apply Achieves.get
          refine .pure (.iteFalse ?_ (.pure ⟨rfl, rfl⟩))
          rw [second]
          simpa using fun isSlash => (noComment isSlash).2
  rcases achieves with ⟨newline, after, run, rfl, rfl⟩
  exact run

theorem read_skipTrivia {scanner : Scanner} (noTrivia : NoTrivia scanner.cursor.rest) :
    read skipTrivia scanner = .ok false scanner := by
  simp only [read, EStateM.run, skipTrivia_stays noTrivia]

theorem next_lexed (before : Scanner) : Ensures next before fun token _ =>
    token.kind = .endOfInput ∨ ∃ cursor, before.cursor.Leads cursor ∧ NoTrivia cursor.rest ∧
      token.span.start = cursor.position ∧
      Lexed token.span.start cursor (token.kind, token.payload, token.octal) := by
  refine .bind ((read_ensures.both (Forward.read skipTrivia_forward before).ensures).mono ?_)
  rintro newline middle ⟨⟨run, -⟩, leads⟩
  have noTrivia := skipTrivia_ensures _ _ _ run
  refine .get ?_
  dsimp only
  split
  · exact .pure (.inl rfl)
  · next first head =>
      refine .bind ((scanLexeme_lexed _ head).mono fun lexeme after lexed => ?_)
      refine .get (.ite (fun _ => .bind (.throw _)) fun _ => .pure (.inr ?_))
      exact ⟨middle.cursor, leads.cursor, noTrivia, rfl, lexed⟩

/-- Where a token lies: not before the scanner, and not behind the scanner that
has read it. Only the end of the input takes no room. -/
theorem next_safely (before : Scanner) : Safely next before fun token after =>
    before.Leads after ∧
      before.cursor.position.offset ≤ token.span.start.offset ∧
      token.span.start.offset ≤ after.cursor.position.offset ∧
      (token.kind ≠ .endOfInput → token.span.start.offset < after.cursor.position.offset) := by
  refine .bind ((Forward.read skipTrivia_forward before).mono fun newline middle leads => ?_)
  refine .get ?_
  dsimp only
  split
  · exact .pure ⟨leads, leads.cursor.offset_le, Nat.le_refl _, fun wrong => absurd rfl wrong⟩
  · next head =>
      refine .bind (Safely.mono (scanLexeme_advances head _) fun lexeme after passes => ?_)
      have forward := passes.cursor.offset_lt
      refine .get (.ite (fun stalled => ?_) fun _ => .pure ?_)
      · simp only [beq_iff_eq] at stalled
        omega
      · exact ⟨leads.trans passes.leads, leads.cursor.offset_le, Nat.le_of_lt forward, fun _ => forward⟩

theorem next_ensures (before : Scanner) : Ensures next before fun token after =>
    before.Leads after ∧
      before.cursor.position.offset ≤ token.span.start.offset ∧
      token.span.start.offset ≤ after.cursor.position.offset ∧
      (token.kind ≠ .endOfInput → token.span.start.offset < after.cursor.position.offset) :=
  (next_safely before).ensures

theorem rest_cursorAt {scanner after : Scanner} {token : Token} {cursor : Cursor}
    (placed : scanner.Placed) (run : next scanner = .ok token after)
    (leads : scanner.cursor.Leads cursor) (start : token.span.start = cursor.position) :
    (after.cursorAt token.span.start token.lineStart).rest = cursor.rest := by
  have source : after.source = scanner.source := (next_ensures scanner _ _ run).1.source
  have placed' : Placed { scanner with cursor } := placed.of_leads ⟨rfl, leads⟩
  rcases placed' with ⟨passed, text, offset⟩
  dsimp only at text offset
  rw [cursorAt, source, start, text, offset, dropBytes_append]

theorem placed_cursorAt {scanner after : Scanner} {token : Token} (placed : scanner.Placed)
    (run : next scanner = .ok token after) (notEnd : token.kind ≠ .endOfInput) :
    Placed { after with cursor := after.cursorAt token.span.start token.lineStart } := by
  rcases next_lexed scanner _ _ run with isEnd | ⟨cursor, leads, -, start, -⟩
  · exact absurd isEnd notEnd
  · have source : after.source = scanner.source := (next_ensures scanner _ _ run).1.source
    have placed' : Placed { scanner with cursor } := placed.of_leads ⟨rfl, leads⟩
    rcases placed' with ⟨passed, text, offset⟩
    refine ⟨passed, ?_, ?_⟩
    · rw [rest_cursorAt placed run leads start]
      exact source.trans text
    · simp only [cursorAt, start]
      exact offset

end Scanner

def Token.Occurs (token : Token) : Prop :=
  ∃ before after : Scanner, before.Placed ∧ Scanner.next before = .ok token after

end ExprScript
