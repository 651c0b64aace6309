import ExprScript.Proofs.Token.Numeral

/-! # Reading a token again

A token is determined by the place that it starts at. The scanner keeps the start of
the current line as well, which readers of numbers and strings do not look at: they
do the same from two cursors that differ in it.
-/

namespace ExprScript

namespace Cursor

structure Same (first second : Cursor) : Prop where
  rest : first.rest = second.rest
  position : first.position = second.position

variable {first second : Cursor}

theorem Same.peek? (same : first.Same second) : first.peek? = second.peek? := by
  rw [Cursor.peek?, Cursor.peek?, same.rest]

theorem Same.peekSecond? (same : first.Same second) : first.peekSecond? = second.peekSecond? := by
  rw [Cursor.peekSecond?, Cursor.peekSecond?, same.rest]

theorem Same.advance (same : first.Same second) : first.advance.Same second.advance := by
  have steps : ∀ size rest, (first.stepLine size rest).Same (second.stepLine size rest) ∧
      (first.stepColumn size rest).Same (second.stepColumn size rest) := by
    intro size rest
    simp only [stepLine, stepColumn, same.position]
    exact ⟨⟨rfl, rfl⟩, ⟨rfl, rfl⟩⟩
  unfold Cursor.advance
  rw [← same.rest]
  split
  · exact same
  · exact (steps _ _).1
  · split
    · exact (steps _ _).1
    · exact (steps _ _).2

end Cursor

namespace Reader

open Cursor

variable {α β : Type}

/-- Both readers fail in the same way, or they succeed with the same result at the same
place. -/
def Twin (left : Reader α) (first : Cursor) (right : Reader α) (second : Cursor) : Prop :=
  match left first, right second with
  | .ok result after, .ok result' after' => result = result' ∧ after.Same after'
  | .error failure _, .error failure' _ => failure = failure'
  | _, _ => False

def Uniform (reader : Reader α) : Prop :=
  ∀ first second : Cursor, first.Same second → Twin reader first reader second

theorem Twin.bind {left right : Reader α} {next next' : α → Reader β} {first second : Cursor}
    (twin : Twin left first right second)
    (rest : ∀ value (middle middle' : Cursor), middle.Same middle' →
      Twin (next value) middle (next' value) middle') :
    Twin (left >>= next) first (right >>= next') second := by
  unfold Twin at twin ⊢
  simp only [Bind.bind, EStateM.bind]
  cases run : left first with
  | ok value middle =>
      cases run' : right second with
      | ok value' middle' =>
          rw [run, run'] at twin
          rcases twin with ⟨rfl, same⟩
          exact rest value middle middle' same
      | error failure middle' =>
          rw [run, run'] at twin
          exact twin.elim
  | error failure middle =>
      cases run' : right second with
      | ok value' middle' =>
          rw [run, run'] at twin
          exact twin.elim
      | error failure middle' =>
          rw [run, run'] at twin
          exact twin

namespace Uniform

theorem pure (result : α) : Uniform (Pure.pure result) := fun _ _ same => ⟨rfl, same⟩

theorem fail (cause : Cause) (position : Position) : Uniform (fail cause position : Reader α) :=
  fun _ _ _ => rfl

theorem bind {reader : Reader α} {next : α → Reader β} (uniform : Uniform reader)
    (rest : ∀ value, Uniform (next value)) : Uniform (reader >>= next) :=
  fun first second same => (uniform first second same).bind fun value => rest value

theorem get {next : Cursor → Reader α}
    (twins : ∀ first second : Cursor, first.Same second →
      Twin (next first) first (next second) second) :
    Uniform (MonadState.get >>= next) :=
  twins

theorem peek? : Uniform peek? := fun _ _ same => ⟨same.peek?, same⟩

theorem peekSecond? : Uniform peekSecond? := fun _ _ same => ⟨same.peekSecond?, same⟩

theorem position : Uniform position := fun _ _ same => ⟨same.position, same⟩

theorem skip : Uniform skip := fun _ _ same => ⟨rfl, same.advance⟩

theorem advance? : Uniform advance? := fun _ _ same => ⟨same.peek?, same.advance⟩

theorem ite {condition : Prop} [Decidable condition] {left right : Reader α}
    (whenTrue : Uniform left) (whenFalse : Uniform right) :
    Uniform (if condition then left else right) := by
  split
  · exact whenTrue
  · exact whenFalse

theorem repeatWithin {stalled : Reader β} {round : α → Reader (Round α β)}
    (uniform : ∀ value, Uniform (round value)) (stalls : Uniform stalled) (budget : Nat)
    (value : α) : Uniform (ExprScript.repeatWithin stalled round budget value) := by
  induction budget generalizing value with
  | zero => exact stalls
  | succ budget induction =>
      refine bind (uniform value) fun outcome => ?_
      cases outcome with
      | again next => exact induction next
      | done result => exact pure result

theorem loop {round : α → Reader (Round α β)} (uniform : ∀ value, Uniform (round value))
    (value : α) : Uniform (loop round value) := by
  refine get fun first second same => ?_
  rw [same.rest]
  exact repeatWithin uniform (bind position fun _ => fail _ _) _ value first second same

end Uniform

/-! ## Strings -/

theorem peekDigit?_uniform (radix : Nat) : Uniform (peekDigit? radix) :=
  .bind .peek? fun _ => .pure _

theorem readDigitsUpTo_uniform (radix count value : Nat) :
    Uniform (readDigitsUpTo radix count value) := by
  induction count generalizing value with
  | zero => exact .pure _
  | succ count induction =>
      refine .bind (peekDigit?_uniform radix) fun digit => ?_
      split
      · exact .bind .skip fun _ => induction _
      · exact .pure _

theorem readHexDigits_uniform (start : Position) (count value : Nat) :
    Uniform (readHexDigits start count value) := by
  induction count generalizing value with
  | zero => exact .pure _
  | succ count induction =>
      refine .bind (peekDigit?_uniform 16) fun digit => ?_
      split
      · exact .bind .skip fun _ => induction _
      · exact .fail _ _

theorem readBracedCode_uniform (start : Position) : Uniform (readBracedCode start) := by
  refine .bind .skip fun _ => .bind (.loop (fun _ => ?_) _) fun _ => ?_
  · refine .bind (peekDigit?_uniform 16) fun digit => ?_
    split
    · exact .bind .skip fun _ => .pure _
    · exact .pure _
  · refine .bind .peek? fun _ => .ite (.bind (.fail _ _) fun _ => ?_) ?_
    · exact .bind .skip fun _ => .pure _
    · exact .bind .skip fun _ => .pure _

theorem readUnicodeCode_uniform (start : Position) : Uniform (readUnicodeCode start) :=
  .bind .peek? fun _ => .ite (readBracedCode_uniform start) (readHexDigits_uniform start 4 0)

theorem readUnicodeEscape_uniform (start : Position) : Uniform (readUnicodeEscape start) := by
  refine .bind (readUnicodeCode_uniform start) fun code => .get fun first second same => ?_
  have alone : Uniform (Pure.pure (charOfCode code) : Reader Char) := .pure _
  rw [same.peek?, same.peekSecond?]
  split
  · -- The second escape is tried on the two cursors behind its first two characters.
    have twin := readUnicodeCode_uniform start _ _ same.advance.advance
    unfold Twin at twin
    dsimp only [EStateM.run]
    split at twin
    · next run run' =>
        rcases twin with ⟨rfl, same'⟩
        rw [run, run']
        dsimp only
        split
        · exact ⟨rfl, same'⟩
        · exact alone first second same
    · next run run' =>
        rw [run, run']
        exact alone first second same
    · exact twin.elim
  · exact alone first second same

theorem readHexEscape_uniform (start : Position) : Uniform (readHexEscape start) := by
  refine .bind .advance? fun _ => .bind .advance? fun _ => ?_
  dsimp only
  split
  · exact .pure _
  · exact .fail _ _

theorem readDigitEscape_uniform (start : Position) (inTemplate : Bool) (digit : Char) :
    Uniform (readDigitEscape start inTemplate digit) := by
  refine .bind .peek? fun _ => .ite (.pure _) (.ite (.ite ?_ ?_) (.ite ?_ ?_))
  · exact .bind (.fail _ _) fun _ => .bind (readDigitsUpTo_uniform _ _ _) fun _ => .pure _
  · exact .bind (readDigitsUpTo_uniform _ _ _) fun _ => .pure _
  · exact .bind (.fail _ _) fun _ => .pure _
  · exact .pure _

theorem readEscape_uniform (start : Position) (inTemplate : Bool) :
    Uniform (readEscape start inTemplate) := by
  refine .bind .advance? fun next => ?_
  split
  · exact .fail _ _
  · split
    · exact .pure _
    · refine .ite (.pure _) (.ite ?_ (.ite ?_ (.ite ?_ (.pure _))))
      · exact .bind (readHexEscape_uniform start) fun _ => .pure _
      · exact .bind (readUnicodeEscape_uniform start) fun _ => .pure _
      · exact readDigitEscape_uniform start inTemplate _

theorem readString_uniform (start : Position) : Uniform (readString start) := by
  refine .bind .advance? fun quote => ?_
  split
  · exact .fail _ _
  · refine .bind (.loop (fun _ => .bind .peek? fun next => ?_) _) fun _ => .pure _
    split
    · exact .fail _ _
    · exact .fail _ _
    · exact .fail _ _
    · refine .ite (.bind .skip fun _ => .pure _) (.ite ?_ (.bind .skip fun _ => .pure _))
      refine .bind .position fun place => .bind .skip fun _ => ?_
      exact .bind (readEscape_uniform place false) fun _ => .pure _

/-! ## Numbers -/

theorem readDigits_uniform (radix : Nat) : Uniform (readDigits radix) := by
  refine .bind (.loop (fun _ => .bind .peek? fun next => ?_) _) fun _ => .pure _
  dsimp only
  have stops : ∀ cause, Uniform (do fail cause (← position) :
      Reader (Round (List Char × Bool) (List Char))) :=
    fun cause => .bind .position fun _ => .fail _ _
  split
  · refine .ite (.ite ?_ (.ite ?_ ?_)) (.ite ?_ (.ite (stops _) (.pure _)))
    · exact .bind .position fun _ => .bind (.fail _ _) fun _ => .ite
        (.bind .position fun _ => .bind (.fail _ _) fun _ => .bind .skip fun _ => .pure _)
        (.bind .skip fun _ => .pure _)
    · exact .bind .position fun _ => .bind (.fail _ _) fun _ => .bind .skip fun _ => .pure _
    · exact .bind .skip fun _ => .pure _
    · exact .bind .skip fun _ => .pure _
  · refine .ite ?_ (.pure _)
    exact .bind .position fun _ => .bind (.fail _ _) fun _ => .pure _

theorem skipMany_uniform (count : Nat) : Uniform (skipMany count) := by
  induction count with
  | zero => exact .pure _
  | succ count induction => exact .bind .skip fun _ => induction

theorem readFraction_uniform : Uniform readFraction :=
  .bind .peek? fun _ => .ite (.bind .skip fun _ => readDigits_uniform 10) (.pure _)

theorem readSign_uniform : Uniform readSign := by
  refine .bind .peek? fun next => ?_
  split
  · exact .bind .skip fun _ => .pure _
  · exact .bind .skip fun _ => .pure _
  · exact .pure _

theorem readExponent_uniform : Uniform readExponent := by
  refine .bind .position fun _ => .bind .peek? fun next => ?_
  split
  · refine .ite (.bind .skip fun _ => .bind readSign_uniform fun _ => ?_) (.pure _)
    refine .bind (readDigits_uniform 10) fun _ => .ite ?_ (.pure _)
    exact .bind (.fail _ _) fun _ => .pure _
  · exact .pure _

theorem readDecimalTail_uniform (whole : List Char) : Uniform (readDecimalTail whole) :=
  .bind readFraction_uniform fun _ => .bind readExponent_uniform fun _ => .pure _

theorem readDecimal_uniform : Uniform readDecimal :=
  .bind .peek? fun _ => .ite (readDecimalTail_uniform _)
    (.bind (readDigits_uniform 10) readDecimalTail_uniform)

theorem readRadixNumeral_uniform (radix : Nat) (start : Position) :
    Uniform (readRadixNumeral radix start) := by
  refine .bind .skip fun _ => .bind .skip fun _ => .bind (readDigits_uniform radix) fun _ => ?_
  exact .ite (.bind (.fail _ _) fun _ => .pure _) (.pure _)

theorem readZeroNumeral_uniform : Uniform readZeroNumeral := by
  refine .get fun first second same => ?_
  rw [same.rest]
  refine Uniform.bind (skipMany_uniform _) (fun _ => .ite (.pure _) ?_) first second same
  refine .bind .peek? fun _ => .ite ?_ (readDecimalTail_uniform _)
  exact .bind .position fun _ => .bind (.fail _ _) fun _ => readDecimalTail_uniform _

theorem readNumeral_uniform (start : Position) : Uniform (readNumeral start) := by
  have decimal : Uniform (do return (← readDecimal, false)) :=
    .bind readDecimal_uniform fun _ => .pure _
  refine .bind (.bind .peek? fun _ => .ite decimal (.bind .peekSecond? fun second => ?_))
    fun _ => .bind .peek? fun _ => .ite (.bind (.fail _ _) fun _ => .pure _) (.pure _)
  split
  · exact decimal
  · split
    · exact .bind (readRadixNumeral_uniform _ start) fun _ => .pure _
    · refine .ite ?_ (.ite ?_ decimal)
      · exact .bind .skip fun _ => .bind .position fun _ => .fail _ _
      · exact .bind readZeroNumeral_uniform fun _ => .pure _

end Reader

/-! ## Tokens -/

namespace Scanner

open Reader

def tokenAt (source : List Char) (position : Position) : Option Token :=
  match next.run { source, cursor := { rest := dropBytes position.offset source, position } } with
  | .ok token _ => some token
  | .error _ _ => none

theorem read_again {α : Type} {reader : Reader α} (uniform : Uniform reader)
    {scanner other after : Scanner} {result : α} (same : scanner.cursor.Same other.cursor)
    (run : read reader scanner = .ok result after) :
    Achieves (read reader) other fun result' after' =>
      result' = result ∧ after.cursor.Same after'.cursor := by
  have twin := uniform _ _ same
  rcases read_ensures result after run with ⟨inner, -⟩
  unfold Twin at twin
  rw [inner] at twin
  cases inner' : reader other.cursor with
  | error failure cursor =>
      rw [inner'] at twin
      exact twin.elim
  | ok result' cursor =>
      rw [inner'] at twin
      rcases twin with ⟨rfl, same'⟩
      refine ⟨result, { other with cursor }, ?_, rfl, same'⟩
      simp only [read, EStateM.run, inner']

theorem scanTemplate_kind (start : Position) (withHole withoutHole : TokenKind)
    (before : Scanner) : Ensures (scanTemplate start withHole withoutHole) before
      fun result _ => result.1 = withHole ∨ result.1 = withoutHole := by
  refine .bindAny fun piece middle => .ite (fun _ => ?_) fun _ => .pure (.inr rfl)
  exact .modify (.pure (.inl rfl))

theorem scanPunctuator_kind (start : Position) (before : Scanner) :
    Ensures (scanPunctuator start) before fun kind _ => ∃ mark, kind = .punctuator mark := by
  refine .get ?_
  dsimp only
  split
  · exact .bindAny fun _ _ => .bindAny fun _ _ => .pure ⟨_, rfl⟩
  · exact .throw _

/-- A number or a string is scanned again from the same place, whatever braces are
open. -/
theorem scanLexeme_again (start : Position) (first : Char) (scanner : Scanner) :
    Ensures (scanLexeme start first) scanner fun lexeme after =>
      lexeme.1 = .stringLiteral ∨ lexeme.1 = .numericLiteral →
      ∀ other : Scanner, scanner.cursor.Same other.cursor →
        Achieves (scanLexeme start first) other fun lexeme' after' =>
          lexeme' = lexeme ∧ after.cursor.Same after'.cursor := by
  refine .get ?_
  refine .ite (fun isQuote => ?_) fun notQuote => .ite (fun _ => ?_) fun notTick =>
    .ite (fun _ => ?_) fun _ => .ite (fun isNumber => ?_) fun _ => .ite (fun _ => ?_) fun _ => ?_
  · refine .bind fun contents middle run => .pure fun _ other same => ?_
    refine .get (.iteTrue isQuote (.bind ?_))
    refine (read_again (readString_uniform start) same run).mono fun _ after holds => .pure ?_
    rw [holds.1]
    exact ⟨rfl, holds.2⟩
  · refine .bind ((scanTemplate_kind start _ _ scanner).mono fun _ _ kind => .pure fun literal => ?_)
    rcases kind with isTemplate | isTemplate <;> rw [isTemplate] at literal <;> simp at literal
  · refine .set (.bind ((scanTemplate_kind start _ _ _).mono fun _ _ kind => .pure fun literal => ?_))
    rcases kind with isTemplate | isTemplate <;> rw [isTemplate] at literal <;> simp at literal
  · refine .bind fun number middle run => .pure fun _ other same => ?_
    have notHole : ¬ (first == '\x7d' && other.braces.head? == some .hole) = true := by
      intro isBrace
      simp only [Bool.and_eq_true, beq_iff_eq] at isBrace
      rw [isBrace.1] at isNumber
      simp at isNumber
    refine .get (.iteFalse notQuote (.iteFalse notTick (.iteFalse notHole (.iteTrue ?_ (.bind ?_)))))
    · rw [← same.peekSecond?]
      exact isNumber
    · refine (read_again (readNumeral_uniform start) same run).mono fun _ after holds => .pure ?_
      rw [holds.1]
      exact ⟨rfl, holds.2⟩
  · refine .bind (read_ensures.mono fun _ _ ⟨run, _⟩ => .pure fun literal => ?_)
    rcases readName_kind _ _ _ _ run with isName | ⟨word, isName⟩ <;> rw [isName] at literal <;>
      simp at literal
  · refine .bind ((scanPunctuator_kind start scanner).mono fun _ _ kind => .pure fun literal => ?_)
    rcases kind with ⟨mark, isMark⟩
    rw [isMark] at literal
    simp at literal

theorem tokenAt_of_next {scanner : Scanner} (placed : scanner.Placed) :
    Ensures next scanner fun token _ =>
      token.kind = .stringLiteral ∨ token.kind = .numericLiteral →
        (tokenAt scanner.source token.span.start).map (·.octal) = some token.octal := by
  refine .bind ((read_ensures.both (Forward.read skipTrivia_forward scanner).ensures).mono ?_)
  intro newline middle holds
  rcases holds with ⟨⟨run, same⟩, leads⟩
  have noTrivia := skipTrivia_ensures _ _ _ run
  refine .get ?_
  dsimp only
  split
  · exact .pure (by simp)
  · next first head =>
      refine .bind fun lexeme after lexed => ?_
      refine .get (.ite (fun _ => .bind (.throw _)) fun moved => .pure fun literal => ?_)
      have rest : dropBytes middle.cursor.position.offset scanner.source = middle.cursor.rest := by
        rcases placed.of_leads leads with ⟨passed, text, offset⟩
        rw [← leads.source, text, offset, dropBytes_append]
      let other : Scanner :=
        { source := scanner.source
          cursor :=
            { rest := dropBytes middle.cursor.position.offset scanner.source
              position := middle.cursor.position } }
      have sameCursor : middle.cursor.Same other.cursor := ⟨rest.symm, rfl⟩
      rcases scanLexeme_again _ _ _ _ _ lexed literal other sameCursor with
        ⟨lexeme', after', lexed', rfl, sameAfter⟩
      have stays : read skipTrivia other = .ok false other :=
        read_skipTrivia (by rw [← sameCursor.rest]; exact noTrivia)
      have head' : other.cursor.peek? = some first := sameCursor.peek?.symm.trans head
      have moved' : ¬ (after'.cursor.position.offset == middle.cursor.position.offset) = true := by
        rw [← sameAfter.position]
        exact moved
      have again : Achieves next other fun token _ => token.octal = lexeme'.2.2 := by
        refine .bind ⟨_, _, stays, .get ?_⟩
        simp only [head']
        exact .bind ⟨_, _, lexed', .get (.iteFalse moved' (.pure rfl))⟩
      rcases again with ⟨token, last, scans, octal⟩
      unfold tokenAt
      simp only [EStateM.run]
      change Option.map _ (match next other with | .ok token _ => some token | .error _ _ => none) = _
      rw [scans]
      exact congrArg some octal

end Scanner

end ExprScript
