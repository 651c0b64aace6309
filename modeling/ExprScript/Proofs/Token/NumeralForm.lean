import ExprScript.Proofs.Token.Sequence

/-! # The grammar of numbers

A text is a single number exactly if it has one of the four forms below. Each reader
is compared with a form of its own in both directions: what it has passed has the form
(`_reads`), and it takes every text of the form (`_takes`).
-/

namespace ExprScript

/-- Digits with single underscores between them. There is at least one digit. -/
inductive DigitRun (radix : Nat) : List Char → Prop
  | last {c : Char} (digit : Number.isDigitOf radix c = true) : DigitRun radix [c]
  | next {c : Char} {run : List Char} (digit : Number.isDigitOf radix c = true)
      (later : DigitRun radix run) : DigitRun radix (c :: run)
  | separated {c : Char} {run : List Char} (digit : Number.isDigitOf radix c = true)
      (later : DigitRun radix run) : DigitRun radix (c :: '_' :: run)

/-- The fraction of a number from its point on, if it has one. No digit has to follow
the point. -/
inductive FractionForm : List Char → Prop
  | none : FractionForm []
  | point : FractionForm ['.']
  | digits {run : List Char} (isRun : DigitRun 10 run) : FractionForm ('.' :: run)

inductive ExponentForm : List Char → Prop
  | none : ExponentForm []
  | unsigned {mark : Char} {run : List Char} (isMark : mark = 'e' ∨ mark = 'E')
      (isRun : DigitRun 10 run) : ExponentForm (mark :: run)
  | signed {mark sign : Char} {run : List Char} (isMark : mark = 'e' ∨ mark = 'E')
      (isSign : sign = '+' ∨ sign = '-') (isRun : DigitRun 10 run) :
      ExponentForm (mark :: sign :: run)

/-- The text of a number. The flag is set for the forms with a leading zero: octal
numbers, and decimals with an `8` or a `9` in front of the point. -/
inductive NumeralForm : Bool → List Char → Prop
  | decimal {whole fraction exponent : List Char} (isRun : DigitRun 10 whole)
      (leading : whole.head? = some '0' → whole = ['0']) (isFraction : FractionForm fraction)
      (isExponent : ExponentForm exponent) : NumeralForm false (whole ++ (fraction ++ exponent))
  | pointed {run exponent : List Char} (isRun : DigitRun 10 run)
      (isExponent : ExponentForm exponent) : NumeralForm false ('.' :: (run ++ exponent))
  | prefixed {mark : Char} {radix : Nat} {run : List Char}
      (isMark : (mark, radix) ∈ [('x', 16), ('X', 16), ('o', 8), ('O', 8), ('b', 2), ('B', 2)])
      (isRun : DigitRun radix run) : NumeralForm false ('0' :: mark :: run)
  | octal {digits : List Char} (notEmpty : digits ≠ [])
      (all : ∀ c ∈ digits, Number.isDigitOf 8 c = true) : NumeralForm true ('0' :: digits)
  | leadingZero {digits fraction exponent : List Char}
      (all : ∀ c ∈ digits, Number.isDigitOf 10 c = true) (large : '8' ∈ digits ∨ '9' ∈ digits)
      (isFraction : FractionForm fraction) (isExponent : ExponentForm exponent) :
      NumeralForm true ('0' :: (digits ++ (fraction ++ exponent)))

/-! ## Digits -/

theorem ne_of_isDigitOf {radix : Nat} {c : Char} (digit : Number.isDigitOf radix c = true) :
    c ≠ '_' ∧ c ≠ '\r' := by
  constructor
  · rintro rfl
    cases digit
  · rintro rfl
    cases digit

namespace DigitRun

variable {radix : Nat} {run : List Char} {c : Char}

theorem concat (isRun : DigitRun radix run) (digit : Number.isDigitOf radix c = true) :
    DigitRun radix (run ++ [c]) := by
  induction isRun with
  | last first => exact .next first (.last digit)
  | next first _ induction => exact .next first induction
  | separated first _ induction => exact .separated first induction

theorem concat_separated (isRun : DigitRun radix run) (digit : Number.isDigitOf radix c = true) :
    DigitRun radix (run ++ ['_', c]) := by
  induction isRun with
  | last first => exact .separated first (.last digit)
  | next first _ induction => exact .next first induction
  | separated first _ induction => exact .separated first induction

theorem starts (isRun : DigitRun radix run) :
    ∃ c later, run = c :: later ∧ Number.isDigitOf radix c = true := by
  cases isRun with
  | last digit | next digit | separated digit => exact ⟨_, _, rfl, digit⟩

theorem uncons (isRun : DigitRun radix (c :: run)) : Number.isDigitOf radix c = true ∧
    (run = [] ∨ DigitRun radix run ∨ ∃ later, run = '_' :: later ∧ DigitRun radix later) := by
  cases isRun with
  | last digit => exact ⟨digit, .inl rfl⟩
  | next digit later => exact ⟨digit, .inr (.inl later)⟩
  | separated digit later => exact ⟨digit, .inr (.inr ⟨_, rfl, later⟩)⟩

theorem not_nil : ¬ DigitRun radix [] := nofun

end DigitRun

theorem ExponentForm.startsWithMark {exponent : List Char} (isExponent : ExponentForm exponent) :
    exponent = [] ∨ exponent.head? = some 'e' ∨ exponent.head? = some 'E' := by
  cases isExponent with
  | none => exact .inl rfl
  | unsigned isMark | signed isMark =>
      right
      rcases isMark with rfl | rfl
      · exact .inl rfl
      · exact .inr rfl

namespace Reader

open Number

variable {rest : List Char}

def DigitsSoFar (radix : Nat) (passed : List Char) : List Char × Bool → Prop
  | ([], afterSeparator) => passed = [] ∧ afterSeparator = false
  | (_, false) => DigitRun radix passed
  | (_, true) => ∃ run, passed = run ++ ['_'] ∧ DigitRun radix run

theorem readDigits_reads (radix : Nat) (before : Cursor) :
    Ensures (readDigits radix) before fun digits after => ∃ passed,
      before.rest = passed ++ after.rest ∧ Stops (isDigitOf radix) after.rest ∧
        (digits = [] ∧ passed = [] ∨ digits ≠ [] ∧ DigitRun radix passed) := by
  refine .bind (.mono (?_ : Ensures _ before fun reversed after => ∃ passed,
    before.rest = passed ++ after.rest ∧ Stops (isDigitOf radix) after.rest ∧
      DigitsSoFar radix passed (reversed, false)) ?_)
  · apply Ensures.get
    refine .repeatWithin (fun state cursor => ∃ passed, before.rest = passed ++ cursor.rest ∧
      DigitsSoFar radix passed state) ?_ (fun _ => .bindAny fun _ _ => .throw _) _
      ⟨[], rfl, rfl, rfl⟩
    rintro ⟨reversed, afterSeparator⟩ cursor ⟨passed, text, soFar⟩
    apply peek?_bind
    cases unread : cursor.rest with
    | nil =>
        refine .ite (fun _ => .bindAny fun _ _ => .bind (.throw _)) fun noSeparator => .pure ?_
        simp only [Bool.not_eq_true] at noSeparator
        subst noSeparator
        exact ⟨passed, text, unread ▸ nofun, soFar⟩
    | cons c others =>
        dsimp only [List.head?_cons]
        refine .ite (fun isSeparator => ?_) fun notSeparator => .ite (fun digit => ?_) fun noDigit =>
          .ite (fun _ => .bindAny fun _ _ => .throw _) fun noSeparator => .pure ?_
        · cases eq_of_beq isSeparator
          refine .ite (fun _ => .bindAny fun _ _ => .bind (.throw _)) fun notFirst => ?_
          refine .ite (fun _ => .bindAny fun _ _ => .bind (.throw _)) fun single => ?_
          refine skip_bind unread (by decide) fun after remains => .pure ⟨passed ++ ['_'], ?_, ?_⟩
          · rw [text, unread, remains, List.append_assoc]
            rfl
          · cases reversed with
            | nil => exact absurd rfl notFirst
            | cons digit reversed =>
                simp only [Bool.not_eq_true] at single
                subst single
                exact ⟨passed, rfl, soFar⟩
        · refine skip_bind unread (ne_of_isDigitOf digit).2 fun after remains => .pure ⟨passed ++ [c], ?_, ?_⟩
          · rw [text, unread, remains, List.append_assoc]
            rfl
          · cases reversed with
            | nil =>
                rcases soFar with ⟨rfl, -⟩
                exact .last digit
            | cons first reversed =>
                cases afterSeparator with
                | false => exact soFar.concat digit
                | true =>
                    rcases soFar with ⟨run, rfl, isRun⟩
                    rw [List.append_assoc]
                    exact isRun.concat_separated digit
        · simp only [Bool.not_eq_true] at noSeparator
          subst noSeparator
          refine ⟨passed, text, ?_, soFar⟩
          rw [unread]
          intro d head
          cases head
          exact Bool.eq_false_iff.mpr noDigit
  · rintro reversed after ⟨passed, text, stops, soFar⟩
    refine .pure ⟨passed, text, stops, ?_⟩
    cases reversed with
    | nil => exact .inl ⟨rfl, soFar.1⟩
    | cons digit reversed => exact .inr ⟨by simp, soFar⟩

def DigitsLeft (radix : Nat) (left : List Char) : List Char × Bool → Prop
  | (reversed, false) => left = [] ∨ DigitRun radix left ∨
      reversed ≠ [] ∧ ∃ run, left = '_' :: run ∧ DigitRun radix run
  | (_, true) => DigitRun radix left

theorem readDigitRun_takes {radix : Nat} {passed : List Char}
    (isRun : passed = [] ∨ DigitRun radix passed)
    (stops : Stops (fun c => isDigitOf radix c || c == '_') rest) :
    Takes (readDigits radix) (passed ++ rest) (passed.filter (· != '_')) rest := by
  refine Takes.bind (?_ : Takes _ _ (passed.filter (· != '_')).reverse rest) ?_
  · apply Takes.loopWith fun state text => ∃ left, text = left ++ rest ∧
      DigitsLeft radix left state ∧ state.1.reverse ++ left.filter (· != '_') =
        passed.filter (· != '_')
    · rintro ⟨reversed, afterSeparator⟩ text ⟨left, rfl, isLeft, whole⟩
      cases left with
      | nil =>
          left
          cases afterSeparator with
          | true => exact absurd isLeft DigitRun.not_nil
          | false =>
              rw [← whole, List.filter_nil, List.append_nil, List.reverse_reverse]
              apply Takes.bind Takes.peek?
              cases rest with
              | nil => exact .iteFalse nofun (.pure _)
              | cons c rest =>
                  have stop := stops c rfl
                  simp only [Bool.or_eq_false_iff] at stop
                  apply Takes.iteFalse (by simp [stop.2])
                  apply Takes.iteFalse (by simp [stop.1])
                  exact .iteFalse nofun (.pure _)
      | cons c left =>
          right
          have cases' : DigitRun radix (c :: left) ∨
              afterSeparator = false ∧ reversed ≠ [] ∧ c = '_' ∧ DigitRun radix left := by
            cases afterSeparator with
            | true => exact .inl isLeft
            | false =>
                rcases isLeft with isNil | isRun | ⟨notFirst, run, isSeparator, isRun⟩
                · cases isNil
                · exact .inl isRun
                · cases isSeparator
                  exact .inr ⟨rfl, notFirst, rfl, isRun⟩
          rcases cases' with isRun | ⟨rfl, notFirst, rfl, isRun⟩
          · rcases isRun.uncons with ⟨digit, later⟩
            rcases ne_of_isDigitOf digit with ⟨noSeparator, single⟩
            refine ⟨(c :: reversed, false), left ++ rest, ?_, by simp, left, rfl, ?_, ?_⟩
            · apply Takes.bind Takes.peek?
              apply Takes.iteFalse (by simpa using noSeparator)
              apply Takes.iteTrue digit
              exact (Takes.skip single).bind (.pure _)
            · exact later.imp_right (Or.imp_right fun separated => ⟨by simp, separated⟩)
            · simpa [noSeparator] using whole
          · refine ⟨(reversed, true), left ++ rest, ?_, by simp, left, rfl, isRun, ?_⟩
            · apply Takes.bind Takes.peek?
              apply Takes.iteTrue (by decide)
              apply Takes.iteFalse (by simpa using notFirst)
              apply Takes.iteFalse nofun
              exact (Takes.skip (by decide)).bind (.pure _)
            · simpa using whole
    · exact ⟨passed, rfl, isRun.imp_right .inl, rfl⟩
  · rw [List.reverse_reverse]
    exact .pure _

/-! ## Fractions and exponents -/

theorem readFraction_reads (before : Cursor) :
    Ensures readFraction before fun _ after => ∃ passed,
      before.rest = passed ++ after.rest ∧ FractionForm passed ∧
        (∀ c others, before.rest = '.' :: c :: others → isDigitOf 10 c = true →
          ∃ run, passed = '.' :: run ∧ DigitRun 10 run) := by
  apply peek?_bind
  refine .ite (fun isPoint => ?_) fun noPoint => .pure ⟨[], rfl, .none, ?_⟩
  · cases unread : before.rest with
    | nil =>
        rw [unread] at isPoint
        cases isPoint
    | cons c others =>
        rw [unread] at isPoint
        have isPoint : c = '.' := by simpa using isPoint
        subst isPoint
        refine skip_bind unread (by decide) fun middle remains => ?_
        refine (readDigits_reads 10 middle).mono ?_
        rintro digits after ⟨passed, text, stops, ⟨-, rfl⟩ | ⟨-, isRun⟩⟩
        · refine ⟨['.'], by rw [← remains, text]; rfl, .point, ?_⟩
          rintro d later same digit
          cases same
          have stop := stops d (by rw [← List.nil_append after.rest, ← text, remains]; rfl)
          rw [digit] at stop
          cases stop
        · exact ⟨'.' :: passed, by rw [← remains, text]; rfl, .digits isRun,
            fun _ _ _ _ => ⟨passed, rfl, isRun⟩⟩
  · intro c others text
    rw [text] at noPoint
    exact absurd rfl noPoint

def EndsDigits (rest : List Char) : Prop :=
  Stops (fun c => isDigitOf 10 c || c == '_' || c == '.') rest

theorem EndsDigits.stops (ends : EndsDigits rest) :
    Stops (fun c => isDigitOf 10 c || c == '_') rest := by
  intro c head
  have stop := ends c head
  rw [Bool.or_eq_false_iff] at stop
  exact stop.1

def fractionDigits (fraction : List Char) : List Char := (fraction.drop 1).filter (· != '_')

theorem readFraction_takes {fraction : List Char} (isFraction : FractionForm fraction)
    (ends : EndsDigits rest) :
    Takes readFraction (fraction ++ rest) (fractionDigits fraction) rest := by
  have point : ∀ {run : List Char}, run = [] ∨ DigitRun 10 run →
      Takes readFraction ('.' :: (run ++ rest)) (run.filter (· != '_')) rest := by
    intro run isRun
    apply Takes.bind Takes.peek?
    apply Takes.iteTrue rfl
    exact (Takes.skip (by decide)).bind (readDigitRun_takes isRun ends.stops)
  cases isFraction with
  | none =>
      refine Takes.bind Takes.peek? (Takes.iteFalse ?_ (.pure _))
      intro isPoint
      have stop := ends '.' (eq_of_beq isPoint)
      simp at stop
  | point => exact point (.inl rfl)
  | digits isRun => exact point (.inr isRun)

theorem readSign_reads (before : Cursor) :
    Ensures readSign before fun _ after => before.rest = after.rest ∨
      ∃ sign, (sign = '+' ∨ sign = '-') ∧ before.rest = sign :: after.rest := by
  apply peek?_bind
  cases unread : before.rest with
  | nil => exact .pure (.inl unread.symm)
  | cons c others =>
      dsimp only [List.head?_cons]
      split
      · next isMinus =>
          cases isMinus
          exact skip_bind unread (by decide) fun after remains => .pure
            (.inr ⟨'-', .inr rfl, by rw [remains]⟩)
      · next isPlus =>
          cases isPlus
          exact skip_bind unread (by decide) fun after remains => .pure
            (.inr ⟨'+', .inl rfl, by rw [remains]⟩)
      · exact .pure (.inl unread.symm)

theorem readExponent_reads (before : Cursor) :
    Ensures readExponent before fun _ after => ∃ passed,
      before.rest = passed ++ after.rest ∧ ExponentForm passed := by
  refine .bind (.get (.pure (peek?_bind ?_)))
  cases unread : before.rest with
  | nil => exact .pure ⟨[], unread.symm, .none⟩
  | cons c others =>
      refine .ite (fun isMark => ?_) fun _ => .pure ⟨[], unread.symm, .none⟩
      have isMark : c = 'e' ∨ c = 'E' := by simpa using isMark
      have single : c ≠ '\r' := by rcases isMark with rfl | rfl <;> decide
      refine skip_bind unread single fun middle remains => .bind ((readSign_reads middle).mono ?_)
      intro negative behind signed
      refine .bind ((readDigits_reads 10 behind).mono ?_)
      rintro digits after ⟨run, text, -, found⟩
      refine .ite (fun _ => .bind (.throw _)) fun notEmpty => .pure ?_
      have isRun : DigitRun 10 run := by
        rcases found with ⟨rfl, -⟩ | ⟨-, isRun⟩
        · exact absurd rfl notEmpty
        · exact isRun
      rcases signed with unsigned | ⟨sign, isSign, unread'⟩
      · refine ⟨c :: run, ?_, .unsigned isMark isRun⟩
        rw [List.cons_append, ← text, ← unsigned, remains]
      · refine ⟨c :: sign :: run, ?_, .signed isMark isSign isRun⟩
        rw [List.cons_append, List.cons_append, ← text, ← unread', remains]

def exponentOfRun (negative : Bool) (run : List Char) : Int :=
  let value := Int.ofNat (exponentOfDigits (run.filter (· != '_')))
  if negative then -value else value

def writtenExponent (exponent : List Char) : Int :=
  let signed := splitSign (exponent.drop 1)
  exponentOfRun signed.1 signed.2

theorem splitSign_of_head {text : List Char} (noMinus : text.head? ≠ some '-')
    (noPlus : text.head? ≠ some '+') : splitSign text = (false, text) := by
  unfold splitSign
  split
  · exact absurd rfl noMinus
  · exact absurd rfl noPlus
  · rfl

theorem splitSign_digits {run : List Char} (isRun : DigitRun 10 run) :
    splitSign run = (false, run) := by
  rcases isRun.starts with ⟨c, later, rfl, digit⟩
  apply splitSign_of_head
  · rintro ⟨⟩
    cases digit
  · rintro ⟨⟩
    cases digit

theorem readExponent_takes_form {exponent : List Char} (isExponent : ExponentForm exponent)
    (ends : EndsNumber rest) :
    Takes readExponent (exponent ++ rest) (writtenExponent exponent) rest := by
  have finish : ∀ {run : List Char} (negative : Bool) (start : Position), DigitRun 10 run →
      Takes (do
        let digits ← readDigits 10
        if digits.isEmpty then fail .invalidToken start
        let value := Int.ofNat (exponentOfDigits digits)
        return if negative then -value else value) (run ++ rest)
        (exponentOfRun negative run) rest := by
    intro run negative start isRun
    apply (readDigitRun_takes (.inr isRun) (ends.stops fun c goesOn => ?_)).bind
    · apply Takes.iteFalse _ (.pure _)
      rcases isRun.starts with ⟨c, later, rfl, digit⟩
      simp [(ne_of_isDigitOf digit).1]
    · rw [isDigitOf_ten] at goesOn
      exact isNamePart_of_digitOrSeparator goesOn
  cases isExponent with
  | none =>
      refine Takes.position fun start => Takes.bind Takes.peek? ?_
      cases rest with
      | nil => exact .pure _
      | cons c rest =>
          apply Takes.iteFalse _ (.pure _)
          intro isMark
          have stop := ends c rfl
          simp only [Bool.or_eq_true, beq_iff_eq] at isMark
          rcases isMark with rfl | rfl <;> exact absurd stop (by decide)
  | @unsigned mark run isMark isRun =>
      have noSign : Takes readSign (run ++ rest) false (run ++ rest) := by
        rcases isRun.starts with ⟨c, later, rfl, digit⟩
        apply Takes.bind Takes.peek?
        dsimp only [List.cons_append, List.head?_cons]
        split
        · next isMinus =>
            cases isMinus
            cases digit
        · next isPlus =>
            cases isPlus
            cases digit
        · exact .pure _
      have value : writtenExponent (mark :: run) = exponentOfRun false run := by
        simp only [writtenExponent, List.drop_succ_cons, List.drop_zero, splitSign_digits isRun]
      rw [value]
      refine Takes.position fun start => Takes.bind Takes.peek? ?_
      apply Takes.iteTrue (by simpa using isMark)
      apply (Takes.skip (by rcases isMark with rfl | rfl <;> decide)).bind
      exact noSign.bind (finish false start isRun)
  | @signed mark sign run isMark isSign isRun =>
      have isSigned : Takes readSign (sign :: (run ++ rest)) (sign == '-') (run ++ rest) := by
        apply Takes.bind Takes.peek?
        rcases isSign with rfl | rfl
        · exact (Takes.skip (by decide)).bind (.pure _)
        · exact (Takes.skip (by decide)).bind (.pure _)
      have value : writtenExponent (mark :: sign :: run) = exponentOfRun (sign == '-') run := by
        rcases isSign with rfl | rfl <;> rfl
      rw [value]
      refine Takes.position fun start => Takes.bind Takes.peek? ?_
      apply Takes.iteTrue (by simpa using isMark)
      apply (Takes.skip (by rcases isMark with rfl | rfl <;> decide)).bind
      exact isSigned.bind (finish (sign == '-') start isRun)

theorem stops_exponent {exponent : List Char} (isExponent : ExponentForm exponent)
    (ends : EndsNumber rest) {goesOn : Char → Bool}
    (within : ∀ c, goesOn c = true → Text.isNamePart c = true ∨ c = '\\' ∨ c = '.')
    (notMark : goesOn 'e' = false ∧ goesOn 'E' = false) : Stops goesOn (exponent ++ rest) := by
  rcases isExponent.startsWithMark with rfl | isMark
  · exact ends.stops within
  · intro c head
    cases exponent with
    | nil => simp at isMark
    | cons mark later =>
        cases head
        rcases isMark with isMark | isMark
        · cases isMark
          exact notMark.1
        · cases isMark
          exact notMark.2

theorem endsDigits_exponent {exponent : List Char} (isExponent : ExponentForm exponent)
    (ends : EndsNumber rest) : EndsDigits (exponent ++ rest) := by
  refine stops_exponent isExponent ends (fun c goesOn => ?_) (by decide)
  rw [Bool.or_eq_true, isDigitOf_ten, beq_iff_eq] at goesOn
  rcases goesOn with digit | point
  · exact isNamePart_of_digitOrSeparator digit
  · exact .inr (.inr point)

/-- What follows the whole part of a number does not go on with it. -/
theorem stops_fraction {fraction exponent : List Char} (isFraction : FractionForm fraction)
    (isExponent : ExponentForm exponent) (ends : EndsNumber rest) {goesOn : Char → Bool}
    (within : ∀ c, goesOn c = true → Text.isNamePart c = true ∨ c = '\\' ∨ c = '.')
    (notMark : goesOn 'e' = false ∧ goesOn 'E' = false) (notPoint : goesOn '.' = false) :
    Stops goesOn (fraction ++ (exponent ++ rest)) := by
  cases isFraction with
  | none => exact stops_exponent isExponent ends within notMark
  | point | digits =>
      intro c head
      cases head
      exact notPoint

def decimalNumber (whole fraction exponent : List Char) : Float :=
  DecimalText.toFloat {
    whole
    fraction := fractionDigits fraction
    exponent := writtenExponent exponent }

theorem readDecimalTail_takes_form (whole : List Char) {fraction exponent : List Char}
    (isFraction : FractionForm fraction) (isExponent : ExponentForm exponent)
    (ends : EndsNumber rest) :
    Takes (readDecimalTail whole) (fraction ++ (exponent ++ rest))
      (decimalNumber whole fraction exponent) rest :=
  (readFraction_takes isFraction (endsDigits_exponent isExponent ends)).bind
    ((readExponent_takes_form isExponent ends).bind (.pure _))

theorem readDecimalTail_reads (whole : List Char) (before : Cursor) :
    Ensures (readDecimalTail whole) before fun _ after => ∃ fraction exponent,
      before.rest = fraction ++ (exponent ++ after.rest) ∧ FractionForm fraction ∧
        ExponentForm exponent ∧
        (∀ c others, before.rest = '.' :: c :: others → isDigitOf 10 c = true →
          ∃ run, fraction = '.' :: run ∧ DigitRun 10 run) := by
  refine .bind ((readFraction_reads before).mono ?_)
  rintro digits middle ⟨fraction, text, isFraction, pointed⟩
  refine .bind ((readExponent_reads middle).mono ?_)
  rintro value after ⟨exponent, text', isExponent⟩
  exact .pure ⟨fraction, exponent, by rw [text, text'], isFraction, isExponent, pointed⟩

/-! ## Numbers -/

def StartsNumber (text : List Char) : Prop :=
  ∃ first others, text = first :: others ∧
    (first.isDigit = true ∨ first = '.' ∧ others.head?.any Char.isDigit = true)

theorem readDecimal_reads {before : Cursor} (starts : StartsNumber before.rest)
    (alone : ∀ c others, before.rest = '0' :: c :: others → (c.isDigit || c == '_') = false) :
    Ensures readDecimal before fun _ after => ∃ passed,
      before.rest = passed ++ after.rest ∧ NumeralForm false passed := by
  apply peek?_bind
  refine .ite (fun isPoint => ?_) fun noPoint => ?_
  · refine (readDecimalTail_reads ['0'] before).mono ?_
    rintro number after ⟨fraction, exponent, text, -, isExponent, pointed⟩
    rcases starts with ⟨first, others, unread, starts⟩
    have isPoint : first = '.' := by simpa [unread] using isPoint
    subst isPoint
    rcases starts with digit | ⟨-, digit⟩
    · cases digit
    · cases others with
      | nil => cases digit
      | cons c others =>
          have digit : isDigitOf 10 c = true := by rwa [isDigitOf_ten]
          rcases pointed c others unread digit with ⟨run, rfl, isRun⟩
          refine ⟨'.' :: (run ++ exponent), ?_, .pointed isRun isExponent⟩
          rw [text]
          simp
  · refine .bind ((readDigits_reads 10 before).mono ?_)
    rintro digits middle ⟨whole, text, stops, found⟩
    refine (readDecimalTail_reads digits middle).mono ?_
    rintro number after ⟨fraction, exponent, text', isFraction, isExponent, -⟩
    refine ⟨whole ++ (fraction ++ exponent), by simp [text, text'], ?_⟩
    rcases starts with ⟨first, others, unread, starts⟩
    have digit : isDigitOf 10 first = true := by
      rw [isDigitOf_ten]
      exact starts.resolve_right fun isPoint => noPoint (by simp [unread, isPoint.1])
    rcases found with ⟨-, rfl⟩ | ⟨-, isRun⟩
    · have stop := stops first (by rw [← List.nil_append middle.rest, ← text, unread]; rfl)
      rw [digit] at stop
      cases stop
    · refine .decimal isRun ?_ isFraction isExponent
      intro head
      rcases isRun.starts with ⟨c, later, rfl, -⟩
      cases head
      -- After the zero there is neither a digit nor a separator, so the run is over.
      have ends : ∀ d rest, later = d :: rest → (d.isDigit || d == '_') = false := by
        rintro d rest rfl
        exact alone d (rest ++ middle.rest) text
      rcases isRun.uncons.2 with rfl | isLater | ⟨rest, rfl, -⟩
      · rfl
      · rcases isLater.starts with ⟨d, rest, rfl, digit⟩
        rw [isDigitOf_ten] at digit
        have stop := ends d rest rfl
        rw [digit] at stop
        cases stop
      · exact absurd (ends '_' rest rfl) (by decide)

theorem mem_marks {mark : Char} {radix : Nat} (found : radixOfMark? mark = some radix) :
    (mark, radix) ∈ [('x', 16), ('X', 16), ('o', 8), ('O', 8), ('b', 2), ('B', 2)] := by
  unfold radixOfMark? at found
  split at found
  · next isMark =>
      cases found
      simpa using isMark
  · split at found
    · next isMark =>
        cases found
        simpa using isMark
    · split at found
      · next isMark =>
          cases found
          simpa using isMark
      · cases found

theorem readRadixNumeral_reads {mark : Char} {radix : Nat} (found : radixOfMark? mark = some radix)
    (start : Position) {before : Cursor} {others : List Char}
    (unread : before.rest = '0' :: mark :: others) :
    Ensures (readRadixNumeral radix start) before fun _ after => ∃ passed,
      before.rest = passed ++ after.rest ∧ NumeralForm false passed := by
  have single : mark ≠ '\r' := by
    rintro rfl
    cases found
  refine skip_bind unread (by decide) fun middle remains => ?_
  refine skip_bind remains single fun behind remains => ?_
  refine .bind ((readDigits_reads radix behind).mono ?_)
  rintro digits after ⟨run, text, -, isRun⟩
  refine .ite (fun _ => .bind (.throw _)) fun notEmpty => .pure ?_
  rcases isRun with ⟨rfl, -⟩ | ⟨-, isRun⟩
  · exact absurd rfl notEmpty
  · refine ⟨'0' :: mark :: run, ?_, .prefixed (mem_marks found) isRun⟩
    rw [unread, ← remains, text]
    rfl

theorem Takes.ensures {α : Type} {reader : Reader α} {before : Cursor} {result : α}
    (takes : Takes reader before.rest result rest) :
    Ensures reader before fun found after => found = result ∧ after.rest = rest := by
  intro found after run
  rcases takes before rfl with ⟨found', after', run', same, remains, -⟩
  cases run.symm.trans run'
  exact ⟨same, remains⟩

theorem large_of_not_octal {c : Char} (digit : c.isDigit = true) (large : isDigitOf 8 c = false) :
    c = '8' ∨ c = '9' := by
  rw [isDigit_iff] at digit
  have digits : ∀ index < 10, isDigitOf 8 (Char.ofNat (48 + index)) = false →
      Char.ofNat (48 + index) = '8' ∨ Char.ofNat (48 + index) = '9' := by
    decide
  have equal : c = Char.ofNat (48 + (c.toNat - 48)) := by
    rw [Nat.add_sub_cancel' digit.1, Char.ofNat_toNat]
  rw [equal] at large ⊢
  exact digits _ (by omega) large

theorem isDigit_of_octal {c : Char} (octal : isDigitOf 8 c = true) : c.isDigit = true := by
  rw [← isDigitOf_ten]
  simp only [isDigitOf, digitValue?, Option.isSome_filter, Option.any_eq_true] at octal ⊢
  rcases octal with ⟨value, found, small⟩
  simp only [decide_eq_true_eq] at small
  exact ⟨value, found, decide_eq_true (by omega)⟩

theorem takeWhile_isDigit {text : List Char} {c : Char} {others : List Char}
    (unread : text = '0' :: c :: others) (digit : c.isDigit = true) :
    ∃ digits left, text.takeWhile Char.isDigit = '0' :: digits ∧ digits ≠ [] ∧
      text = ('0' :: digits) ++ left ∧ ∀ d ∈ '0' :: digits, d.isDigit = true := by
  refine ⟨c :: others.takeWhile Char.isDigit, others.dropWhile Char.isDigit, ?_, by simp, ?_, ?_⟩
  · rw [unread, List.takeWhile_cons_of_pos (by decide), List.takeWhile_cons_of_pos digit]
  · rw [unread, List.cons_append, List.cons_append, List.takeWhile_append_dropWhile]
  · intro d member
    rcases List.mem_cons.mp member with rfl | member
    · decide
    · rcases List.mem_cons.mp member with rfl | member
      · exact digit
      · exact List.mem_takeWhile_imp member

theorem readZeroNumeral_reads {before : Cursor} {c : Char} {others : List Char}
    (unread : before.rest = '0' :: c :: others) (digit : c.isDigit = true) :
    Ensures readZeroNumeral before fun _ after => ∃ passed,
      before.rest = passed ++ after.rest ∧ NumeralForm true passed := by
  apply Ensures.get
  rcases takeWhile_isDigit unread digit with ⟨digits, left, isWhile, notEmpty, text, all⟩
  dsimp only
  rw [isWhile]
  have takes : Takes (skipMany ('0' :: digits).length) before.rest () left := by
    rw [text]
    exact Scanner.skipMany_takes fun isReturn => absurd (all _ isReturn) (by decide)
  refine .bind (takes.ensures.mono ?_)
  rintro - middle ⟨-, rfl⟩
  refine .ite (fun octal => .pure ⟨'0' :: digits, text, .octal notEmpty ?_⟩) fun large => ?_
  · exact fun d member => List.all_eq_true.mp octal d (List.mem_cons_of_mem _ member)
  · apply peek?_bind
    refine .ite (fun _ => .bindAny fun _ _ => .bind (.throw _)) fun _ => ?_
    refine (readDecimalTail_reads _ _).mono ?_
    rintro number after ⟨fraction, exponent, text', isFraction, isExponent, -⟩
    refine ⟨'0' :: (digits ++ (fraction ++ exponent)), by simp [text, text'],
      .leadingZero ?_ ?_ isFraction isExponent⟩
    · intro d member
      rw [isDigitOf_ten]
      exact all d (List.mem_cons_of_mem _ member)
    · simp only [List.all_eq_true, not_forall] at large
      rcases large with ⟨d, member, notOctal⟩
      simp only [Bool.not_eq_true] at notOctal
      rcases List.mem_cons.mp member with rfl | inside
      · exact absurd notOctal (by decide)
      · rcases large_of_not_octal (all d member) notOctal with rfl | rfl
        · exact .inl inside
        · exact .inr inside

theorem readNumeral_reads (start : Position) {before : Cursor} (starts : StartsNumber before.rest) :
    Ensures (readNumeral start) before fun result after => ∃ passed,
      before.rest = passed ++ after.rest ∧ NumeralForm result.2 passed := by
  have decimal : (∀ c others, before.rest = '0' :: c :: others → (c.isDigit || c == '_') = false) →
      Ensures (do return (← readDecimal, false)) before fun (result : Float × Bool) after =>
        ∃ passed, before.rest = passed ++ after.rest ∧ NumeralForm result.2 passed :=
    fun alone => .bind ((readDecimal_reads starts alone).mono fun _ _ form => .pure form)
  refine Ensures.bind (Ensures.mono (?_ : Ensures (readNumeralBody start) before fun result after =>
    ∃ passed, before.rest = passed ++ after.rest ∧ NumeralForm result.2 passed) ?_)
  · apply peek?_bind
    refine .ite (fun notZero => decimal ?_) fun isZero => ?_
    · intro c others unread
      simp [unread] at notZero
    · refine .bind (.get (.pure ?_))
      rcases starts with ⟨first, others, unread, -⟩
      have isZero : first = '0' := by simpa [unread] using isZero
      subst isZero
      have second : before.peekSecond? = others.head? := by
        rw [Cursor.peekSecond?, unread]
        exact List.head?_eq_getElem?.symm
      rw [second]
      cases others with
      | nil =>
          refine decimal fun c others unread' => ?_
          rw [unread'] at unread
          cases unread
      | cons mark others =>
          dsimp only [List.head?_cons]
          split
          · next radix found =>
              refine .bind ((readRadixNumeral_reads found start unread).mono ?_)
              exact fun _ _ form => .pure form
          · refine .ite (fun _ => .bindAny fun _ _ => .bindAny fun _ _ => .throw _) fun noSeparator => ?_
            refine .ite (fun digit => ?_) fun noDigit => ?_
            · refine .bind ((readZeroNumeral_reads unread digit).mono ?_)
              exact fun _ _ form => .pure form
            · refine decimal fun c others unread' => ?_
              rw [unread'] at unread
              cases unread
              simp only [Bool.or_eq_false_iff]
              exact ⟨by simpa using noDigit, by simpa using noSeparator⟩
  · rintro result middle form
    apply peek?_bind
    exact .ite (fun _ => .bind (.throw _)) fun _ => .pure form

theorem radixOfMark?_of_mem {mark : Char} {radix : Nat}
    (isMark : (mark, radix) ∈ [('x', 16), ('X', 16), ('o', 8), ('O', 8), ('b', 2), ('B', 2)]) :
    radixOfMark? mark = some radix ∧ mark ≠ '\r' := by
  simp only [List.mem_cons, Prod.mk.injEq, List.not_mem_nil, or_false] at isMark
  rcases isMark with ⟨rfl, rfl⟩ | ⟨rfl, rfl⟩ | ⟨rfl, rfl⟩ | ⟨rfl, rfl⟩ | ⟨rfl, rfl⟩ | ⟨rfl, rfl⟩ <;>
    exact ⟨rfl, by decide⟩

theorem readDecimal_takes {whole fraction exponent : List Char} (isRun : DigitRun 10 whole)
    (isFraction : FractionForm fraction) (isExponent : ExponentForm exponent)
    (ends : EndsNumber rest) :
    Takes readDecimal (whole ++ (fraction ++ (exponent ++ rest)))
      (decimalNumber (whole.filter (· != '_')) fraction exponent) rest := by
  have tail := readDecimalTail_takes_form (whole.filter (· != '_')) isFraction isExponent ends
  refine Takes.bind Takes.peek? (Takes.iteFalse ?_ (Takes.bind ?_ tail))
  · rcases isRun.starts with ⟨c, later, rfl, digit⟩
    intro isPoint
    have isPoint : c = '.' := by simpa using isPoint
    subst isPoint
    cases digit
  · refine readDigitRun_takes (.inr isRun) (stops_fraction isFraction isExponent ends ?_ ?_ ?_)
    · intro c goesOn
      rw [isDigitOf_ten] at goesOn
      exact isNamePart_of_digitOrSeparator goesOn
    · decide
    · decide

theorem readDecimal_takes_pointed {run exponent : List Char} (isRun : DigitRun 10 run)
    (isExponent : ExponentForm exponent) (ends : EndsNumber rest) :
    Takes readDecimal ('.' :: (run ++ (exponent ++ rest)))
      (decimalNumber ['0'] ('.' :: run) exponent) rest :=
  Takes.bind Takes.peek? (Takes.iteTrue (by rfl)
    (readDecimalTail_takes_form ['0'] (.digits isRun) isExponent ends))

theorem toNat_of_isDigitOf {radix : Nat} {c : Char} (digit : isDigitOf radix c = true) :
    48 ≤ c.toNat ∧ c.toNat ≤ 57 ∨ 97 ≤ c.toNat ∧ c.toNat ≤ 122 ∨
      65 ≤ c.toNat ∧ c.toNat ≤ 90 := by
  simp only [isDigitOf, digitValue?, Char.le_def, UInt32.le_iff_toNat_le, Char.toNat_val,
    Bool.and_eq_true, decide_eq_true_eq, Char.reduceToNat] at digit
  split at digit
  · exact .inl ‹_›
  · split at digit
    · exact .inr (.inl ‹_›)
    · split at digit
      · exact .inr (.inr ‹_›)
      · cases digit

theorem isNamePart_of_isDigitOf {radix : Nat} {c : Char} (digit : isDigitOf radix c = true) :
    Text.isNamePart c = true := by
  rcases toNat_of_isDigitOf digit with decimal | letter
  · exact isNamePart_of_isDigit ((isDigit_iff c).mpr decimal)
  · have ascii : c.toNat < 128 := by omega
    have isAlpha : c.isAlpha = true := by
      simp [Char.isAlpha, Char.isUpper, Char.isLower, UInt32.le_iff_toNat_le]
      omega
    simp [Text.isNamePart, Text.isAlphabetic, ascii, isAlpha]

/-- The reader of a number with a leading zero goes over all digits first. -/
theorem readZeroNumeral_takes {digits : List Char} {unread : List Char} {number : Float}
    (all : ∀ c ∈ digits, c.isDigit = true) (stops : Stops Char.isDigit unread)
    (takes : Takes (do
      if ('0' :: digits).all (isDigitOf 8) then
        return ofRadixDigits 8 ('0' :: digits)
      else
        if (← peek?) == some '_' then fail .separatorNotAllowed (← position)
        readDecimalTail ('0' :: digits)) unread number rest) :
    Takes readZeroNumeral ('0' :: (digits ++ unread)) number rest := by
  have run : ('0' :: (digits ++ unread)).takeWhile Char.isDigit = '0' :: digits := by
    rw [List.takeWhile_cons_of_pos (by decide), List.takeWhile_append_of_pos all]
    cases unread with
    | nil => rw [List.takeWhile_nil, List.append_nil]
    | cons c unread => rw [List.takeWhile_cons_of_neg (by simp [stops c rfl]), List.append_nil]
  intro cursor equal
  apply Achieves.get
  rw [equal, run]
  refine Takes.bind (Scanner.skipMany_takes ?_) takes cursor equal
  intro isReturn
  rcases List.mem_cons.mp isReturn with wrong | member
  · cases wrong
  · exact absurd (all _ member) (by decide)

theorem Takes.afterZero {start : Position} {c : Char} {text : List Char} {number : Float}
    (digit : c.isDigit = true) (takes : Takes readZeroNumeral ('0' :: c :: text) number rest) :
    Takes (readNumeralBody start) ('0' :: c :: text) (number, true) rest := by
  apply Takes.bind Takes.peek?
  apply Takes.iteFalse (by simp)
  apply Takes.bind Takes.peekSecond?
  have noRadix : radixOfMark? c = none := by
    cases found : radixOfMark? c with
    | none => rfl
    | some radix =>
        have isMark := mem_marks found
        simp only [List.mem_cons, Prod.mk.injEq, List.not_mem_nil, or_false] at isMark
        rcases isMark with isMark | isMark | isMark | isMark | isMark | isMark <;>
          exact absurd digit (by rw [isMark.1]; decide)
  have noSeparator : c ≠ '_' := by
    rintro rfl
    cases digit
  simp only [List.getElem?_cons_succ, List.getElem?_cons_zero, noRadix]
  apply Takes.iteFalse (by simpa using noSeparator)
  exact Takes.iteTrue digit (takes.bind (.pure _))

theorem readNumeral_takes_decimal {whole fraction exponent : List Char} (isRun : DigitRun 10 whole)
    (leading : whole.head? = some '0' → whole = ['0']) (isFraction : FractionForm fraction)
    (isExponent : ExponentForm exponent) (ends : EndsNumber rest) (start : Position) :
    Takes (readNumeral start) ((whole ++ (fraction ++ exponent)) ++ rest)
      (decimalNumber (whole.filter (· != '_')) fraction exponent, false) rest := by
  rw [List.append_assoc, List.append_assoc]
  refine Takes.readNumeral ((readDecimal_takes isRun isFraction isExponent ends).decimal ?_) ends
  intro c others text
  have alone := stops_fraction isFraction isExponent ends
    (fun _ => isNamePart_of_followsZero) (by decide) (by decide)
  rcases isRun.starts with ⟨first, later, rfl, -⟩
  rw [List.cons_append, List.cons_eq_cons] at text
  rcases text with ⟨rfl, unread⟩
  cases leading rfl
  exact alone c (congrArg List.head? unread)

theorem readNumeral_takes_pointed {run exponent : List Char} (isRun : DigitRun 10 run)
    (isExponent : ExponentForm exponent) (ends : EndsNumber rest) (start : Position) :
    Takes (readNumeral start) (('.' :: (run ++ exponent)) ++ rest)
      (decimalNumber ['0'] ('.' :: run) exponent, false) rest := by
  rw [List.cons_append, List.append_assoc]
  exact Takes.readNumeral ((readDecimal_takes_pointed isRun isExponent ends).decimal nofun) ends

theorem readNumeral_takes_prefixed {mark : Char} {radix : Nat} {run : List Char}
    (isMark : (mark, radix) ∈ [('x', 16), ('X', 16), ('o', 8), ('O', 8), ('b', 2), ('B', 2)])
    (isRun : DigitRun radix run) (ends : EndsNumber rest) (start : Position) :
    Takes (readNumeral start) (('0' :: mark :: run) ++ rest)
      (ofRadixDigits radix (run.filter (· != '_')), false) rest := by
  rcases radixOfMark?_of_mem isMark with ⟨found, single⟩
  refine Takes.readNumeral ?_ ends
  apply Takes.bind Takes.peek?
  apply Takes.iteFalse (by simp)
  apply Takes.bind Takes.peekSecond?
  simp only [List.cons_append, List.getElem?_cons_succ, List.getElem?_cons_zero, found]
  refine Takes.bind (?_ : Takes (readRadixNumeral radix start) _ _ rest) (.pure _)
  apply (Takes.skip (by decide)).bind
  apply (Takes.skip single).bind
  apply (readDigitRun_takes (.inr isRun) ?_).bind
  · apply Takes.iteFalse _ (.pure _)
    rcases isRun.starts with ⟨c, later, rfl, digit⟩
    simp [(ne_of_isDigitOf digit).1]
  · refine ends.stops fun c goesOn => .inl ?_
    rcases Bool.or_eq_true_iff.mp goesOn with digit | isSeparator
    · exact isNamePart_of_isDigitOf digit
    · cases eq_of_beq isSeparator
      decide

theorem readNumeral_takes_form {octal : Bool} {text : List Char} (form : NumeralForm octal text)
    (ends : EndsNumber rest) :
    ∃ number, ∀ start, Takes (readNumeral start) (text ++ rest) (number, octal) rest := by
  cases form with
  | decimal isRun leading isFraction isExponent =>
      exact ⟨_, readNumeral_takes_decimal isRun leading isFraction isExponent ends⟩
  | pointed isRun isExponent => exact ⟨_, readNumeral_takes_pointed isRun isExponent ends⟩
  | prefixed isMark isRun => exact ⟨_, readNumeral_takes_prefixed isMark isRun ends⟩
  | @octal digits notEmpty all =>
      cases digits with
      | nil => exact absurd rfl notEmpty
      | cons c digits =>
          have isDigit := fun d member => isDigit_of_octal (all d member)
          refine ⟨ofRadixDigits 8 ('0' :: c :: digits), fun start =>
            Takes.readNumeral (Takes.afterZero (isDigit c (List.mem_cons_self ..)) ?_) ends⟩
          apply readZeroNumeral_takes isDigit
            (ends.stops fun c digit => .inl (isNamePart_of_isDigit digit))
          apply Takes.iteTrue _ (.pure _)
          rw [List.all_cons, List.all_eq_true.mpr all]
          rfl
  | @leadingZero digits fraction exponent all large isFraction isExponent =>
      have tail := readDecimalTail_takes_form ('0' :: digits) isFraction isExponent ends
      simp only [isDigitOf_ten] at all
      have notOctal : ('0' :: digits).all (isDigitOf 8) = false := by
        rw [List.all_eq_false]
        rcases large with member | member
        · exact ⟨'8', List.mem_cons_of_mem _ member, by decide⟩
        · exact ⟨'9', List.mem_cons_of_mem _ member, by decide⟩
      have noDigits := stops_fraction isFraction isExponent ends
        (fun _ => isNamePart_of_digitOrSeparator) (by decide) (by decide)
      cases digits with
      | nil => simp at large
      | cons c digits =>
          rw [List.cons_append, List.append_assoc, List.append_assoc]
          refine ⟨decimalNumber ('0' :: c :: digits) fraction exponent, fun start =>
            Takes.readNumeral (Takes.afterZero (all c (List.mem_cons_self ..)) ?_) ends⟩
          refine readZeroNumeral_takes all (fun d head => (Bool.or_eq_false_iff.mp (noDigits d head)).1)
            (Takes.iteFalse (by simp [notOctal]) (Takes.bind Takes.peek? (Takes.iteFalse ?_ tail)))
          intro isSeparator
          exact absurd (noDigits '_' (eq_of_beq isSeparator)) (by decide)

theorem startsNumber_of_form {octal : Bool} {text : List Char} (form : NumeralForm octal text) :
    StartsNumber text := by
  cases form with
  | decimal isRun =>
      rcases isRun.starts with ⟨c, later, rfl, digit⟩
      exact ⟨c, _, rfl, .inl (by rwa [← isDigitOf_ten])⟩
  | pointed isRun =>
      rcases isRun.starts with ⟨c, later, rfl, digit⟩
      exact ⟨'.', _, rfl, .inr ⟨rfl, by rwa [isDigitOf_ten] at digit⟩⟩
  | prefixed | octal | leadingZero => exact ⟨'0', _, rfl, .inl rfl⟩

end Reader

/-! ## Texts that are a number -/

namespace Scanner

open Reader

theorem Branch.number_of_kind {start : Position} {first : Char} {before after : Scanner}
    {lexeme : Lexeme} (branch : Branch start first before lexeme after)
    (isNumber : lexeme.1 = .numericLiteral) :
    (first.isDigit = true ∨ first = '.' ∧ before.cursor.peekSecond?.any Char.isDigit = true) ∧
      ∃ number, lexeme.2.1 = .number number ∧
        readNumeral start before.cursor = .ok (number, lexeme.2.2) after.cursor := by
  cases branch with
  | string => cases isNumber
  | opening | resumption =>
      dsimp only [Lexeme.piece] at isNumber
      split at isNumber <;> cases isNumber
  | name _ run =>
      rcases readName_kind _ _ _ _ run with isName | ⟨word, isName⟩
      · cases isNumber.symm.trans isName
      · cases isNumber.symm.trans isName
  | punctuator => cases isNumber
  | number starts run => exact ⟨starts, _, rfl, run⟩

/-- A token that is a number is written as one, and it is what the reader of numbers makes
of its text. -/
theorem next_number (before : Scanner) : Ensures next before fun token after =>
    token.kind = .numericLiteral → NumeralForm token.octal token.raw.toList ∧
      ∃ number start cursor, token.payload = .number number ∧
        cursor.rest = token.raw.toList ++ after.cursor.rest ∧
        readNumeral start cursor = .ok (number, token.octal) after.cursor := by
  intro token after run isNumber
  rcases next_branch before _ _ run (by rw [isNumber]; decide) with
    ⟨cursor, first, -, head, raw, branch⟩
  rcases branch.number_of_kind isNumber with ⟨starts, number, payload, run⟩
  dsimp only at starts payload run
  have leads := (readNumeral_advances head (starts.imp_right And.left) _).ensures _ _ run
  have starts : StartsNumber cursor.rest := by
    rw [Cursor.peekSecond?] at starts
    rw [Cursor.peek?] at head
    cases text : cursor.rest with
    | nil =>
        rw [text] at head
        cases head
    | cons c others =>
        rw [text] at head starts
        cases head
        exact ⟨first, others, rfl, by simpa [List.head?_eq_getElem?] using starts⟩
  rcases readNumeral_reads _ starts _ _ run with ⟨passed, text, form⟩
  have spelled : token.raw.toList = passed := by
    rw [raw, leads.1.textUntil text, String.toList_ofList]
  rw [spelled]
  exact ⟨form, number, _, cursor, payload, text, run⟩

/-- A number is scanned from its text. -/
theorem scanLexeme_number {octal : Bool} {text : List Char} (form : NumeralForm octal text)
    {scanner : Scanner} {first : Char} (unread : scanner.cursor.rest = text)
    (head : text.head? = some first) (start : Position) :
    Achieves (scanLexeme start first) scanner fun lexeme after =>
      lexeme.1 = .numericLiteral ∧ lexeme.2.2 = octal ∧ after.cursor.rest = [] := by
  have ends : EndsNumber [] := nofun
  rcases readNumeral_takes_form form ends with ⟨number, takes⟩
  rw [List.append_nil] at takes
  rcases startsNumber_of_form form with ⟨c, others, rfl, starts⟩
  cases head
  have other : ∀ d : Char, d.isDigit = false → d ≠ '.' → first ≠ d := by
    rintro d noDigit noPoint rfl
    rcases starts with digit | isPoint
    · rw [noDigit] at digit
      cases digit
    · exact noPoint isPoint.1
  apply Achieves.get
  apply Achieves.iteFalse (by simp [other '\x22' rfl (by decide), other '\x27' rfl (by decide)])
  apply Achieves.iteFalse (by simp [other '\x60' rfl (by decide)])
  apply Achieves.iteFalse (by simp [other '\x7d' rfl (by decide)])
  apply Achieves.iteTrue
  · rw [Cursor.peekSecond?, unread]
    simpa [List.head?_eq_getElem?] using starts
  · apply Achieves.bind
    apply (read_achieves (takes start) unread).mono
    rintro found after ⟨rfl, remains, -⟩
    exact .pure ⟨rfl, rfl, remains⟩

end Scanner

open Reader Scanner

theorem tokenize_of_form {text : String} {octal : Bool} (form : NumeralForm octal text.toList) :
    ∃ token, tokenize text = .ok [token] ∧ token.kind = .numericLiteral ∧ token.raw = text ∧
      token.octal = octal := by
  rcases startsNumber_of_form form with ⟨first, others, unread, starts⟩
  have head : (ofString text).cursor.peek? = some first := congrArg List.head? unread
  have noTrivia : NoTrivia text.toList := by
    rw [unread]
    rcases starts with digit | ⟨rfl, -⟩
    · rcases isBlank_of_isDigit digit with ⟨notBlank, notSlash⟩
      exact noTrivia_cons notBlank notSlash
    · exact noTrivia_cons (by decide) (by decide)
  apply tokenize_of_next
  apply (next_achieves noTrivia head (scanLexeme_number form rfl head .first)).mono
  rintro token after ⟨⟨isNumber, isOctal, empty⟩, passes, -, -, raw⟩
  dsimp only at isNumber isOctal
  refine ⟨by rw [isNumber]; decide, empty, isNumber, ?_, isOctal⟩
  rw [raw, passes.leads.cursor.textUntil (by rw [empty, List.append_nil])]
  exact String.ofList_toList

/-- A text is a single number, followed by nothing, exactly if it has the form of one,
and the form tells whether strict mode refuses it. -/
theorem tokenize_number_iff (text : String) (octal : Bool) :
    (∃ token, tokenize text = .ok [token] ∧ token.kind = .numericLiteral ∧ token.raw = text ∧
      token.octal = octal) ↔ NumeralForm octal text.toList := by
  constructor
  · rintro ⟨token, found, isNumber, spelled, rfl⟩
    rcases fills_of_tokenize found spelled with ⟨after, run, -, -, -⟩
    rw [← spelled]
    exact (next_number _ _ _ run isNumber).1
  · exact tokenize_of_form

end ExprScript
