import ExprScript.Proofs.Token.Rereading

/-! # Decimal notation is read as the number it denotes -/

namespace ExprScript.Reader

open Number

variable {rest : List Char}

def AllDigits (digits : List Char) : Prop := ∀ c ∈ digits, c.isDigit = true

theorem readDigits_takes {digits : List Char} (all : AllDigits digits)
    (stops : Stops (fun c => c.isDigit || c == '_') rest) :
    Takes (readDigits 10) (digits ++ rest) digits rest := by
  refine Takes.bind (?_ : Takes _ _ digits.reverse rest) ?_
  · apply Takes.loopWith fun state text => state.2 = false ∧
      ∃ others, text = others ++ rest ∧ state.1.reverse ++ others = digits
    · rintro ⟨reversed, afterSeparator⟩ text ⟨rfl, others, rfl, whole⟩
      cases others with
      | nil =>
          left
          rw [← whole, List.append_nil, List.reverse_reverse]
          apply Takes.bind Takes.peek?
          cases rest with
          | nil => exact .iteFalse nofun (.pure _)
          | cons c rest =>
              have stop := stops c rfl
              simp only [Bool.or_eq_false_iff] at stop
              apply Takes.iteFalse (by simp [stop.2])
              apply Takes.iteFalse (by simp [isDigitOf_ten, stop.1])
              exact .iteFalse nofun (.pure _)
      | cons c others =>
          right
          have digit : c.isDigit = true := all c (by rw [← whole]; simp)
          refine ⟨(c :: reversed, false), others ++ rest, ?_, by simp, rfl, others, rfl, ?_⟩
          · apply Takes.bind Takes.peek?
            apply Takes.iteFalse
            · rintro isSeparator
              cases eq_of_beq isSeparator
              exact absurd digit (by decide)
            apply Takes.iteTrue (by rw [isDigitOf_ten, digit])
            refine (Takes.skip ?_).bind (.pure _)
            rintro rfl
            exact absurd digit (by decide)
          · simpa using whole
    · exact ⟨rfl, digits, rfl, rfl⟩
  · rw [List.reverse_reverse]
    exact .pure _

def exponentText (exponent : Int) : List Char :=
  if exponent = 0 then []
  else 'e' :: (if exponent < 0 then '-' else '+') :: Nat.toDigits 10 exponent.natAbs

def fractionText (fraction : List Char) : List Char :=
  if fraction = [] then [] else '.' :: fraction

def EndsNumber (rest : List Char) : Prop :=
  Stops (fun c => Text.isNamePart c || c == '\\' || c == '.') rest

theorem isNamePart_of_isDigit {c : Char} (digit : c.isDigit = true) :
    Text.isNamePart c = true := by
  have ascii : c.toNat < 128 := by
    have bounds := (isDigit_iff c).mp digit
    omega
  simp [Text.isNamePart, Text.isNumeric, ascii, digit]

theorem EndsNumber.stops (ends : EndsNumber rest) {goesOn : Char → Bool}
    (within : ∀ c, goesOn c = true → Text.isNamePart c = true ∨ c = '\\' ∨ c = '.') :
    Stops goesOn rest := by
  intro c head
  have stop := ends c head
  simp only [Bool.or_eq_false_iff, beq_eq_false_iff_ne] at stop
  cases continues : goesOn c with
  | false => rfl
  | true =>
      rcases within c continues with part | escape | point
      · rw [part] at stop
        cases stop.1.1
      · exact absurd escape stop.1.2
      · exact absurd point stop.2

theorem isNamePart_of_digitOrSeparator {c : Char} (goesOn : (c.isDigit || c == '_') = true) :
    Text.isNamePart c = true ∨ c = '\\' ∨ c = '.' := by
  simp only [Bool.or_eq_true, beq_iff_eq] at goesOn
  rcases goesOn with digit | rfl
  · exact .inl (isNamePart_of_isDigit digit)
  · exact .inl (by decide)

theorem EndsNumber.noDigits (ends : EndsNumber rest) :
    Stops (fun c => c.isDigit || c == '_') rest :=
  ends.stops fun _ => isNamePart_of_digitOrSeparator

theorem digitValue?_digitChar : ∀ value < 10, digitValue? 10 (Nat.digitChar value) = some value := by
  decide

theorem exponentOfDigits_toDigits {number : Nat} (bound : number < exponentLimit) :
    exponentOfDigits (Nat.toDigits 10 number) = number := by
  induction number using Nat.strongRecOn with
  | ind number induction =>
      rw [Nat.toDigits_eq_if (by decide)]
      split
      · next small =>
          simp [exponentOfDigits, exponentLimit, digitValue?_digitChar number small]
      · next large =>
          have shorter := induction (number / 10) (by omega) (by omega)
          rw [exponentOfDigits] at shorter ⊢
          rw [List.foldl_append, shorter]
          have digit := digitValue?_digitChar (number % 10) (by omega)
          simp only [List.foldl_cons, List.foldl_nil, digit, Option.getD_some]
          rw [if_pos (by omega)]
          omega

theorem readExponent_takes {exponent : Int} (bound : exponent.natAbs < exponentLimit)
    (ends : EndsNumber rest) : Takes readExponent (exponentText exponent ++ rest) exponent rest := by
  apply Takes.position
  intro start
  unfold exponentText
  split
  · next isZero =>
      subst isZero
      apply Takes.bind Takes.peek?
      cases rest with
      | nil => exact .pure _
      | cons c rest =>
          apply Takes.iteFalse _ (.pure _)
          intro isMark
          have stop := ends c rfl
          simp only [Bool.or_eq_true, beq_iff_eq] at isMark
          rcases isMark with rfl | rfl <;> exact absurd stop (by decide)
  · next nonzero =>
      have digits : AllDigits (Nat.toDigits 10 exponent.natAbs) :=
        fun c member => Nat.isDigit_of_mem_toDigits (by decide) (by decide) member
      have read := readDigits_takes digits ends.noDigits
      have finish : ∀ negative, negative = decide (exponent < 0) →
          Takes (do
            let digits ← readDigits 10
            if digits.isEmpty then fail .invalidToken start
            let value := Int.ofNat (exponentOfDigits digits)
            return if negative then -value else value)
            (Nat.toDigits 10 exponent.natAbs ++ rest) exponent rest := by
        rintro negative rfl
        apply read.bind
        apply Takes.iteFalse (by simp)
        rw [exponentOfDigits_toDigits bound]
        have value : (if decide (exponent < 0) = true then -Int.ofNat exponent.natAbs
            else Int.ofNat exponent.natAbs) = exponent := by
          simp only [decide_eq_true_eq, Int.ofNat_eq_natCast]
          omega
        dsimp only
        rw [value]
        exact .pure _
      apply Takes.bind Takes.peek?
      apply Takes.iteTrue (by decide)
      apply (Takes.skip (by decide)).bind
      refine Takes.bind (?_ : Takes readSign _ (decide (exponent < 0)) _) (finish _ rfl)
      by_cases negative : exponent < 0
      · rw [if_pos negative, decide_eq_true negative]
        apply Takes.bind Takes.peek?
        exact (Takes.skip (by decide)).bind (.pure _)
      · rw [if_neg negative, decide_eq_false negative]
        apply Takes.bind Takes.peek?
        exact (Takes.skip (by decide)).bind (.pure _)

theorem stops_exponentText {exponent : Int} (ends : EndsNumber rest) {goesOn : Char → Bool}
    (within : ∀ c, goesOn c = true → Text.isNamePart c = true ∨ c = '\\' ∨ c = '.')
    (notMark : goesOn 'e' = false) : Stops goesOn (exponentText exponent ++ rest) := by
  unfold exponentText
  split
  · exact ends.stops within
  · intro c head
    cases head
    exact notMark

theorem readDecimalTail_takes (whole : List Char) {fraction : List Char} {exponent : Int}
    (digits : AllDigits fraction) (bound : exponent.natAbs < exponentLimit)
    (ends : EndsNumber rest) :
    Takes (readDecimalTail whole) (fractionText fraction ++ (exponentText exponent ++ rest))
      (DecimalText.toFloat { whole, fraction, exponent }) rest := by
  refine Takes.bind (?_ : Takes readFraction _ fraction (exponentText exponent ++ rest)) ?_
  · unfold fractionText
    split
    · next isEmpty =>
        subst isEmpty
        apply Takes.bind Takes.peek?
        apply Takes.iteFalse _ (.pure _)
        intro isPoint
        have noPoint : Stops (· == '.') (exponentText exponent ++ rest) :=
          stops_exponentText ends (fun c isPoint => .inr (.inr (by simpa using isPoint))) (by decide)
        exact absurd (noPoint '.' (by simpa using isPoint)) (by decide)
    · apply Takes.bind Takes.peek?
      apply Takes.iteTrue rfl
      apply (Takes.skip (by decide)).bind
      apply readDigits_takes digits
      exact stops_exponentText ends (fun _ => isNamePart_of_digitOrSeparator) (by decide)
  · exact (readExponent_takes bound ends).bind (.pure _)

theorem stops_fractionText {fraction : List Char} {exponent : Int} (ends : EndsNumber rest)
    {goesOn : Char → Bool}
    (within : ∀ c, goesOn c = true → Text.isNamePart c = true ∨ c = '\\' ∨ c = '.')
    (notMark : goesOn 'e' = false) (notPoint : goesOn '.' = false) :
    Stops goesOn (fractionText fraction ++ (exponentText exponent ++ rest)) := by
  unfold fractionText
  split
  · exact stops_exponentText ends within notMark
  · intro c head
    cases head
    exact notPoint

/-- Decimal notation that does not start with a zero, unless the zero is the
whole part. -/
structure DecimalForm (whole fraction : List Char) (exponent : Int) : Prop where
  wholeDigits : AllDigits whole
  notEmpty : whole ≠ []
  leading : whole.head? = some '0' → whole = ['0']
  fractionDigits : AllDigits fraction
  bound : exponent.natAbs < exponentLimit

theorem radixOfMark?_part {c : Char} (isMark : (radixOfMark? c).isSome = true) :
    Text.isNamePart c = true := by
  unfold radixOfMark? at isMark
  simp only [Bool.or_eq_true, beq_iff_eq] at isMark
  split at isMark
  · next mark => rcases mark with rfl | rfl <;> decide
  · split at isMark
    · next mark => rcases mark with rfl | rfl <;> decide
    · split at isMark
      · next mark => rcases mark with rfl | rfl <;> decide
      · cases isMark

theorem Takes.readNumeral {start : Position} {text : List Char} {result : Float × Bool}
    (body : Takes (readNumeralBody start) text result rest) (ends : EndsNumber rest) :
    Takes (readNumeral start) text result rest := by
  apply body.bind
  apply Takes.bind Takes.peek?
  apply Takes.iteFalse _ (.pure _)
  cases rest with
  | nil => nofun
  | cons c rest =>
      have stop := ends c rfl
      simp only [Bool.or_eq_false_iff] at stop
      rcases stop with ⟨⟨notPart, notEscape⟩, -⟩
      have notStart : Text.isNameStart c = false := by
        cases starts : Text.isNameStart c with
        | false => rfl
        | true => rw [← notPart, isNamePart_of_isNameStart starts]
      have notDigit : c.isDigit = false := by
        cases digit : c.isDigit with
        | false => rfl
        | true => rw [← notPart, isNamePart_of_isDigit digit]
      simp [notStart, notDigit, notEscape]

def followsZero (c : Char) : Bool := c.isDigit || c == '_' || (radixOfMark? c).isSome

theorem Takes.decimal {start : Position} {text : List Char} {number : Float}
    (takes : Takes readDecimal text number rest)
    (alone : ∀ c others, text = '0' :: c :: others → followsZero c = false) :
    Takes (readNumeralBody start) text (number, false) rest := by
  have decimal : Takes (do return (← readDecimal, false)) text (number, false) rest :=
    takes.bind (.pure _)
  apply Takes.bind Takes.peek?
  by_cases isZero : text.head? = some '0'
  · apply Takes.iteFalse (by simpa using isZero)
    apply Takes.bind Takes.peekSecond?
    cases text with
    | nil => exact decimal
    | cons first others =>
        cases isZero
        cases others with
        | nil => exact decimal
        | cons mark others =>
            have noMark := alone mark others rfl
            simp only [followsZero, Bool.or_eq_false_iff, Option.isSome_eq_false_iff,
              Option.isNone_iff_eq_none] at noMark
            simp only [List.getElem?_cons_succ, List.getElem?_cons_zero, noMark.2]
            apply Takes.iteFalse (by simp [noMark.1.2])
            exact Takes.iteFalse (by simp [noMark.1.1]) decimal
  · exact Takes.iteTrue (by simpa using isZero) decimal

theorem isNamePart_of_followsZero {c : Char} (follows : followsZero c = true) :
    Text.isNamePart c = true ∨ c = '\\' ∨ c = '.' := by
  rcases Bool.or_eq_true_iff.mp follows with goesOn | isMark
  · exact isNamePart_of_digitOrSeparator goesOn
  · exact .inl (radixOfMark?_part isMark)

theorem readNumeral_takes {whole fraction : List Char} {exponent : Int}
    (form : DecimalForm whole fraction exponent) (ends : EndsNumber rest) (start : Position) :
    Takes (readNumeral start)
      (whole ++ (fractionText fraction ++ (exponentText exponent ++ rest)))
      (DecimalText.toFloat { whole, fraction, exponent }, false) rest := by
  have noDigits : Stops (fun c => c.isDigit || c == '_')
      (fractionText fraction ++ (exponentText exponent ++ rest)) :=
    stops_fractionText ends (fun _ => isNamePart_of_digitOrSeparator) (by decide) (by decide)
  have alone : Stops followsZero (fractionText fraction ++ (exponentText exponent ++ rest)) :=
    stops_fractionText ends (fun _ => isNamePart_of_followsZero) (by decide) (by decide)
  have tail := readDecimalTail_takes whole form.fractionDigits form.bound ends
  refine Takes.readNumeral (Takes.decimal (Takes.bind Takes.peek? ?_) ?_) ends
  · apply Takes.iteFalse
    · intro isPoint
      cases whole with
      | nil => exact absurd rfl form.notEmpty
      | cons first digits =>
          have isPoint : first = '.' := by simpa using isPoint
          exact absurd (form.wholeDigits first (List.mem_cons_self ..)) (by rw [isPoint]; decide)
    · exact (readDigits_takes form.wholeDigits noDigits).bind tail
  · intro c others text
    cases whole with
    | nil => exact absurd rfl form.notEmpty
    | cons first digits =>
        rw [List.cons_append, List.cons_eq_cons] at text
        rcases text with ⟨rfl, unread⟩
        cases form.leading rfl
        exact alone c (congrArg List.head? unread)

end ExprScript.Reader
