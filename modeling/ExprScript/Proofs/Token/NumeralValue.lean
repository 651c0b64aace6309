import ExprScript.Proofs.Token.NumeralForm

/-! # Numbers have the value that their text is converted to

The scanner and the conversion of texts read numbers by routines of their own. A number
that is written without separators and without a leading zero has one value for both.
-/

namespace ExprScript

/-! ## Texts without blanks -/

def IsGraphic (c : Char) : Prop := 33 ≤ c.toNat ∧ c.toNat ≤ 126

theorem isGraphic_of_isDigitOf {radix : Nat} {c : Char} (digit : Number.isDigitOf radix c = true) :
    IsGraphic c := by
  have ranges := Reader.toNat_of_isDigitOf digit
  unfold IsGraphic
  omega

theorem isGraphic_of_mark {c : Char} (isMark : c = 'e' ∨ c = 'E') : IsGraphic c := by
  rcases isMark with rfl | rfl <;> exact ⟨by decide, by decide⟩

def Graphic (text : List Char) : Prop := ∀ c ∈ text, IsGraphic c

namespace Graphic

variable {c : Char} {first second : List Char}

theorem nil : Graphic [] := nofun

theorem cons (isGraphic : IsGraphic c) (graphic : Graphic first) : Graphic (c :: first) :=
  List.forall_mem_cons.mpr ⟨isGraphic, graphic⟩

theorem append (left : Graphic first) (right : Graphic second) : Graphic (first ++ second) :=
  List.forall_mem_append.mpr ⟨left, right⟩

end Graphic

theorem DigitRun.graphic {radix : Nat} {run : List Char} (isRun : DigitRun radix run) :
    Graphic run := by
  induction isRun with
  | last digit => exact .cons (isGraphic_of_isDigitOf digit) .nil
  | next digit _ induction => exact .cons (isGraphic_of_isDigitOf digit) induction
  | separated digit _ induction =>
      exact .cons (isGraphic_of_isDigitOf digit) (.cons ⟨by decide, by decide⟩ induction)

theorem FractionForm.graphic {fraction : List Char} (isFraction : FractionForm fraction) :
    Graphic fraction := by
  cases isFraction with
  | none => exact .nil
  | point => exact .cons ⟨by decide, by decide⟩ .nil
  | digits isRun => exact .cons ⟨by decide, by decide⟩ isRun.graphic

theorem ExponentForm.graphic {exponent : List Char} (isExponent : ExponentForm exponent) :
    Graphic exponent := by
  cases isExponent with
  | none => exact .nil
  | unsigned isMark isRun => exact .cons (isGraphic_of_mark isMark) isRun.graphic
  | signed isMark isSign isRun =>
      refine .cons (isGraphic_of_mark isMark) (.cons ?_ isRun.graphic)
      rcases isSign with rfl | rfl <;> exact ⟨by decide, by decide⟩

theorem NumeralForm.graphic {octal : Bool} {text : List Char} (form : NumeralForm octal text) :
    Graphic text := by
  have zero : IsGraphic '0' := ⟨by decide, by decide⟩
  cases form with
  | decimal isRun _ isFraction isExponent =>
      exact isRun.graphic.append (isFraction.graphic.append isExponent.graphic)
  | pointed isRun isExponent =>
      exact .cons ⟨by decide, by decide⟩ (isRun.graphic.append isExponent.graphic)
  | prefixed isMark isRun =>
      refine .cons zero (.cons ?_ isRun.graphic)
      simp only [List.mem_cons, Prod.mk.injEq, List.not_mem_nil, or_false] at isMark
      rcases isMark with ⟨rfl, -⟩ | ⟨rfl, -⟩ | ⟨rfl, -⟩ | ⟨rfl, -⟩ | ⟨rfl, -⟩ | ⟨rfl, -⟩ <;>
        exact ⟨by decide, by decide⟩
  | octal _ all => exact .cons zero fun c member => isGraphic_of_isDigitOf (all c member)
  | leadingZero all _ isFraction isExponent =>
      exact .cons zero (.append (fun c member => isGraphic_of_isDigitOf (all c member))
        (isFraction.graphic.append isExponent.graphic))

theorem Text.trimBoth_of_all {drop : Char → Bool} {text : String}
    (stays : ∀ c ∈ text.toList, drop c = false) : Text.trimBoth drop text = text := by
  have unchanged : ∀ chars : List Char, (∀ c ∈ chars, drop c = false) →
      chars.dropWhile drop = chars := by
    intro chars stays
    cases chars with
    | nil => rfl
    | cons c chars =>
        exact List.dropWhile_cons_of_neg (by simp [stays c (List.mem_cons_self ..)])
  unfold trimBoth
  rw [unchanged _ stays]
  dsimp only
  rw [unchanged _ fun c member => stays c (List.mem_reverse.mp member), List.reverse_reverse,
    String.ofList_toList]

theorem not_isWhiteSpace_of_isGraphic {c : Char} (isGraphic : IsGraphic c) :
    (Text.isWhiteSpace c || c == '\ufeff') = false := by
  rcases isGraphic with ⟨low, high⟩
  simp only [Text.isWhiteSpace, Bool.or_eq_false_iff, Bool.and_eq_false_iff, beq_eq_false_iff_ne,
    decide_eq_false_iff_not, Char.le_def, UInt32.le_iff_toNat_le, Char.toNat_val, ne_eq,
    ← Char.toNat_inj, Char.reduceToNat]
  omega

namespace Number

open Reader

/-- Blanks and the names of the infinities are no numbers, so the text of a number is converted
as it stands. -/
theorem ofText_of_form {octal : Bool} {text : String} (form : NumeralForm octal text.toList) :
    ofText text = readTrimmed text.toList := by
  have stays := Text.trimBoth_of_all fun c member =>
    not_isWhiteSpace_of_isGraphic (form.graphic c member)
  have other (word : String)
      (starts : word.toList.head?.any (fun c => c.isDigit || c == '.') = false) :
      ¬ (text == word) = true := by
    intro same
    rw [← eq_of_beq same] at starts
    rcases startsNumber_of_form form with ⟨first, others, unread, digit | ⟨isPoint, -⟩⟩
    · simp [unread, digit] at starts
    · simp [unread, isPoint] at starts
  unfold ofText
  dsimp only
  rw [stays, if_neg (other "" rfl), if_neg, if_neg (other "-Infinity" rfl)]
  rw [Bool.or_eq_true]
  exact not_or.mpr ⟨other "Infinity" rfl, other "+Infinity" rfl⟩

/-! ## Decimal notation -/

theorem endsNumber_nil : EndsNumber [] := nofun

section

variable {run : List Char}

theorem all_of_digitRun {radix : Nat} (isRun : DigitRun radix run) (alone : '_' ∉ run) :
    ∀ c ∈ run, isDigitOf radix c = true := by
  induction isRun with
  | last digit => exact List.forall_mem_singleton.mpr digit
  | next digit _ induction =>
      exact List.forall_mem_cons.mpr ⟨digit, induction fun member => alone (.tail _ member)⟩
  | separated => exact absurd (.tail _ (.head _)) alone

theorem ne_nil_of_digitRun {radix : Nat} (isRun : DigitRun radix run) : run ≠ [] := by
  rintro rfl
  exact DigitRun.not_nil isRun

theorem allDigits_of_digitRun (isRun : DigitRun 10 run) (alone : '_' ∉ run) : AllDigits run := by
  intro c member
  rw [← isDigitOf_ten]
  exact all_of_digitRun isRun alone c member

theorem filter_separators (alone : '_' ∉ run) : run.filter (· != '_') = run := by
  rw [List.filter_eq_self]
  rintro c member
  rw [bne_iff_ne]
  rintro rfl
  exact alone member

theorem splitDigits {rest : List Char} (all : AllDigits run) (stops : Stops Char.isDigit rest) :
    (run ++ rest).takeWhile Char.isDigit = run ∧ (run ++ rest).dropWhile Char.isDigit = rest := by
  rw [List.takeWhile_append_of_pos all, List.dropWhile_append_of_pos all]
  cases rest with
  | nil => exact ⟨List.append_nil _, rfl⟩
  | cons c rest =>
      have stop := stops c rfl
      rw [List.takeWhile_cons_of_neg (by simp [stop]), List.dropWhile_cons_of_neg (by simp [stop]),
        List.append_nil]
      exact ⟨rfl, rfl⟩

end

theorem readExponent?_of_split {mark : Char} {signed run : List Char} {negative : Bool}
    (isMark : mark = 'e' ∨ mark = 'E') (split : splitSign signed = (negative, run))
    (isRun : DigitRun 10 run) (alone : '_' ∉ run) :
    readExponent? (mark :: signed) = some (exponentOfRun negative run) := by
  have all : run.all Char.isDigit = true :=
    List.all_eq_true.mpr (allDigits_of_digitRun isRun alone)
  have notEmpty : run.isEmpty = false := by
    rcases isRun.starts with ⟨c, later, rfl, -⟩
    rfl
  have marked : (mark == 'e' || mark == 'E') = true := by simpa using isMark
  simp only [readExponent?, marked, if_true, split, notEmpty, all, exponentOfRun,
    filter_separators alone]
  rfl

theorem readExponent?_eq {exponent : List Char} (isExponent : ExponentForm exponent)
    (alone : '_' ∉ exponent) : readExponent? exponent = some (writtenExponent exponent) := by
  cases isExponent with
  | none => rfl
  | unsigned isMark isRun =>
      have split := splitSign_digits isRun
      rw [readExponent?_of_split isMark split isRun fun member => alone (.tail _ member)]
      simp only [writtenExponent, List.drop_succ_cons, List.drop_zero, split]
  | @signed mark sign run isMark isSign isRun =>
      have split : splitSign (sign :: run) = (sign == '-', run) := by
        rcases isSign with rfl | rfl <;> rfl
      rw [readExponent?_of_split isMark split isRun fun member => alone (.tail _ (.tail _ member))]
      simp only [writtenExponent, List.drop_succ_cons, List.drop_zero, split]

/-- Decimal notation is read from its parts. -/
theorem readUnsigned?_of_parts {text whole rest fraction tail : List Char} {exponent : Int}
    (first : text.takeWhile Char.isDigit = whole) (second : text.dropWhile Char.isDigit = rest)
    (parts : (∃ digits, rest = '.' :: digits ∧ digits.takeWhile Char.isDigit = fraction ∧
      digits.dropWhile Char.isDigit = tail) ∨ rest.head? ≠ some '.' ∧ fraction = [] ∧ tail = rest)
    (notEmpty : whole ≠ [] ∨ fraction ≠ []) (reads : readExponent? tail = some exponent) :
    readUnsigned? text = some (DecimalText.toFloat { whole, fraction, exponent }) := by
  have notEmpty : ¬ (whole.isEmpty && fraction.isEmpty) = true := by
    simpa [-not_and, not_and_or] using notEmpty
  unfold readUnsigned?
  dsimp only
  rw [first, second]
  rcases parts with ⟨digits, rfl, rfl, rfl⟩ | ⟨noPoint, rfl, rfl⟩
  · simp only [notEmpty, reads]
    rfl
  · split
    · exact absurd rfl noPoint
    · simp only [notEmpty, reads]
      rfl

theorem readUnsigned?_eq {whole fraction exponent : List Char} (all : AllDigits whole)
    (isFraction : FractionForm fraction) (isExponent : ExponentForm exponent)
    (alone : '_' ∉ fraction) (alone' : '_' ∉ exponent)
    (notEmpty : whole ≠ [] ∨ fractionDigits fraction ≠ []) :
    readUnsigned? (whole ++ (fraction ++ exponent)) =
      some (decimalNumber whole fraction exponent) := by
  have stops : Stops Char.isDigit (fraction ++ (exponent ++ [])) := stops_fraction isFraction
    isExponent endsNumber_nil (fun _ digit => .inl (isNamePart_of_isDigit digit)) (by decide) rfl
  have behind := endsDigits_exponent isExponent endsNumber_nil
  rw [List.append_nil] at stops behind
  rcases splitDigits all stops with ⟨first, second⟩
  refine readUnsigned?_of_parts first second ?_ notEmpty (readExponent?_eq isExponent alone')
  have pointed : ∀ {run : List Char}, AllDigits run → '_' ∉ run →
      (run ++ exponent).takeWhile Char.isDigit = fractionDigits ('.' :: run) ∧
        (run ++ exponent).dropWhile Char.isDigit = exponent := by
    intro run all alone
    rw [fractionDigits, List.drop_succ_cons, List.drop_zero, filter_separators alone]
    apply splitDigits all
    intro c head
    have stop := behind.stops c head
    rw [Bool.or_eq_false_iff, isDigitOf_ten] at stop
    exact stop.1
  cases isFraction with
  | none => exact .inr ⟨fun isPoint => absurd (behind '.' isPoint) (by decide), rfl, rfl⟩
  | point => exact .inl ⟨_, rfl, pointed nofun nofun⟩
  | digits isRun =>
      have alone := fun member => alone (.tail _ member)
      exact .inl ⟨_, rfl, pointed (allDigits_of_digitRun isRun alone) alone⟩

theorem splitSign_of_form {octal : Bool} {text : List Char} (form : NumeralForm octal text) :
    splitSign text = (false, text) := by
  rcases startsNumber_of_form form with ⟨first, others, rfl, starts⟩
  apply splitSign_of_head
  · rintro ⟨⟩
    rcases starts with digit | ⟨isPoint, -⟩
    · cases digit
    · cases isPoint
  · rintro ⟨⟩
    rcases starts with digit | ⟨isPoint, -⟩
    · cases digit
    · cases isPoint

theorem readTrimmed_of_unsigned {text : List Char} {number : Float}
    (noSign : splitSign text = (false, text)) (reads : readUnsigned? text = some number)
    (noRadix : ∀ mark digits, text = '0' :: mark :: digits → radixOfMark? mark = none) :
    readTrimmed text = number := by
  have decimal : (readDecimal? text).getD nan = number := by
    simp only [readDecimal?, noSign, reads]
    rfl
  unfold readTrimmed
  dsimp only
  split
  · next mark digits =>
      rw [noRadix mark digits rfl]
      exact decimal
  · exact decimal

theorem readNumeral_takes_trimmed {text rest : List Char} (form : NumeralForm false text)
    (alone : '_' ∉ text) (ends : EndsNumber rest) (start : Position) :
    Takes (readNumeral start) (text ++ rest) (readTrimmed text, false) rest := by
  have noSign := splitSign_of_form form
  cases form with
  | @decimal whole fraction exponent isRun leading isFraction isExponent =>
      simp only [List.mem_append, not_or] at alone
      have reads := readUnsigned?_eq (allDigits_of_digitRun isRun alone.1) isFraction isExponent
        alone.2.1 alone.2.2 (.inl (ne_nil_of_digitRun isRun))
      have takes := readNumeral_takes_decimal isRun leading isFraction isExponent ends start
      rwa [filter_separators alone.1, ← readTrimmed_of_unsigned noSign reads] at takes
      intro mark digits unread
      rcases isRun.starts with ⟨first, later, rfl, -⟩
      rw [List.cons_append, List.cons_eq_cons] at unread
      rcases unread with ⟨rfl, unread⟩
      cases leading rfl
      have noMark : Stops (fun c => (radixOfMark? c).isSome) (fraction ++ (exponent ++ [])) :=
        stops_fraction isFraction isExponent endsNumber_nil
          (fun _ isMark => .inl (radixOfMark?_part isMark)) (by decide) rfl
      rw [List.append_nil] at noMark
      simpa using noMark mark (congrArg List.head? unread)
  | @pointed run exponent isRun isExponent =>
      have alone : '_' ∉ '.' :: run ∧ '_' ∉ exponent := by
        simpa only [List.mem_cons, List.mem_append, not_or, and_assoc] using alone
      have inRun : '_' ∉ run := fun member => alone.1 (.tail _ member)
      have digits : fractionDigits ('.' :: run) ≠ [] := by
        rw [fractionDigits, List.drop_succ_cons, List.drop_zero, filter_separators inRun]
        exact ne_nil_of_digitRun isRun
      have reads := @readUnsigned?_eq [] _ _ nofun (.digits isRun) isExponent alone.1 alone.2
        (.inr digits)
      have takes := readNumeral_takes_pointed isRun isExponent ends start
      -- The zero that stands for the whole part makes no difference to the digits.
      have value : readTrimmed ('.' :: (run ++ exponent)) =
          decimalNumber ['0'] ('.' :: run) exponent :=
        readTrimmed_of_unsigned noSign reads nofun
      rwa [value]
  | @prefixed mark radix run isMark isRun =>
      have alone : '_' ∉ run := fun member => alone (.tail _ (.tail _ member))
      have takes := readNumeral_takes_prefixed isMark isRun ends start
      have notEmpty : run.isEmpty = false := by
        rcases isRun.starts with ⟨c, later, rfl, -⟩
        rfl
      have all : run.all (isDigitOf radix) = true :=
        List.all_eq_true.mpr (all_of_digitRun isRun alone)
      have value : readTrimmed ('0' :: mark :: run) = ofRadixDigits radix run := by
        simp [readTrimmed, (radixOfMark?_of_mem isMark).1, notEmpty, all]
      rw [filter_separators alone] at takes
      rwa [value]

end Number

open Number Reader Scanner

variable {text : String} {token : Token}

/-- A text that is a single number, with neither separators nor a leading zero, is converted to
the value of the number. -/
theorem payload_eq_ofText (found : tokenize text = .ok [token])
    (isNumber : token.kind = .numericLiteral) (spelled : token.raw = text)
    (noSeparator : '_' ∉ text.toList) (notOctal : token.octal = false) :
    token.payload = .number (Number.ofText text) := by
  rcases fills_of_tokenize found spelled with ⟨after, run, empty, -, -⟩
  rcases next_number _ _ _ run isNumber with ⟨form, number, start, cursor, payload, unread, run⟩
  rw [notOctal, spelled] at form
  rw [spelled, empty] at unread
  have takes := readNumeral_takes_trimmed form noSeparator endsNumber_nil start
  rw [← unread] at takes
  have same := (takes.ensures _ _ run).1
  rw [payload, ofText_of_form form]
  rw [(Prod.mk.inj same).1]

/-- A number that starts with its point. -/
theorem payload_eq_ofText_pointed : ∃ token, tokenize ".5E+2" = .ok [token] ∧
    token.payload = .number (Number.ofText ".5E+2") := by
  have shown : (tokenize ".5E+2").toOption.map
      (fun tokens => tokens.map fun token => (token.kind, token.raw, token.octal)) =
      some [(.numericLiteral, ".5E+2", false)] := by
    decide +kernel
  cases found : tokenize ".5E+2" with
  | error error =>
      rw [found] at shown
      cases shown
  | ok tokens =>
      rw [found] at shown
      simp only [Except.toOption, Option.map_some, Option.some.injEq, List.map_eq_cons_iff,
        List.map_eq_nil_iff, Prod.mk.injEq] at shown
      rcases shown with ⟨token, others, rfl, ⟨isNumber, spelled, notOctal⟩, rfl⟩
      exact ⟨token, rfl, payload_eq_ofText found isNumber spelled (by decide) notOctal⟩

end ExprScript
