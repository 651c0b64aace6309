import ExprScript.Proofs.Number.Exact
import ExprScript.Proofs.Token.NumeralValue

/-! # The text of a number has the value of its digits

Whichever form is chosen for the digits of a number, the text is a single number of the
language and stands for exactly the decimal that the digits and their exponent stand for. So
different decimals have different texts.
-/

namespace ExprScript.Number

open Reader

/-! ## The value of a text -/

def exponentValue (text : List Char) : Int :=
  let (negative, digits) := splitSign (text.drop 1)
  if negative then -Int.ofNat (digitsToNat 10 digits) else Int.ofNat (digitsToNat 10 digits)

def splitFraction (text : List Char) : List Char × List Char :=
  match text with
  | '.' :: digits => (digits.takeWhile Char.isDigit, digits.dropWhile Char.isDigit)
  | _ => ([], text)

def decimalValue (text : List Char) : ℚ :=
  let whole := text.takeWhile Char.isDigit
  let (fraction, tail) := splitFraction (text.dropWhile Char.isDigit)
  digitsToNat 10 (whole ++ fraction) * 10 ^ (exponentValue tail - fraction.length)

theorem exponentValue_exponentText (exponent : Int) :
    exponentValue (exponentText exponent) = exponent := by
  unfold exponentText
  split
  · next isZero => exact isZero.symm
  · simp only [exponentValue, List.drop_succ_cons, List.drop_zero]
    split
    · simp only [splitSign, digitsToNat_toDigits, if_true, Int.ofNat_eq_natCast]
      omega
    · simp only [splitSign, digitsToNat_toDigits, Bool.false_eq_true, if_false,
        Int.ofNat_eq_natCast]
      omega

theorem splitFraction_eq {fraction : List Char} (all : AllDigits fraction) (exponent : Int) :
    splitFraction (fractionText fraction ++ exponentText exponent) =
      (fraction, exponentText exponent) := by
  have stops {goesOn : Char → Bool} (notMark : goesOn 'e' = false) :
      Stops goesOn (exponentText exponent) := by
    unfold exponentText
    split
    · nofun
    · rintro c ⟨⟩
      exact notMark
  unfold fractionText
  split
  · next isEmpty =>
      subst isEmpty
      unfold splitFraction
      split
      · next text =>
          rw [List.nil_append] at text
          have noPoint : Stops (· == '.') (exponentText exponent) := stops rfl
          exact absurd (noPoint '.' (text ▸ rfl)) (by decide)
      · rfl
  · rcases splitDigits all (stops rfl) with ⟨first, second⟩
    exact Prod.ext first second

theorem decimalValue_eq {whole fraction : List Char} (all : AllDigits whole)
    (all' : AllDigits fraction) (exponent : Int) :
    decimalValue (whole ++ (fractionText fraction ++ exponentText exponent)) =
      digitsToNat 10 (whole ++ fraction) * 10 ^ (exponent - fraction.length) := by
  have stops : Stops Char.isDigit (fractionText fraction ++ exponentText exponent) := by
    have stops : Stops Char.isDigit (fractionText fraction ++ (exponentText exponent ++ [])) :=
      stops_fractionText endsNumber_nil (fun _ digit => .inl (isNamePart_of_isDigit digit))
        (by decide) rfl
    rwa [List.append_nil] at stops
  rcases splitDigits all stops with ⟨first, second⟩
  simp only [decimalValue, first, second, splitFraction_eq all', exponentValue_exponentText]

/-! ## Texts are numbers of the language -/

theorem digitRun_of_allDigits {digits : List Char} (all : AllDigits digits)
    (notEmpty : digits ≠ []) : DigitRun 10 digits := by
  induction digits with
  | nil => exact absurd rfl notEmpty
  | cons c digits induction =>
      have digit : isDigitOf 10 c = true := by
        rw [isDigitOf_ten]
        exact all c (.head _)
      cases digits with
      | nil => exact .last digit
      | cons d digits =>
          have later := induction (fun c member => all c (.tail _ member)) (List.cons_ne_nil _ _)
          exact .next digit later

theorem fractionForm_fractionText {fraction : List Char} (all : AllDigits fraction) :
    FractionForm (fractionText fraction) := by
  unfold fractionText
  split
  · exact .none
  · next notEmpty => exact .digits (digitRun_of_allDigits all notEmpty)

theorem exponentForm_exponentText (exponent : Int) : ExponentForm (exponentText exponent) := by
  unfold exponentText
  split
  · exact .none
  · refine .signed (.inl rfl) ?_ (digitRun_of_allDigits (allDigits_toDigits _) Nat.toDigits_ne_nil)
    split
    · exact .inr rfl
    · exact .inl rfl

theorem noSeparator_of_allDigits {digits : List Char} (all : AllDigits digits) : '_' ∉ digits :=
  fun member => absurd (all '_' member) (by decide)

theorem noSeparator_fractionText {fraction : List Char} (all : AllDigits fraction) :
    '_' ∉ fractionText fraction := by
  unfold fractionText
  split
  · nofun
  · simpa using noSeparator_of_allDigits all

theorem noSeparator_exponentText (exponent : Int) : '_' ∉ exponentText exponent := by
  unfold exponentText
  split
  · nofun
  · split <;> simp

/-! ## Different decimals -/

theorem digitsToNat_concat (digits : List Char) {c : Char} (digit : c.isDigit = true) :
    digitsToNat 10 (digits ++ [c]) = digitsToNat 10 digits * 10 + (c.toNat - 48) ∧
      c.toNat - 48 < 10 ∧ Nat.digitChar (c.toNat - 48) = c := by
  have bounds := (isDigit_iff c).mp digit
  have same : Nat.digitChar (c.toNat - 48) = c := by
    apply Char.toNat_inj.mp
    rw [Nat.toNat_digitChar_of_lt_ten (by omega)]
    omega
  have known := digitValue?_digitChar (c.toNat - 48) (by omega)
  rw [same] at known
  refine ⟨?_, by omega, same⟩
  rw [digitsToNat_append]
  simp only [List.foldl_cons, List.foldl_nil, known, Option.getD_some]

theorem Significant.toDigits_eq {digits : List Char} (significant : Significant digits) :
    0 < digitsToNat 10 digits ∧ Nat.toDigits 10 (digitsToNat 10 digits) = digits := by
  induction digits using List.reverseRecOn with
  | nil => exact absurd rfl significant.notEmpty
  | append_singleton digits c induction =>
      have digit := significant.all c (List.mem_append_right _ (.head _))
      rcases digitsToNat_concat digits digit with ⟨value, small, same⟩
      rw [value]
      by_cases isEmpty : digits = []
      · subst isEmpty
        have nonzero : c ≠ '0' := fun isZero => significant.leading (congrArg some isZero)
        have positive : 0 < c.toNat - 48 := by
          apply Nat.pos_of_ne_zero
          intro isZero
          rw [isZero] at same
          exact nonzero same.symm
        have nothing : digitsToNat 10 [] = 0 := rfl
        rw [nothing, Nat.zero_mul, Nat.zero_add, Nat.toDigits_of_lt_base small, same]
        exact ⟨positive, rfl⟩
      · rcases induction (significant.of_append isEmpty) with ⟨positive, digits'⟩
        refine ⟨by omega, ?_⟩
        rw [Nat.mul_comm, ← Nat.toDigits_append_toDigits (by decide) positive small, digits',
          Nat.toDigits_of_lt_base small, same]

theorem digitsToNat_mod {digits : List Char} (all : AllDigits digits) (notEmpty : digits ≠ [])
    (trailing : digits.getLast? ≠ some '0') : digitsToNat 10 digits % 10 ≠ 0 := by
  rcases List.eq_nil_or_concat' digits with isEmpty | ⟨front, c, rfl⟩
  · exact absurd isEmpty notEmpty
  · have digit := all c (List.mem_append_right _ (.head _))
    rcases digitsToNat_concat front digit with ⟨value, small, same⟩
    rw [value]
    intro divisible
    have isZero : c.toNat - 48 = 0 := by omega
    rw [isZero] at same
    exact trailing (by rw [List.getLast?_concat, ← same]; rfl)

theorem exponent_le_of_eq {significand significand' : Nat} {exponent exponent' : Int}
    (reduced : significand % 10 ≠ 0)
    (same : (significand * 10 ^ exponent : ℚ) = significand' * 10 ^ exponent') :
    exponent' ≤ exponent := by
  by_contra greater
  rcases Int.lt.dest (Int.not_le.mp greater) with ⟨count, sum⟩
  have scaled : (significand : ℚ) = (significand' * 10 ^ (count + 1) : Nat) := by
    have ten : (10 : ℚ) ^ exponent ≠ 0 := zpow_ne_zero _ (by norm_num)
    apply mul_right_cancel₀ ten
    rw [same, ← sum, zpow_add₀ (by norm_num), zpow_natCast]
    push_cast [Nat.succ_eq_add_one]
    ring
  have whole : significand = significand' * 10 ^ (count + 1) := by exact_mod_cast scaled
  apply reduced
  rw [whole, Nat.pow_succ, ← Nat.mul_assoc, Nat.mul_mod_left]

/-! ## The text of a number -/

/-- The digits and the exponent of a positive number in scientific notation. -/
def scientific (number : Float) : List Char × Int :=
  let value := Dyadic.ofFloat number
  let (digits, point) := Layout.digitsAndPoint (shortest value.mantissa value.exponent standard.tie)
  (digits, point - 1)

/-- The text is a single number without separators and without a leading zero. It has the exact
value of the digits `d1 … dk` times `10 ^ (exponent + 1 - k)`. -/
structure Writes (digits : List Char) (exponent : Int) (text : String) : Prop where
  placement : Placement digits exponent text.toList
  exact : decimalValue text.toList =
    digitsToNat 10 digits * 10 ^ (exponent + 1 - digits.length)
  numeral : ∃ token, tokenize text = .ok [token] ∧ token.kind = .numericLiteral ∧
    token.raw = text ∧ token.octal = false
  noSeparator : '_' ∉ text.toList

theorem writes_place {digits : List Char} (significant : Significant digits) (exponent : Int) :
    Writes digits exponent (String.ofList (standard.place digits (exponent + 1))) := by
  have placement := place_placement significant.notEmpty exponent
  generalize standard.place digits (exponent + 1) = text at placement
  rcases placement.parts significant with ⟨whole, fraction, written, zeros, parts, isText⟩
  have exact : decimalValue text = digitsToNat 10 digits * 10 ^ (exponent + 1 - digits.length) := by
    rw [isText, decimalValue_eq parts.wholeDigits parts.fractionDigits, parts.significand,
      ← parts.scale, zpow_add₀ (by norm_num), zpow_natCast]
    push_cast
    ring
  have form : NumeralForm false text := by
    rw [isText]
    exact .decimal (digitRun_of_allDigits parts.wholeDigits parts.notEmpty) parts.leading
      (fractionForm_fractionText parts.fractionDigits) (exponentForm_exponentText written)
  have noSeparator : '_' ∉ text := by
    rw [isText]
    simp only [List.mem_append, not_or]
    exact ⟨noSeparator_of_allDigits parts.wholeDigits,
      noSeparator_fractionText parts.fractionDigits, noSeparator_exponentText written⟩
  constructor
  · rwa [String.toList_ofList]
  · rwa [String.toList_ofList]
  · exact tokenize_of_form (by rwa [String.toList_ofList])
  · rwa [String.toList_ofList]

/-- Digits without zeros at either end are told apart by the value of their text. -/
theorem place_injective {digits digits' : List Char} {exponent exponent' : Int}
    (significant : Significant digits) (significant' : Significant digits')
    (trailing : digits.getLast? ≠ some '0') (trailing' : digits'.getLast? ≠ some '0')
    (same : standard.place digits (exponent + 1) = standard.place digits' (exponent' + 1)) :
    digits = digits' ∧ exponent = exponent' := by
  have value := (writes_place significant exponent).exact
  have value' := (writes_place significant' exponent').exact
  rw [String.toList_ofList] at value value'
  rw [same, value'] at value
  have reduced := digitsToNat_mod significant.all significant.notEmpty trailing
  have reduced' := digitsToNat_mod significant'.all significant'.notEmpty trailing'
  have equal := le_antisymm (exponent_le_of_eq reduced' value)
    (exponent_le_of_eq reduced value.symm)
  rw [equal] at value
  have equal' : digitsToNat 10 digits' = digitsToNat 10 digits := by
    have ten : (10 : ℚ) ^ (exponent' + 1 - digits'.length) ≠ 0 := zpow_ne_zero _ (by norm_num)
    exact_mod_cast mul_right_cancel₀ ten value
  have isDigits : digits = digits' := by
    rw [← significant.toDigits_eq.2, ← significant'.toDigits_eq.2, equal']
  subst isDigits
  exact ⟨rfl, by omega⟩

theorem canonical_of_positive {number : Float} (finite : number.isFinite = true)
    (positive : 0.0 < number) : hasSign number = false ∧
      Canonical (Dyadic.ofFloat number).mantissa (Dyadic.ofFloat number).exponent := by
  rw [lt_iff_value rfl finite, value_zero] at positive
  unfold value at positive
  rcases unpack_finite finite with ⟨unpacked, -⟩ | ⟨canonical, unpacked⟩
  · rw [unpacked] at positive
    exact absurd positive (lt_irrefl _)
  · refine ⟨?_, canonical⟩
    rw [unpacked] at positive
    cases sign : hasSign number with
    | false => rfl
    | true =>
        rw [sign, signOf_true, unpackedValue_negative] at positive
        linarith [canonical.magnitude_pos]

/-- The digits of a positive number do not start with a zero, and its text places its point among
them. -/
theorem scientific_positive {number : Float} (finite : number.isFinite = true)
    (positive : 0.0 < number) : Significant (scientific number).1 ∧
      toText number =
        String.ofList (standard.place (scientific number).1 ((scientific number).2 + 1)) := by
  rcases canonical_of_positive finite positive with ⟨noSign, canonical⟩
  have some : 0 < (shortest (Dyadic.ofFloat number).mantissa (Dyadic.ofFloat number).exponent
      standard.tie).significand := by
    apply Nat.pos_of_ne_zero
    intro isZero
    have size := ((shortest_attracts canonical standard.tie).size canonical).1
    rw [isZero, Nat.cast_zero, zero_mul] at size
    exact absurd size (not_le.mpr (two_zpow_pos _))
  have notZero : ¬ (number == 0.0) = true := by
    rw [beq_iff_value finite rfl]
    rw [lt_iff_value rfl finite] at positive
    exact positive.ne'
  refine ⟨significant_toDigits some, ?_⟩
  rw [toText_of_isFinite finite, if_neg notZero, noSign, scientific, placedDigits]
  dsimp only
  rw [Int.sub_add_cancel]
  exact String.empty_append ..

/-- The text of a positive number writes exactly the digits and the exponent of its scientific
notation, as the layout does with all digits and exponents. So two of them that do not end in a
zero have different texts unless they are the same. -/
theorem toText_writes :
    (∀ number : Float, number.isFinite = true → 0.0 < number →
      Significant (scientific number).1 ∧
        toText number =
          String.ofList (standard.place (scientific number).1 ((scientific number).2 + 1)) ∧
        Writes (scientific number).1 (scientific number).2 (toText number)) ∧
    (∀ (digits : List Char) (exponent : Int), Significant digits →
      Writes digits exponent (String.ofList (standard.place digits (exponent + 1)))) ∧
    (∀ (digits digits' : List Char) (exponent exponent' : Int),
      Significant digits → Significant digits' → digits.getLast? ≠ some '0' →
      digits'.getLast? ≠ some '0' →
      String.ofList (standard.place digits (exponent + 1)) =
        String.ofList (standard.place digits' (exponent' + 1)) →
      digits = digits' ∧ exponent = exponent') := by
  refine ⟨fun number finite positive => ?_, fun digits exponent significant =>
    writes_place significant exponent, ?_⟩
  · rcases scientific_positive finite positive with ⟨significant, isText⟩
    refine ⟨significant, isText, ?_⟩
    rw [isText]
    exact writes_place significant _
  · intro digits digits' exponent exponent' significant significant' trailing trailing' same
    exact place_injective significant significant' trailing trailing' (String.ofList_injective same)

/-- A number with two digits, and the same digits with the point behind them. -/
theorem toText_writes_fifteen : toText 1.5e-7 = "1.5e-7" ∧ Writes ['1', '5'] (-7) "1.5e-7" ∧
    Writes ['1', '5'] 1 "15" ∧ "15" ≠ "1.5e-7" := by
  have parts : scientific 1.5e-7 = (['1', '5'], -7) := by decide +kernel
  rcases toText_writes.1 1.5e-7 (by decide) (by decide) with ⟨significant, isText, writes⟩
  have spelled : String.ofList (standard.place ['1', '5'] (-7 + 1)) = "1.5e-7" := by decide
  rw [parts] at significant isText writes
  rw [isText, spelled] at writes
  refine ⟨isText.trans spelled, writes, ?_, ?_⟩
  · exact (toText_writes.2.1 ['1', '5'] 1 significant :)
  · rintro same
    have different := (toText_writes.2.2 ['1', '5'] ['1', '5'] 1 (-7) significant significant
      (by decide) (by decide) (same.trans spelled.symm)).2
    cases different

end ExprScript.Number
