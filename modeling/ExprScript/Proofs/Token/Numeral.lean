import ExprScript.Proofs.Number.Plain
import ExprScript.Proofs.Token.Scanning

/-! # The numbers of literals are plain -/

namespace ExprScript

open Number

namespace Reader

def ReadsPlain (reader : Reader Float) : Prop :=
  ∀ before, Ensures reader before fun number _ => Plain number

theorem readDecimalTail_plain (whole : List Char) : ReadsPlain (readDecimalTail whole) :=
  fun _ => .bindAny fun _ _ => .bindAny fun _ _ => .pure (Decimal.plain_toFloat _)

theorem readDecimal_plain : ReadsPlain readDecimal := by
  refine fun _ => .bindAny fun _ _ => .ite (fun _ => ?_) fun _ => ?_
  · exact readDecimalTail_plain _ _
  · exact .bindAny fun _ _ => readDecimalTail_plain _ _

theorem readRadixNumeral_plain {radix : Nat} (known : radix = 2 ∨ radix = 8 ∨ radix = 16)
    (start : Position) : ReadsPlain (readRadixNumeral radix start) := by
  refine fun _ => .bindAny fun _ _ => .bindAny fun _ _ => .bindAny fun _ _ => ?_
  refine .ite (fun _ => .bind (.throw _)) fun _ => .pure ?_
  exact plain_ofRadixDigits known _

theorem readZeroNumeral_plain : ReadsPlain readZeroNumeral := by
  refine fun _ => .get (.bindAny fun _ _ => .ite (fun _ => .pure ?_) fun _ => ?_)
  · exact plain_ofRadixDigits (.inr (.inl rfl)) _
  · refine .bindAny fun _ _ => .ite (fun _ => .bindAny fun _ _ => .bind (.throw _)) fun _ => ?_
    exact readDecimalTail_plain _ _

theorem radixOfMark?_known {mark : Char} {radix : Nat} (found : radixOfMark? mark = some radix) :
    radix = 2 ∨ radix = 8 ∨ radix = 16 := by
  unfold radixOfMark? at found
  split at found
  · exact .inr (.inr (Option.some.inj found).symm)
  · split at found
    · exact .inr (.inl (Option.some.inj found).symm)
    · split at found
      · exact .inl (Option.some.inj found).symm
      · cases found

theorem readNumeral_plain (start : Position) (before : Cursor) :
    Ensures (readNumeral start) before fun result _ => Plain result.1 := by
  have decimal : ∀ before : Cursor, Ensures (do return (← readDecimal, false)) before
      fun (result : Float × Bool) _ => Plain result.1 :=
    fun before => .bind ((readDecimal_plain before).mono fun _ _ plain => .pure plain)
  have body : Ensures (readNumeralBody start) before fun result _ => Plain result.1 := by
    refine .bindAny fun _ _ => .ite (fun _ => decimal _) fun _ => .bindAny fun second _ => ?_
    split
    · exact decimal _
    · split
      · next found =>
          have known := radixOfMark?_known found
          refine .bind ((readRadixNumeral_plain known start _).mono fun _ _ plain => ?_)
          exact .pure plain
      · refine .ite (fun _ => .bindAny fun _ _ => .bindAny fun _ _ => .throw _) fun _ => ?_
        refine .ite (fun _ => .bind ((readZeroNumeral_plain _).mono fun _ _ plain => ?_))
          fun _ => decimal _
        exact .pure plain
  refine .bind (body.mono fun _ _ plain => .bindAny fun _ _ => ?_)
  exact .ite (fun _ => .bind (.throw _)) fun _ => .pure plain

theorem readName_kind (start : Position) (before : Cursor) :
    Ensures (readName start) before fun result _ =>
      result.1 = .identifier ∨ ∃ word, result.1 = .keyword word := by
  refine .bindAny fun ⟨name, escaped⟩ _ => ?_
  dsimp only
  split
  · exact .ite (fun _ => .bind (.throw _)) fun _ => .pure (.inr ⟨_, rfl⟩)
  · exact .pure (.inl rfl)

end Reader

namespace Scanner

theorem next_plain (before : Scanner) : Ensures next before fun token _ =>
    token.kind = .numericLiteral → ∃ number, token.payload = .number number ∧ Plain number := by
  refine (next_lexed before).mono fun token after lexed isNumber => ?_
  rcases lexed with isEnd | ⟨cursor, -, -, -, lexed⟩
  · rw [isEnd] at isNumber
    cases isNumber
  · rw [isNumber] at lexed
    generalize token.octal = octal at lexed
    generalize payload : token.payload = content at lexed
    cases lexed with
    | template isTemplate => cases isTemplate
    | number run => exact ⟨_, rfl, Reader.readNumeral_plain _ _ _ _ run⟩
    | name _ _ run =>
        have kind := Reader.readName_kind _ _ _ _ run
        rcases kind with kind | ⟨word, kind⟩ <;> cases kind

end Scanner

end ExprScript
