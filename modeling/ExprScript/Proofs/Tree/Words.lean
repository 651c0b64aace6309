import ExprScript.Proofs.Grammar.Object
import ExprScript.Proofs.Token.Template

/-! # The words of a parsed tree

Names, numbers, template text and regular expressions of a parsed tree have the
form that is read again in the same way.
-/

namespace ExprScript

open Reader Scanner

theorem Token.Occurs.nameText {token : Token} (occurs : token.Occurs)
    (isName : token.isName = true) :
    NameText token.text.toList ∧ token.kind = kindOfWord token.text := by
  rcases occurs with ⟨before, after, placed, run⟩
  rcases next_lexed before _ _ run with isEnd | ⟨cursor, -, -, -, lexed⟩
  · simp [Token.isName, isEnd, TokenKind.isKeyword] at isName
  · unfold Token.isName at isName
    unfold Token.text
    generalize token.octal = octal at lexed
    generalize token.payload = payload at lexed
    generalize token.kind = kind at lexed isName
    cases lexed with
    | string => cases isName
    | template isTemplate =>
        cases kind <;> simp [TokenKind.isTemplate, TokenKind.isKeyword] at isTemplate isName
    | number => cases isName
    | name head starts run' => exact readName_ensures _ cursor head starts _ _ run'
    | punctuator => cases isName

theorem Ident.ReadAsKey.nameText {id : Ident} (read : id.ReadAsKey) : NameText id.name.toList := by
  rcases read with ⟨token, occurs, isName, equal⟩
  rw [equal]
  exact (occurs.nameText isName).1

theorem Ident.Read.nameText {id : Ident} (read : id.Read) :
    NameText id.name.toList ∧ kindOfWord id.name = .identifier := by
  rcases read with ⟨token, occurs, isIdentifier, equal⟩
  rcases occurs.nameText (by simp [Token.isName, isIdentifier]) with ⟨text, kind⟩
  rw [equal]
  exact ⟨text, kind ▸ isIdentifier⟩

theorem Ident.Read.asKey {id : Ident} (read : id.Read) : id.ReadAsKey := by
  rcases read with ⟨token, occurs, isIdentifier, equal⟩
  exact ⟨token, occurs, by simp [Token.isName, isIdentifier], equal⟩

theorem NumberLiteral.Read.plain {literal : NumberLiteral} (read : literal.Read) :
    Number.Plain literal.value := by
  rcases read with ⟨token, ⟨before, after, placed, run⟩, isNumber, payload⟩
  rcases next_plain before _ _ run isNumber with ⟨number, payload', plain⟩
  cases payload.symm.trans payload'
  exact plain

theorem Quasi.Read.templateText {quasi : Quasi} (read : quasi.Read) :
    TemplateText quasi.raw.toList quasi.cooked.toList := by
  rcases read with ⟨token, ⟨before, after, placed, run⟩, isTemplate, payload⟩
  rcases next_lexed before _ _ run with isEnd | ⟨cursor, -, -, -, lexed⟩
  · rw [isEnd] at isTemplate
    cases isTemplate
  · generalize token.octal = octal at lexed
    generalize token.payload = content at lexed payload
    generalize token.kind = kind at lexed
    cases lexed with
    | template _ run' =>
        injection payload with cooked raw
        rw [← cooked, ← raw]
        have ensures : Ensures (do skip; readTemplatePiece token.span.start) cursor
            fun (piece : TemplatePiece) _ => TemplateText piece.raw.toList piece.cooked.toList :=
          skip_advance (readTemplatePiece_ensures _ _)
        exact ensures _ _ run'
    | _ => cases payload

theorem validRegExpFlags_parts {flags : List Char} (valid : Parse.validRegExpFlags flags = true) :
    ∀ c ∈ flags, Text.isNamePart c = true ∧ c ≠ '\r' := by
  have known : "dgimsuyv".toList.all (fun c => Text.isNamePart c && c != '\r') = true := by decide
  simp only [List.all_eq_true, Bool.and_eq_true, bne_iff_ne] at known
  simp only [Parse.validRegExpFlags, Bool.and_eq_true, List.all_eq_true,
    List.contains_iff_mem] at valid
  intro c member
  exact known c (valid.1.1 c member)

theorem isPrefix_of_punctuatorOf? {text : List Char} {mark : Punctuator}
    (found : punctuatorOf? text = some mark) : mark.spelling.toList <+: text := by
  have holds := List.find?_some found
  simp only [Bool.and_eq_true] at holds
  exact List.isPrefixOf_iff_prefix.mp holds.1

theorem Scanner.Lexed.starts_with {start : Position} {cursor : Cursor} {mark : Punctuator}
    {payload : Payload} {octal : Bool}
    (lexed : Lexed start cursor (.punctuator mark, payload, octal)) :
    mark.spelling.toList <+: cursor.rest := by
  cases lexed with
  | template isTemplate => cases isTemplate
  | name _ _ run =>
      rcases readName_kind _ _ _ _ run with kind | ⟨word, kind⟩ <;> cases kind
  | punctuator found => exact isPrefix_of_punctuatorOf? found

theorem rescanRegExp_payload (slash : Token) (scanner : Scanner) :
    Ensures (rescanRegExp slash) scanner fun token _ => ∃ pattern flags after,
      token.payload = .regExp pattern flags ∧
        readRegExp slash.span.start (scanner.cursorAt slash.span.start slash.lineStart) =
          .ok (pattern, flags) after := by
  refine .get (.modify (.bind (read_ensures.mono ?_)))
  rintro ⟨pattern, flags⟩ after ⟨run, -⟩
  exact .get (.pure ⟨pattern, flags, after.cursor, rfl, run⟩)

/-- A regular expression does not start like a comment, because its slash was read
as an operator first. -/
theorem RegExpRead.regExpText {pattern flags : String} (read : RegExpRead pattern flags) :
    RegExpText pattern.toList flags.toList ∧ Parse.validRegExpFlags flags.toList = true := by
  rcases read with
    ⟨before, after, after', slash, token, placed, run, isSlash, rescan, payload, valid⟩
  refine ⟨?_, valid⟩
  rcases next_lexed before _ _ run with isEnd | ⟨cursor, leads, noTrivia, start, lexed⟩
  · rw [isEnd] at isSlash
    rcases isSlash with isSlash | isSlash <;> cases isSlash
  have text := rest_cursorAt placed run leads start
  have slashed : ∃ tail, cursor.rest = '/' :: tail := by
    rcases isSlash with isSlash | isSlash
    · rw [isSlash] at lexed
      rcases lexed.starts_with with ⟨tail, equal⟩
      exact ⟨tail, equal.symm⟩
    · rw [isSlash] at lexed
      rcases lexed.starts_with with ⟨tail, equal⟩
      exact ⟨'=' :: tail, equal.symm⟩
  rcases slashed with ⟨tail, slashed⟩
  rcases rescanRegExp_payload slash after _ _ rescan with ⟨pattern', flags', final, same, read⟩
  rw [payload] at same
  injection same with samePattern sameFlags
  subst samePattern sameFlags
  rcases readRegExp_ensures _ _ (text.trans slashed) _ _ read with ⟨others, parts, body⟩
  dsimp only at parts body
  rw [text] at parts
  have noComment := (noTrivia '/' (by rw [slashed]; rfl)).2 rfl
  rw [parts, List.getElem?_cons_succ, ← List.head?_eq_getElem?] at noComment
  refine ⟨body, ?_, ?_, validRegExpFlags_parts valid⟩
  · intro isEmpty
    rw [isEmpty] at noComment
    exact noComment.1 rfl
  · intro star
    rcases List.head?_eq_some_iff.mp star with ⟨rest, equal⟩
    rw [equal] at noComment
    exact noComment.2 rfl

end ExprScript
