import ExprScript.Proofs.Token.Sequence
import ExprScript.Proofs.Tree.Writable
import ExprScript.Tree.Builder

/-! # The words of built trees

A name is accepted if the scanner makes a single token of it. Without escapes such a
name is written as it is read, and escaped template text is read as what it was
escaped from.
-/

namespace ExprScript

/-! ## Texts with a single token -/

namespace Scanner

theorem Lexed.head_of_isName {start : Position} {cursor : Cursor} {kind : TokenKind}
    {payload : Payload} {octal : Bool} (lexed : Lexed start cursor (kind, payload, octal))
    (isName : (kind == .identifier || kind.isKeyword) = true) :
    ∃ first, cursor.rest.head? = some first ∧ (Text.isNameStart first = true ∨ first = '\\') := by
  cases lexed with
  | string => cases isName
  | template isTemplate =>
      cases kind <;> simp [TokenKind.isTemplate, TokenKind.isKeyword] at isTemplate isName
  | number => cases isName
  | name head starts => exact ⟨_, head, starts⟩
  | punctuator => cases isName

end Scanner

namespace Reader

theorem TemplateText.escapeSelf {c : Char} {raw cooked : List Char}
    (noLetter : escapeLetter? c = none) (inLine : Text.isLineTerminator c = false)
    (noCode : c ≠ 'x' ∧ c ≠ 'u') (noDigit : c.isDigit = false)
    (later : TemplateText raw cooked) : TemplateText ('\\' :: c :: raw) (c :: cooked) :=
  @TemplateText.escape [c] raw cooked (some c)
    (fun _ _ => .self noLetter inLine noCode noDigit) later

end Reader

namespace Build

open Scanner Reader

theorem fills_of_soleToken {name : String} {token : Token} (found : soleToken? name = some token) :
    ∃ after, next (ofString name) = .ok token after ∧ after.cursor.rest = [] ∧
      token.kind ≠ .endOfInput ∧ token.span.start.offset = 0 := by
  unfold soleToken? at found
  split at found
  · next only run =>
      split at found
      · next spelled =>
          cases found
          exact fills_of_tokenize run (eq_of_beq spelled)
      · cases found
  · cases found

theorem head_of_soleToken {name : String} {token : Token} (found : soleToken? name = some token)
    (isName : token.isName = true) :
    ∃ first, name.toList.head? = some first ∧ (Text.isNameStart first = true ∨ first = '\\') := by
  rcases fills_of_soleToken found with ⟨after, run, -, notEnd, atStart⟩
  rcases next_lexed _ _ _ run with isEnd | ⟨cursor, ⟨passed, text, offset⟩, -, start, lexed⟩
  · exact absurd isEnd notEnd
  · rw [← start, atStart] at offset
    change name.toList = passed ++ cursor.rest at text
    cases passed with
    | nil =>
        rw [text]
        exact lexed.head_of_isName isName
    | cons c passed =>
        have positive := c.utf8Size_pos
        rw [byteSize_cons] at offset
        omega

/-- Without escapes, the token is the longest name that the text starts with. As it
leaves nothing, the text is a name. -/
theorem nameText_of_soleToken {name : String} {token : Token}
    (found : soleToken? name = some token) (isName : token.isName = true)
    (plain : '\\' ∉ name.toList) : NameText name.toList ∧ Shows token (.word name) := by
  rcases head_of_soleToken found isName with ⟨first, head, starts⟩
  rcases List.head?_eq_some_iff.mp head with ⟨others, text⟩
  have starts : Text.isNameStart first = true := by
    apply starts.resolve_right
    rintro rfl
    exact plain (text ▸ List.mem_cons_self ..)
  let word := first :: others.takeWhile Text.isNamePart
  let rest := others.dropWhile Text.isNamePart
  have parts : name.toList = word ++ rest := by
    rw [text, List.cons_append, List.takeWhile_append_dropWhile]
  have isWord : NameText (String.ofList word).toList := by
    rw [String.toList_ofList]
    exact ⟨starts, fun _ member => List.mem_takeWhile_imp member⟩
  have stops : Stops (fun c => Text.isNamePart c || c == '\\') rest := by
    intro c next
    have notPart : Text.isNamePart c = false := by
      have ends := List.head?_dropWhile_not Text.isNamePart others
      rw [next] at ends
      simpa using ends
    have notEscape : c ≠ '\\' := by
      rintro rfl
      exact plain (parts ▸ List.mem_append_right _ (List.mem_of_mem_head? next))
    simp [notPart, notEscape]
  have scans := @scans_word [] rest _ isWord stops
  rw [String.toList_ofList] at scans
  rcases scans.next (placed_ofString name) parts rfl with
    ⟨token', after', run', shows', -, remains, -⟩
  rcases fills_of_soleToken found with ⟨after, run, empty, -⟩
  cases run.symm.trans run'
  rw [empty] at remains
  rw [← remains, List.append_nil] at parts
  have same : String.ofList word = name := by rw [← parts, String.ofList_toList]
  rw [same] at isWord shows'
  exact ⟨isWord, shows'⟩

/-! ## Names -/

variable {name : String}

theorem legible_of_isIdentifier (accepted : isIdentifier name = true)
    (plain : '\\' ∉ name.toList) : Ident.Legible { name } := by
  rcases (Option.any_eq_true _ _).mp accepted with ⟨token, found, kind⟩
  have isName : token.isName = true := by simp [Token.isName, kind]
  rcases nameText_of_soleToken found isName plain with ⟨text, shows'⟩
  exact ⟨text, (congrArg Prod.fst shows'.lexeme).symm.trans (eq_of_beq kind)⟩

theorem read_of_isIdentifier (accepted : isIdentifier name = true)
    (plain : '\\' ∉ name.toList) : Ident.Read { name } := by
  rcases (Option.any_eq_true _ _).mp accepted with ⟨token, found, kind⟩
  have isName : token.isName = true := by simp [Token.isName, kind]
  rcases fills_of_soleToken found with ⟨after, run, -⟩
  have payload := congrArg (·.2.1) (nameText_of_soleToken found isName plain).2.lexeme
  refine ⟨token, ⟨_, after, placed_ofString name, run⟩, eq_of_beq kind, ?_⟩
  rw [Token.text, show token.payload = .text name from payload]

theorem nameText_of_isPropertyName (accepted : isPropertyName name = true)
    (plain : '\\' ∉ name.toList) : NameText name.toList := by
  rcases (Option.any_eq_true _ _).mp accepted with ⟨token, found, isName⟩
  exact (nameText_of_soleToken found isName plain).1

theorem identifier_eq_ok {expr : Expr} (built : identifier name = .ok expr) :
    isIdentifier name = true ∧ expr = .ident { name } := by
  unfold identifier at built
  split at built
  · next accepted =>
      cases built
      exact ⟨accepted, rfl⟩
  · cases built

theorem member_eq_ok {owner expr : Expr} {optional : Bool}
    (built : member owner name optional = .ok expr) : isPropertyName name = true ∧
      expr = .member {} (chainStart owner) (.name { name }) optional := by
  unfold member at built
  split at built
  · next accepted =>
      cases built
      exact ⟨accepted, rfl⟩
  · cases built

/-! ## Template text -/

theorem head?_of_escapeTemplate {cooked : List Char}
    (head : (escapeTemplate cooked).head? = some '\x7b') : cooked.head? = some '\x7b' := by
  cases cooked with
  | nil => cases head
  | cons c rest =>
      rw [escapeTemplate] at head
      grind

theorem templateText_escapeTemplate (cooked : List Char) :
    TemplateText (escapeTemplate cooked) cooked := by
  induction cooked with
  | nil => exact .nil
  | cons c rest induction =>
      rw [escapeTemplate]
      split
      · next isQuote =>
          cases eq_of_beq isQuote
          exact .escapeSelf rfl rfl (by decide) rfl induction
      split
      · next isEscape =>
          cases eq_of_beq isEscape
          exact .escapeSelf rfl rfl (by decide) rfl induction
      split
      · next opensHole =>
          rw [Bool.and_eq_true, beq_iff_eq] at opensHole
          cases opensHole.1
          exact .escapeSelf rfl rfl (by decide) rfl induction
      split
      · next isReturn =>
          cases eq_of_beq isReturn
          exact @TemplateText.escape ['r'] _ _ (some '\r') (fun _ _ => .letter rfl) induction
      · next notQuote notEscape noHole notReturn =>
          apply TemplateText.plain
          · simpa using notQuote
          · simpa using notEscape
          · simpa using notReturn
          · intro isDollar head
            exact noHole (by simp [isDollar, head?_of_escapeTemplate head])
          · exact induction

theorem templateText_of_quasis {pieces : List String} {quasi : Quasi}
    (member : quasi ∈ quasis pieces) : TemplateText quasi.raw.toList quasi.cooked.toList := by
  induction pieces with
  | nil => cases member
  | cons cooked pieces induction =>
      rcases List.mem_cons.mp member with rfl | member
      · rw [String.toList_ofList]
        exact templateText_escapeTemplate _
      · exact induction member

theorem tails_quasis {pieces : List String} {count : Nat} (length : pieces.length = count + 1) :
    (quasis pieces).map (·.tail) = List.replicate count false ++ [true] := by
  induction pieces generalizing count with
  | nil => cases length
  | cons cooked pieces induction =>
      cases pieces with
      | nil =>
          cases count with
          | zero => rfl
          | succ count => cases length
      | cons next pieces =>
          cases count with
          | zero => cases length
          | succ count =>
              rw [quasis, List.map_cons, induction (Nat.succ.inj length)]
              rfl

end Build

end ExprScript
