import ExprScript.Proofs.Tree.Opening

/-! # The tokens of a printed tree

The text of a legible tree is scanned as the tokens of the tree. What may follow
a text without changing its last token is stated along with it.
-/

namespace ExprScript

open Reader Scanner

/-- Before characters of a class, and whatever braces are open, the text is scanned
as the tokens. -/
def Prints (follows : Char → Bool) (text : String) (lexemes : List Lexeme) : Prop :=
  ∀ braces rest more, (∀ c, rest.head? = some c → follows c = true) → Lexes braces rest more →
    Lexes braces (text.toList ++ rest) (lexemes ++ more)

def anyChar : Char → Bool := fun _ => true

def followsItem (c : Char) : Bool :=
  [' ', ',', ')', ']', '\x7d', '(', '[', '\x60', '?', '+', '-'].contains c

def followsChain (c : Char) : Bool := followsItem c || c == '.'

def followsName (c : Char) : Bool := !(Text.isNamePart c || c == '\\')

def followsNumber (c : Char) : Bool := !(Text.isNamePart c || c == '\\' || c == '.')

theorem followsName_of_followsChain {c : Char} (follows : followsChain c = true) :
    followsName c = true := by
  have all : (['.', ' ', ',', ')', ']', '\x7d', '(', '[', '\x60', '?', '+', '-'] : List Char).all
      followsName = true := by
    decide
  simp only [List.all_eq_true] at all
  apply all
  simp only [followsChain, followsItem, Bool.or_eq_true, beq_iff_eq, List.contains_iff_mem] at follows
  rcases follows with member | rfl
  · exact List.mem_cons_of_mem _ member
  · exact List.mem_cons_self ..

theorem followsChain_of_followsItem {c : Char} (follows : followsItem c = true) :
    followsChain c = true := by
  rw [followsChain, follows, Bool.true_or]

theorem followsNumber_of_followsItem {c : Char} (follows : followsItem c = true) :
    followsNumber c = true := by
  have name := followsName_of_followsChain (followsChain_of_followsItem follows)
  have notPoint : c ≠ '.' := by
    rintro rfl
    cases follows
  simp only [followsName, Bool.not_eq_true', Bool.or_eq_false_iff] at name
  simp [followsNumber, name, notPoint]

namespace Prints

variable {follows follows' : Char → Bool} {text text' : String} {lexemes lexemes' : List Lexeme}

theorem mono (prints : Prints follows text lexemes)
    (within : ∀ c, follows' c = true → follows c = true) : Prints follows' text lexemes := by
  intro braces rest more allowed
  exact prints braces rest more fun c head => within c (allowed c head)

theorem any (prints : Prints anyChar text lexemes) : Prints follows text lexemes :=
  prints.mono fun _ _ => rfl

theorem item (prints : Prints followsChain text lexemes) : Prints followsItem text lexemes :=
  prints.mono fun _ => followsChain_of_followsItem

theorem empty : Prints follows "" [] := by
  intro braces rest more _ lexes
  exact lexes

theorem append (prints : Prints follows text lexemes) (prints' : Prints follows' text' lexemes')
    (meets : text'.toList.head?.any follows = true) :
    Prints follows' (text ++ text') (lexemes ++ lexemes') := by
  intro braces rest more allowed lexes
  rw [String.toList_append, List.append_assoc, List.append_assoc]
  apply prints
  · intro c head
    cases chars : text'.toList with
    | nil => rw [chars] at meets; cases meets
    | cons d others =>
        rw [chars] at head meets
        cases head
        exact meets
  · exact prints' braces rest more allowed lexes

theorem appendAny (prints : Prints anyChar text lexemes)
    (prints' : Prints follows' text' lexemes') :
    Prints follows' (text ++ text') (lexemes ++ lexemes') := by
  intro braces rest more allowed lexes
  rw [String.toList_append, List.append_assoc, List.append_assoc]
  exact prints braces _ _ (fun _ _ => rfl) (prints' braces rest more allowed lexes)

theorem blank (prints : Prints follows text lexemes) (allowed : follows ' ' = true) :
    Prints anyChar (text ++ " ") lexemes := by
  intro braces rest more _ lexes
  rw [String.toList_append, List.append_assoc]
  apply prints
  · intro c head
    cases head
    exact allowed
  · exact lexes.space

end Prints

/-! ## Single tokens -/

theorem prints_word {name : String} (text : NameText name.toList) :
    Prints followsName name [.word name] := by
  intro braces rest more allowed lexes
  refine .cons (scans_word text fun c head => ?_) ?_ lexes
  · simpa [followsName] using allowed c head
  · intro wrong
    unfold Lexeme.word kindOfWord at wrong
    split at wrong <;> cases wrong

theorem prints_letters {name : String} (letters : name.toList.all Text.isNameStart = true)
    (some : name ≠ "") : Prints followsName name [.word name] :=
  prints_word (nameText_of_letters letters some)

theorem prints_number {number : Float}
    (denotes : Number.Denotes (Number.print number).toList number) :
    Prints followsNumber (Number.print number) [.number number] := by
  intro braces rest more allowed lexes
  refine .cons (scans_number denotes fun c head => ?_) nofun lexes
  simpa [followsNumber, and_assoc] using allowed c head

theorem prints_string {escaping : Text.Escaping} (reads : ReadsEscaped escaping)
    (value : String) : Prints anyChar (Text.quoteWith escaping value) [.string value] := by
  intro braces rest more _ lexes
  exact .cons (scans_string reads value) nofun lexes

theorem prints_regExp {pattern flags : String} (text : RegExpText pattern.toList flags.toList) :
    Prints followsName ("/" ++ pattern ++ "/" ++ flags) [.regExp pattern flags] := by
  intro braces rest more allowed lexes
  have parts : ("/" ++ pattern ++ "/" ++ flags).toList ++ rest =
      '/' :: (pattern.toList ++ '/' :: (flags.toList ++ rest)) := by
    simp
  rw [parts]
  refine .regExp text (fun c head => ?_) lexes
  have stops := allowed c head
  simp only [followsName, Bool.not_eq_true', Bool.or_eq_false_iff] at stops
  exact stops.1

def Punctuator.endsBefore (mark : Punctuator) (c : Char) : Bool :=
  !mark.extensions.contains c && !((mark == .questionDot || mark == .dot) && c.isDigit) &&
    !(mark == .slash && (c == '/' || c == '*'))

theorem scans_endsBefore {mark : Punctuator} {braces : List Brace} {rest : List Char}
    (allowed : ∀ c, rest.head? = some c → mark.endsBefore c = true)
    (noHole : mark = .rightBrace → braces.head? ≠ some .hole) :
    Scans braces (mark.spelling.toList ++ rest) (.mark mark) (bracesAfter mark braces) rest := by
  cases rest with
  | nil => exact scans_mark mark nofun (fun _ => rfl) (fun _ => ⟨nofun, nofun⟩) noHole
  | cons c rest =>
      have ends := allowed c rfl
      simp only [Punctuator.endsBefore, Bool.and_eq_true, Bool.not_eq_true', Bool.and_eq_false_iff,
        Bool.or_eq_false_iff, beq_eq_false_iff_ne, List.contains_eq_mem, decide_eq_false_iff_not] at ends
      rcases ends with ⟨⟨alone, noDigit⟩, noComment⟩
      refine scans_mark mark ?_ (fun isPoint => ?_) (fun isSlash => ?_) noHole
      · intro d head
        cases head
        exact alone
      · rcases noDigit with ⟨notLink, notDot⟩ | noDigit
        · rcases isPoint with isLink | isDot
          · exact absurd isLink notLink
          · exact absurd isDot notDot
        · exact noDigit
      · rcases noComment with notSlash | ⟨notSlash, notStar⟩
        · exact absurd isSlash notSlash
        · exact ⟨fun wrong => notSlash (Option.some.inj wrong),
            fun wrong => notStar (Option.some.inj wrong)⟩

theorem prints_mark (mark : Punctuator) (notLeft : mark ≠ .leftBrace)
    (notRight : mark ≠ .rightBrace) :
    Prints mark.endsBefore mark.spelling [.mark mark] := by
  intro braces rest more allowed lexes
  have same : bracesAfter mark braces = braces := by
    cases mark with
    | leftBrace => exact absurd rfl notLeft
    | rightBrace => exact absurd rfl notRight
    | _ => rfl
  refine .cons (scans_endsBefore allowed fun isRight => absurd isRight notRight) nofun ?_
  rwa [same]

theorem prints_sign (mark : Punctuator) (notLeft : mark ≠ .leftBrace)
    (notRight : mark ≠ .rightBrace) (alone : mark.extensions = [])
    (notPoint : mark ≠ .questionDot ∧ mark ≠ .dot ∧ mark ≠ .slash) :
    Prints anyChar mark.spelling [.mark mark] := by
  refine (prints_mark mark notLeft notRight).mono fun c _ => ?_
  simp [Punctuator.endsBefore, alone, notPoint]

/-! ## Lists -/

theorem prints_separated {members : List String} {lexemes : List (List Lexeme)}
    (each : List.Forall₂ (Prints followsItem) members lexemes) :
    Prints followsItem (", ".intercalate members) (separated lexemes) := by
  induction each with
  | nil => exact .empty
  | @cons first firstLexemes members lexemes prints each induction =>
      cases each with
      | nil => exact prints
      | @cons second secondLexemes members lexemes prints' each =>
          have comma : Prints anyChar "," [.mark .comma] :=
            prints_sign .comma nofun nofun (by decide) ⟨nofun, nofun, nofun⟩
          have gap : Prints anyChar ", " [.mark .comma] := comma.blank rfl
          rw [String.intercalate_cons_cons, separated, List.append_cons]
          exact (prints.append gap rfl).appendAny induction

theorem prints_parens {text : String} {lexemes : List Lexeme}
    (inner : Prints followsItem text lexemes) :
    Prints anyChar ("(" ++ text ++ ")") (enclosed .leftParen .rightParen lexemes) := by
  have opening : Prints anyChar "(" [.mark .leftParen] :=
    prints_sign .leftParen nofun nofun (by decide) ⟨nofun, nofun, nofun⟩
  have closing : Prints anyChar ")" [.mark .rightParen] :=
    prints_sign .rightParen nofun nofun (by decide) ⟨nofun, nofun, nofun⟩
  exact (opening.appendAny inner).append closing rfl

theorem prints_brackets {text : String} {lexemes : List Lexeme}
    (inner : Prints followsItem text lexemes) :
    Prints anyChar ("[" ++ text ++ "]") (enclosed .leftBracket .rightBracket lexemes) := by
  have opening : Prints anyChar "[" [.mark .leftBracket] :=
    prints_sign .leftBracket nofun nofun (by decide) ⟨nofun, nofun, nofun⟩
  have closing : Prints anyChar "]" [.mark .rightBracket] :=
    prints_sign .rightBracket nofun nofun (by decide) ⟨nofun, nofun, nofun⟩
  exact (opening.appendAny inner).append closing rfl

theorem prints_braces {text : String} {lexemes : List Lexeme}
    (inner : Prints (· == '\x7d') text lexemes) :
    Prints anyChar ("\x7b" ++ text ++ "\x7d") (enclosed .leftBrace .rightBrace lexemes) := by
  intro braces rest more _ lexes
  have alone : ∀ mark : Punctuator, mark = .leftBrace ∨ mark = .rightBrace →
      ∀ c, mark.endsBefore c = true := by
    rintro mark (rfl | rfl) c <;> rfl
  have closing : Lexes (.block :: braces) ('\x7d' :: rest) (.mark .rightBrace :: more) :=
    .cons (scans_endsBefore (fun c _ => alone .rightBrace (.inr rfl) c) nofun) nofun lexes
  have within := inner (.block :: braces) ('\x7d' :: rest) (.mark .rightBrace :: more)
    (fun c head => by cases head; rfl) closing
  have opening := Lexes.cons (scans_endsBefore (fun c _ => alone .leftBrace (.inl rfl) c) nofun)
    nofun within
  have parts : ("\x7b" ++ text ++ "\x7d").toList ++ rest =
      '\x7b' :: (text.toList ++ '\x7d' :: rest) := by
    simp
  have tokens : enclosed .leftBrace .rightBrace lexemes ++ more =
      .mark .leftBrace :: (lexemes ++ .mark .rightBrace :: more) := by
    simp [enclosed]
  rw [parts, tokens]
  exact opening

theorem prints_braced {members : List String} {lexemes : List (List Lexeme)}
    (each : List.Forall₂ (Prints followsItem) members lexemes) :
    Prints anyChar (printBraced members) (enclosed .leftBrace .rightBrace (separated lexemes)) := by
  cases each with
  | nil => exact @prints_braces "" [] .empty
  | @cons first firstLexemes members lexemes prints each =>
      have inner := (prints_separated (.cons prints each)).blank rfl
      have front : Prints anyChar " " [] := (Prints.empty : Prints anyChar "" []).blank rfl
      have whole := prints_braces (front.appendAny inner).any
      have text : printBraced (first :: members) =
          "\x7b" ++ (" " ++ (", ".intercalate (first :: members) ++ " ")) ++ "\x7d" := by
        simp only [printBraced, List.isEmpty_cons, Bool.false_eq_true, if_false,
          String.append_assoc]
        rfl
      rw [text]
      exact whole

def PrintsElement (text : String) : Option (List Lexeme) → Prop
  | none => text = ""
  | some lexemes => Prints followsItem text lexemes

theorem prints_elements {texts : List String} {elements : List (Option (List Lexeme))}
    (each : List.Forall₂ PrintsElement texts elements) :
    Prints followsItem (", ".intercalate texts ++ if endsInHole elements then "," else "")
      (separatedElements elements) := by
  have comma : Prints anyChar "," [.mark .comma] :=
    prints_sign .comma nofun nofun (by decide) ⟨nofun, nofun, nofun⟩
  have gap : Prints anyChar ", " [.mark .comma] := comma.blank rfl
  induction each with
  | nil => exact .empty
  | @cons text element texts elements prints each induction =>
      cases each with
      | nil =>
          cases element with
          | none =>
              cases prints
              exact comma.any
          | some lexemes =>
              have text' : ", ".intercalate [text] ++ (if endsInHole [some lexemes] then "," else "")
                  = text := by
                simp [endsInHole]
              rw [text', separatedElements]
              exact prints
      | @cons second element' texts elements prints' each =>
          have later : endsInHole (element :: element' :: elements) =
              endsInHole (element' :: elements) := by
            rw [endsInHole_cons]
            rfl
          rw [String.intercalate_cons_cons, String.append_assoc, later]
          cases element with
          | none =>
              cases prints
              exact gap.appendAny induction
          | some lexemes =>
              rw [separatedElements, List.append_cons]
              exact (Prints.append prints gap rfl).appendAny induction

theorem prints_bracketed {texts : List String} {elements : List (Option (List Lexeme))}
    {hole : Bool} (each : List.Forall₂ PrintsElement texts elements)
    (isHole : hole = endsInHole elements) :
    Prints anyChar (printBracketed texts hole)
      (enclosed .leftBracket .rightBracket (separatedElements elements)) := by
  have whole := prints_brackets (prints_elements each)
  rw [printBracketed, isHole]
  simpa only [String.append_assoc] using whole

/-! ## Templates -/

/-- A template that starts or goes on. -/
theorem lexes_template {texts : List String} {holes : List (List Lexeme)}
    (each : List.Forall₂ (Prints followsItem) texts holes) {quasis : List Quasi}
    (count : quasis.length = holes.length + 1)
    (legible : ∀ quasi ∈ quasis, TemplateText quasi.raw.toList quasi.cooked.toList)
    {braces : List Brace} {rest : List Char} {more : List Lexeme}
    (lexes : Lexes braces rest more) (opened : Bool) :
    Lexes (if opened then .hole :: braces else braces)
      ((if opened then '\x7d' else '\x60') ::
        ((weave (quasis.map (·.raw)) texts).toList ++ '\x60' :: rest))
      (templateLexemes opened quasis holes ++ more) := by
  induction each generalizing quasis opened with
  | nil =>
      cases quasis with
      | nil => cases count
      | cons quasi quasis =>
          cases quasis with
          | cons => simp at count
          | nil =>
              have text := legible quasi (List.mem_cons_self ..)
              have woven : (weave ([quasi].map (·.raw)) []).toList ++ '\x60' :: rest =
                  quasi.raw.toList ++ (pieceEnd false ++ rest) := by
                simp [weave, pieceEnd]
              rw [woven]
              cases opened with
              | false => exact .cons (scans_opening text false) (by rintro ⟨⟩) lexes
              | true => exact .cons (scans_resumption text false) (by rintro ⟨⟩) lexes
  | @cons hole holeLexemes texts holes prints each induction =>
      cases quasis with
      | nil => cases count
      | cons quasi quasis =>
          have text := legible quasi (List.mem_cons_self ..)
          have later := induction (by simpa using count)
            (fun quasi member => legible quasi (List.mem_cons_of_mem _ member)) true
          have inner := prints _ _ _ (fun c head => by cases head; rfl) later
          have woven : (weave ((quasi :: quasis).map (·.raw)) (hole :: texts)).toList ++
              '\x60' :: rest = quasi.raw.toList ++ (pieceEnd true ++ (hole.toList ++
                '\x7d' :: ((weave (quasis.map (·.raw)) texts).toList ++ '\x60' :: rest))) := by
            simp [weave, pieceEnd]
          rw [woven, templateLexemes, List.cons_append, List.append_assoc]
          cases opened with
          | false => exact .cons (scans_opening text true) (by rintro ⟨⟩) inner
          | true => exact .cons (scans_resumption text true) (by rintro ⟨⟩) inner

theorem prints_template {texts : List String} {holes : List (List Lexeme)}
    (each : List.Forall₂ (Prints followsItem) texts holes) {quasis : List Quasi}
    (count : quasis.length = holes.length + 1)
    (legible : ∀ quasi ∈ quasis, TemplateText quasi.raw.toList quasi.cooked.toList) :
    Prints anyChar (printTemplate quasis texts) (templateLexemes false quasis holes) := by
  intro braces rest more _ lexes
  have whole := lexes_template each count legible lexes false
  have text : (printTemplate quasis texts).toList ++ rest =
      '\x60' :: ((weave (quasis.map (·.raw)) texts).toList ++ '\x60' :: rest) := by
    simp [printTemplate]
  rw [text]
  exact whole

/-! ## Operators -/

theorem Punctuator.blank_not_mem_spelling (mark : Punctuator) : ' ' ∉ mark.spelling.toList := by
  cases mark <;> decide

theorem Punctuator.endsBefore_blank (mark : Punctuator) : mark.endsBefore ' ' = true := by
  have alone : ' ' ∉ mark.extensions := by
    intro member
    rcases mem_spelling_of_mem_extensions member with ⟨longer, spelled⟩
    exact longer.blank_not_mem_spelling spelled
  simp [endsBefore, alone]

theorem prints_operator {text : String} {mark : Punctuator} (spelled : text = mark.spelling)
    (notLeft : mark ≠ .leftBrace) (notRight : mark ≠ .rightBrace) :
    Prints anyChar (text ++ " ") [.mark mark] := by
  rw [spelled]
  exact (prints_mark mark notLeft notRight).blank mark.endsBefore_blank

theorem ArithmeticOp.spelling_mark (op : ArithmeticOp) :
    op.spelling = op.mark.spelling ∧ op.mark ≠ .leftBrace ∧ op.mark ≠ .rightBrace := by
  cases op <;> exact ⟨rfl, nofun, nofun⟩

theorem LogicalOp.spelling_mark (op : LogicalOp) :
    op.spelling = op.mark.spelling ∧ op.mark ≠ .leftBrace ∧ op.mark ≠ .rightBrace := by
  cases op <;> exact ⟨rfl, nofun, nofun⟩

theorem AssignOp.spelling_mark (op : AssignOp) :
    op.spelling = op.mark.spelling ∧ op.mark ≠ .leftBrace ∧ op.mark ≠ .rightBrace := by
  cases op with
  | plain => exact ⟨rfl, nofun, nofun⟩
  | arithmetic op => cases op <;> exact ⟨by decide, nofun, nofun⟩
  | logical op => cases op <;> exact ⟨by decide, nofun, nofun⟩

theorem prints_logicalOp (op : LogicalOp) :
    Prints anyChar (op.spelling ++ " ") [.mark op.mark] := by
  rcases op.spelling_mark with ⟨spelled, notLeft, notRight⟩
  exact prints_operator spelled notLeft notRight

theorem prints_assignOp (op : AssignOp) :
    Prints anyChar (op.spelling ++ " ") [.mark op.mark] := by
  rcases op.spelling_mark with ⟨spelled, notLeft, notRight⟩
  exact prints_operator spelled notLeft notRight

theorem prints_binaryOp (op : BinaryOp) : Prints anyChar (op.spelling ++ " ") [op.lexeme] := by
  have word : ∀ {name : String}, name.toList.all Text.isNameStart = true → name ≠ "" →
      Prints anyChar (name ++ " ") [.word name] :=
    fun letters some => (prints_letters letters some).blank (by decide)
  cases op with
  | arithmetic op =>
      rcases op.spelling_mark with ⟨spelled, notLeft, notRight⟩
      exact prints_operator spelled notLeft notRight
  | isIn => exact word (by decide) (by decide)
  | isInstance => exact word (by decide) (by decide)
  | equal => exact @prints_operator _ .equalEqual rfl nofun nofun
  | notEqual => exact @prints_operator _ .bangEqual rfl nofun nofun
  | strictEqual => exact @prints_operator _ .equalEqualEqual rfl nofun nofun
  | strictNotEqual => exact @prints_operator _ .bangEqualEqual rfl nofun nofun
  | less => exact @prints_operator _ .less rfl nofun nofun
  | lessEqual => exact @prints_operator _ .lessEqual rfl nofun nofun
  | greater => exact @prints_operator _ .greater rfl nofun nofun
  | greaterEqual => exact @prints_operator _ .greaterEqual rfl nofun nofun

/-- A sign does not run into the sign of its operand. -/
theorem prints_unary (op : UnaryOp) {follows : Char → Bool} {text : String}
    {lexemes : List Lexeme} {begins : TokenKind → Prop} (opens : Opens text lexemes begins)
    (prints : Prints follows text lexemes) :
    Prints follows (op.spelling ++ (if op.spaceBefore text then " " else "") ++ text)
      (op.lexeme :: lexemes) := by
  rcases opens with ⟨c, chars, -, -, starts, -, notEqual, -, -⟩
  have head : startsWith text = (some c == some ·) := by
    funext d
    rw [startsWith, starts, List.head?_cons]
  -- The operator touches its operand only if the first character allows for it.
  have joined : ∀ {mark : Punctuator} {space : Bool}, mark ≠ .leftBrace → mark ≠ .rightBrace →
      (space = false → mark.endsBefore c = true) →
      Prints follows (mark.spelling ++ (if space then " " else "") ++ text)
        (.mark mark :: lexemes) := by
    intro mark space notLeft notRight touches
    have alone := prints_mark mark notLeft notRight
    cases space with
    | true => exact (alone.blank mark.endsBefore_blank).appendAny prints
    | false =>
        rw [if_neg (by simp), String.append_empty]
        refine alone.append prints ?_
        rw [starts, List.head?_cons, Option.any_some]
        exact touches rfl
  have word : ∀ {name : String}, name.toList.all Text.isNameStart = true → name ≠ "" →
      Prints follows (name ++ " " ++ text) (.word name :: lexemes) :=
    fun letters some => ((prints_letters letters some).blank (by decide)).appendAny prints
  cases op with
  | typeof => exact word (by decide) (by decide)
  | void => exact word (by decide) (by decide)
  | minus =>
      refine @joined .minus _ (by decide) (by decide) fun apart => ?_
      have signs : Punctuator.minus.extensions = ['-', '='] := by decide
      rw [UnaryOp.spaceBefore, head] at apart
      have notSign : c ≠ '-' := by simpa using apart
      simp [Punctuator.endsBefore, signs, notEqual, notSign]
  | plus =>
      refine @joined .plus _ (by decide) (by decide) fun apart => ?_
      have signs : Punctuator.plus.extensions = ['+', '='] := by decide
      rw [UnaryOp.spaceBefore, head] at apart
      have notSign : c ≠ '+' := by simpa using apart
      simp [Punctuator.endsBefore, signs, notEqual, notSign]
  | not =>
      refine @joined .bang _ (by decide) (by decide) fun _ => ?_
      have signs : Punctuator.bang.extensions = ['=', '='] := by decide
      simp [Punctuator.endsBefore, signs, notEqual]
  | bitNot =>
      refine @joined .tilde _ (by decide) (by decide) fun _ => ?_
      have signs : Punctuator.tilde.extensions = [] := by decide
      simp [Punctuator.endsBefore, signs]

theorem prints_update (op : UpdateOp) : Prints anyChar op.spelling [.mark op.mark] := by
  cases op with
  | increment => exact prints_sign .plusPlus nofun nofun (by decide) ⟨nofun, nofun, nofun⟩
  | decrement => exact prints_sign .minusMinus nofun nofun (by decide) ⟨nofun, nofun, nofun⟩

theorem prints_spread {follows : Char → Bool} {text : String} {lexemes : List Lexeme}
    (prints : Prints follows text lexemes) :
    Prints follows ("..." ++ text) (.mark .dotDotDot :: lexemes) := by
  have dots : Prints anyChar "..." [.mark .dotDotDot] :=
    prints_sign .dotDotDot nofun nofun (by decide) ⟨nofun, nofun, nofun⟩
  exact dots.appendAny prints

end ExprScript
