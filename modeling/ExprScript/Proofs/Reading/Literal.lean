import ExprScript.Proofs.Reading.Items

/-! # Reading literals

Names, numbers and texts are read back, and so are templates and objects if the rules
read what is inside of them.
-/

namespace ExprScript

open Reader Scanner ParserState

def Property.Settled (property : Property) : Prop := propertiesHaveInitializer [property] = false

namespace Parse

variable {β : Type} {state : ParserState} {post : β → ParserState → Prop}
  {rest : List Lexeme} {rules : Rules} {size : Nat}

/-! ## Words -/

theorem kindOfWord_cases (name : String) :
    kindOfWord name = .identifier ∨ ∃ word, kindOfWord name = .keyword word := by
  rw [kindOfWord]
  split
  · exact .inr ⟨_, rfl⟩
  · exact .inl rfl

theorem kindOfWord_known (name : String) : kindOfWord name ≠ .regExpLiteral := by
  rcases kindOfWord_cases name with equal | ⟨word, equal⟩ <;> rw [equal] <;> nofun

theorem text_of_shows {token : Token} {kind : TokenKind} {text : String} {octal : Bool}
    (shows' : Shows token (kind, .text text, octal)) : token.text = text := by
  have payload : token.payload = .text text := congrArg (Prod.fst ∘ Prod.snd) shows'.lexeme
  rw [Token.text, payload]

theorem bindingName_then {id : Ident} {next : Ident → Parse β}
    (facing : state.Facing (.word id.name :: rest))
    (isName : kindOfWord id.name = .identifier)
    (achieves : ∀ found after, found.erase = id.erase → state.Reaches rest True after →
      Achieves (next found) after post) : Achieves (bindingName >>= next) state post := by
  have known := kindOfWord_known id.name
  have kind : state.lookahead.kind = .identifier := (facing.kind known).trans isName
  refine .bind (kind_then (.iteFalse (by simp [kind]) ?_))
  refine advance_then facing known fun after shows' reaches => .get (.iteFalse ?_ (.pure ?_))
  · simp [reaches.facing.lenient]
  · refine achieves _ after ?_ reaches
    rw [Ident.erase, Ident.erase, text_of_shows shows']

theorem propertyName_then {id : Ident} {next : Ident → Parse β}
    (facing : state.Facing (.word id.name :: rest))
    (achieves : ∀ found after, found.erase = id.erase → state.Reaches rest True after →
      Achieves (next found) after post) : Achieves (propertyName >>= next) state post := by
  have known := kindOfWord_known id.name
  have kind : state.lookahead.kind = kindOfWord id.name := facing.kind known
  have isName : state.lookahead.isName = true := by
    rw [Token.isName, kind]
    rcases kindOfWord_cases id.name with equal | ⟨word, equal⟩ <;> rw [equal] <;> rfl
  refine .bind (lookahead_then (.iteFalse (by simp [isName]) ?_))
  refine advance_then facing known fun after shows' reaches => .pure ?_
  refine achieves _ after ?_ reaches
  rw [Ident.erase, Ident.erase, text_of_shows shows']

/-! ## Numbers, strings and regular expressions -/

theorem octal_of_shows {token : Token} {kind : TokenKind} {payload : Payload}
    (shows' : Shows token (kind, payload, false)) : token.octal = false :=
  congrArg (Prod.snd ∘ Prod.snd) shows'.lexeme

theorem stringLiteral_then {literal : StringLiteral} {next : StringLiteral → Parse β}
    (facing : state.Facing (.string literal.value :: rest))
    (achieves : ∀ found after, found.erase = literal.erase → state.Reaches rest True after →
      Achieves (next found) after post) : Achieves (stringLiteral >>= next) state post := by
  have kind : state.lookahead.kind = .stringLiteral := facing.kind nofun
  refine .bind (kind_then (.iteFalse (by simp [kind]) ?_))
  refine advance_then facing nofun fun after shows' reaches => ?_
  have octal := octal_of_shows shows'
  refine .iteFalse (by simp [octal]) (.pure (achieves _ after ?_ reaches))
  rw [StringLiteral.erase, StringLiteral.erase, text_of_shows shows']

theorem numberLiteral_then {literal : NumberLiteral} {next : NumberLiteral → Parse β}
    (legible : literal.Legible) (facing : state.Facing (.number literal.value :: rest))
    (achieves : ∀ found after, found.erase = literal.erase → state.Reaches rest True after →
      Achieves (next found) after post) : Achieves (numberLiteral >>= next) state post := by
  refine .bind (advance_then facing nofun fun after shows' reaches => ?_)
  have payload : state.lookahead.payload = .number literal.value :=
    congrArg (Prod.fst ∘ Prod.snd) shows'.lexeme
  have octal := octal_of_shows shows'
  refine .iteFalse (by simp [octal]) (.pure (achieves _ after ?_ reaches))
  rw [NumberLiteral.erase, NumberLiteral.erase, payload, shows'.spelled _ payload, legible.spelled]

theorem regExpLiteral_reads {loc : Span} {pattern flags : String}
    (valid : validRegExpFlags flags.toList = true) :
    (Expr.regExp loc pattern flags).ReadBy Expr.anywhere regExpLiteral rest := by
  intro state facing _ _
  rw [Expr.lexemes] at facing
  rcases facing with ⟨ahead, lenient, noCommas⟩
  cases ahead with
  | token _ known => exact absurd rfl known
  | @regExp _ _ _ _ found following _ final later slash rescan shows' _ run ahead =>
  have payload : found.payload = .regExp pattern flags :=
    congrArg (Prod.fst ∘ Prod.snd) shows'.lexeme
  have scanned : scan (rescanRegExp state.lookahead) state =
      .ok found { state with scanner := final } := by
    simp only [scan, EStateM.run, rescan]
  have used : scan Scanner.next { state with scanner := final, lookahead := found } =
      .ok following { state with scanner := later, lookahead := found } := by
    simp only [scan, EStateM.run, run]
  refine lookahead_then (.bind ⟨_, _, scanned, .modify (.bind (.bind ⟨_, _, used, ?_⟩))⟩)
  refine lookahead_then (.modify (.pure ?_))
  simp only [payload]
  refine ofExcept_then (by rw [checkRegExpFlags, if_pos valid]) (.pure ⟨?_, ?_⟩)
  · rw [Expr.erase, Expr.erase]
  · exact ⟨⟨ahead, lenient, noCommas⟩, rfl, fun _ => rfl⟩

/-! ## Templates -/

/-- The kind of a piece: whether the template is opened before it, and whether it ends
with it. -/
def pieceKind (opened ends : Bool) : TokenKind :=
  if ends then (if opened then .templateTail else .noSubstitutionTemplate)
  else if opened then .templateMiddle else .templateHead

def templateRest (quasis : List Quasi) : List (List Lexeme) → List Lexeme
  | [] => []
  | hole :: holes => hole ++ templateLexemes true quasis holes

theorem templateLexemes_cons (opened : Bool) (quasi : Quasi) (quasis : List Quasi)
    (holes : List (List Lexeme)) :
    templateLexemes opened (quasi :: quasis) holes =
      .piece (pieceKind opened holes.isEmpty) quasi.cooked quasi.raw ::
        templateRest quasis holes := by
  cases holes <;> rfl

theorem length_le_templateRest {quasis : List Quasi} {holes : List (List Lexeme)}
    (count : quasis.length = holes.length) :
    holes.length ≤ (templateRest quasis holes).length := by
  induction holes generalizing quasis with
  | nil => exact Nat.zero_le _
  | cons hole holes induction =>
      cases quasis with
      | nil => cases count
      | cons quasi quasis =>
          have later := induction (Nat.succ.inj count)
          rw [templateRest, templateLexemes_cons, List.length_append, List.length_cons,
            List.length_cons]
          omega

structure HoldsPiece (opened ends : Bool) (quasi : Quasi) (token : Token) : Prop where
  kind : token.kind = pieceKind opened ends
  ends : token.endsTemplate = ends
  quasi : (quasiOf token).erase = quasi.erase

theorem holdsPiece {opened ends : Bool} {quasi : Quasi} {token : Token}
    (shows' : Shows token (.piece (pieceKind opened ends) quasi.cooked quasi.raw))
    (tail : quasi.tail = ends) : HoldsPiece opened ends quasi token := by
  have kind : token.kind = pieceKind opened ends := congrArg Prod.fst shows'.lexeme
  have payload : token.payload = .template quasi.cooked quasi.raw :=
    congrArg (Prod.fst ∘ Prod.snd) shows'.lexeme
  have isEnd : token.endsTemplate = ends := by
    rw [Token.endsTemplate, kind]
    cases opened <;> cases ends <;> rfl
  refine ⟨kind, isEnd, ?_⟩
  rw [quasiOf, payload, Quasi.erase, Quasi.erase, isEnd, tail]

def templateRound (rules : Rules) : Token × List Quasi × List Expr →
    Parse (Round (Token × List Quasi × List Expr) (List Quasi × List Expr)) :=
  fun (token, quasis, holes) => do
    if token.endsTemplate then return .done (quasis, holes)
    let hole ← expression rules
    if !(← kind).resumesTemplate then unexpected
    let next ← advance
    return .again (next, quasiOf next :: quasis, hole :: holes)

structure ReadableHole (size : Nat) (hole : Expr) : Prop where
  legible : hole.Everywhere legible
  small : hole.lexemes.length < size
  settles : hole.Settles Precedence.sequence

/-- A hole and the piece after it. -/
theorem templateRound_reads (hold : RulesRead rules size) {token : Token}
    (goesOn : token.endsTemplate = false) {hole : Expr} (readable : ReadableHole size hole)
    {ends : Bool} {quasi : Quasi} {tokens : List Lexeme} (quasis : List Quasi)
    (holes : List Expr) (facing : state.Facing
      (hole.lexemes ++ .piece (pieceKind true ends) quasi.cooked quasi.raw :: tokens)) :
    Achieves (templateRound rules (token, quasis, holes)) state fun outcome after =>
      ∃ following found, outcome = .again (following, quasiOf following :: quasis, found :: holes) ∧
        Shows following (.piece (pieceKind true ends) quasi.cooked quasi.raw) ∧
        found.erase = hole.erase ∧ state.Reaches tokens True after := by
  have known : pieceKind true ends ≠ .regExpLiteral := by cases ends <;> nofun
  refine .iteFalse (by simp [goesOn]) (.bind ?_)
  refine (expression_reads hold readable.legible readable.small readable.settles facing ?_).mono ?_
  · cases ends <;> exact Nat.zero_lt_one
  · rintro found middle ⟨same, reaches⟩
    have kind : middle.lookahead.kind = pieceKind true ends := reaches.facing.kind known
    refine kind_then (.iteFalse ?_ ?_)
    · rw [kind]
      cases ends <;> simp [pieceKind, TokenKind.resumesTemplate]
    · refine advance_then reaches.facing known fun after shows' reaches' => ?_
      exact .pure ⟨_, found, rfl, shows', same, reaches.andThen reaches'⟩

theorem template_rounds (hold : RulesRead rules size) {holes : List Expr}
    (readable : ∀ hole ∈ holes, ReadableHole size hole) :
    ∀ {quasi : Quasi} {quasis : List Quasi} {opened : Bool} {token : Token}
      {state : ParserState} (reversed : List Quasi) (reversed' : List Expr),
      (quasi :: quasis).map (·.tail) = List.replicate holes.length false ++ [true] →
      Shows token (.piece (pieceKind opened holes.isEmpty) quasi.cooked quasi.raw) →
      state.Facing (templateRest quasis (itemsLexemes holes) ++ rest) →
      ∃ (last : Token) (found : List Quasi) (found' : List Expr) (after : ParserState),
        Rounds (templateRound rules) holes.length
          (token, quasiOf token :: reversed, reversed') state
          (last, found.reverse ++ reversed, found'.reverse ++ reversed') after ∧
        last.endsTemplate = true ∧ found.map Quasi.erase = (quasi :: quasis).map Quasi.erase ∧
        List.Forall₂ (fun found hole => found.erase = hole.erase) found' holes ∧
        state.Reaches rest True after := by
  induction holes with
  | nil =>
      intro quasi quasis opened token state reversed reversed' tails shows' facing
      have tails : quasi.tail = true ∧ quasis = [] := by simpa using tails
      rcases tails with ⟨tail, rfl⟩
      have holds := holdsPiece shows' tail
      refine ⟨token, [quasiOf token], [], state, .none, holds.ends, ?_, .nil, facing.reaches⟩
      rw [List.map_cons, List.map_cons, holds.quasi]
  | cons hole holes induction =>
      intro quasi quasis opened token state reversed reversed' tails shows' facing
      match quasis with
      | [] => simp [List.replicate_succ] at tails
      | next :: quasis =>
      have tails : quasi.tail = false ∧
          (next :: quasis).map (·.tail) = List.replicate holes.length false ++ [true] := by
        simpa [List.replicate_succ] using tails
      have holds := holdsPiece shows' tails.1
      have isEmpty : (itemsLexemes holes).isEmpty = holes.isEmpty := by
        rw [itemsLexemes_eq_map, List.isEmpty_map]
      rw [itemsLexemes, templateRest, templateLexemes_cons, List.append_assoc, isEmpty] at facing
      rcases templateRound_reads hold holds.ends (readable hole (List.mem_cons_self ..))
          (quasiOf token :: reversed) reversed' facing with
        ⟨outcome, middle, run, following, found, rfl, shows'', same, reaches⟩
      rcases induction (fun hole member => readable hole (List.mem_cons_of_mem _ member))
          (quasiOf token :: reversed) (found :: reversed') tails.2 shows'' reaches.facing with
        ⟨last, found', found'', after, rounds, ends, quasis', alike, reaches'⟩
      refine ⟨last, quasiOf token :: found', found :: found'', after, ?_, ends, ?_,
        .cons same alike, reaches.andThen reaches'⟩
      · rw [List.reverse_cons, List.reverse_cons, List.append_assoc, List.append_assoc]
        exact .one run rounds
      · rw [List.map_cons, List.map_cons, quasis', holds.quasi]

theorem template_reads (hold : RulesRead rules size) {quasis : List Quasi} {holes : List Expr}
    (legible : TemplateLegible quasis holes) (readable : ∀ hole ∈ holes, ReadableHole size hole)
    (facing : state.Facing (templateLexemes false quasis (itemsLexemes holes) ++ rest)) :
    Achieves (template rules) state fun found after =>
      found.quasis.map Quasi.erase = quasis.map Quasi.erase ∧
        eraseItems found.holes = eraseItems holes ∧ state.Reaches rest True after := by
  match quasis, legible.tails with
  | [], tails => simp at tails
  | quasi :: quasis, tails =>
  have isEmpty : (itemsLexemes holes).isEmpty = holes.isEmpty := by
    rw [itemsLexemes_eq_map, List.isEmpty_map]
  rw [templateLexemes_cons, isEmpty] at facing
  have known : pieceKind false holes.isEmpty ≠ .regExpLiteral := by
    cases holes.isEmpty <;> nofun
  refine start_then (advance_then facing known fun middle shows' reaches => .bind ?_)
  rcases template_rounds hold readable [] [] tails shows' reaches.facing with
    ⟨last, found, found', after, rounds, ends, same, alike, reaches'⟩
  refine loop_achieves reaches.facing ?_ rounds (.iteTrue ends (.pure ?_))
  · have count : quasis.length = (itemsLexemes holes).length := by
      rw [itemsLexemes_eq_map, List.length_map]
      exact Nat.succ.inj legible.count
    have room := length_le_templateRest count
    rw [itemsLexemes_eq_map, List.length_map, ← itemsLexemes_eq_map] at room
    exact Nat.le_trans room (List.length_append ▸ Nat.le_add_right _ _)
  · refine spanFrom_then fun loc => .pure ⟨?_, ?_, reaches.andThen reaches'⟩
    · simpa using same
    · simpa using eraseItems_of_forall₂ alike

theorem kind_template {quasis : List Quasi} {holes : List Expr}
    (legible : TemplateLegible quasis holes)
    (facing : state.Facing (templateLexemes false quasis (itemsLexemes holes) ++ rest)) :
    state.lookahead.kind = .noSubstitutionTemplate ∨ state.lookahead.kind = .templateHead := by
  match quasis, legible.tails with
  | [], tails => simp at tails
  | quasi :: quasis, _ =>
  rw [templateLexemes_cons, List.cons_append] at facing
  cases holes with
  | nil => exact .inl (facing.kind nofun)
  | cons hole holes => exact .inr (facing.kind nofun)

/-! ## Objects -/

structure ReadableProperty (size : Nat) (property : Property) : Prop where
  shape : property.Legible
  inside : property.Inside legible
  small : property.lexemes.length < size

def EndsProperty (kind : TokenKind) : Prop :=
  kind = .punctuator .comma ∨ kind = .punctuator .rightBrace

theorem EndsProperty.continues {kind : TokenKind} (ends : EndsProperty kind) :
    kind.continues < Precedence.assignment := by
  rcases ends with rfl | rfl
  · exact Nat.lt_succ_self _
  · exact Nat.zero_lt_two

theorem isShorthand_then {id : Ident} (isName : kindOfWord id.name = .identifier)
    (facing : state.Facing (.word id.name :: rest))
    (ends : EndsProperty (nextKind rest) ∨ nextKind rest = .punctuator .equal)
    {next : Bool → Parse β} (achieves : Achieves (next true) state post) :
    Achieves (isShorthand >>= next) state post := by
  have known := kindOfWord_known id.name
  have kind : state.lookahead.kind = .identifier := (facing.kind known).trans isName
  refine .bind (kind_then (.iteFalse (by simp [kind]) ?_))
  refine secondKind_then facing known fun second isSecond => .pure ?_
  rcases isSecond with rfl | ⟨isRegExp, -⟩
  · rcases ends with (equal | equal) | equal <;> rw [equal] <;> exact achieves
  · rcases ends with (equal | equal) | equal <;> rw [equal] at isRegExp <;> cases isRegExp

/-- A key with a value is no shorthand. -/
theorem notShorthand_then {lexeme : Lexeme} (known : lexeme.1 ≠ .regExpLiteral)
    (facing : state.Facing (lexeme :: rest))
    (colon : lexeme.1 = .identifier → nextKind rest = .punctuator .colon)
    {next : Bool → Parse β} (achieves : Achieves (next false) state post) :
    Achieves (isShorthand >>= next) state post := by
  have kind : state.lookahead.kind = lexeme.1 := facing.kind known
  refine .bind (kind_then ?_)
  by_cases isName : lexeme.1 = .identifier
  · refine .iteFalse (by simp [kind, isName]) ?_
    refine secondKind_then facing known fun second isSecond => .pure ?_
    have isColon := colon isName
    rcases isSecond with rfl | ⟨isRegExp, -⟩
    · rw [isColon]
      exact achieves
    · rw [isColon] at isRegExp
      cases isRegExp
  · exact .iteTrue (by simpa [kind] using isName) (.pure achieves)

/-- The first initializer is noted. -/
theorem pending_then {lexemes : List Lexeme} {position : Position} {next : Parse β}
    (facing : state.Facing lexemes)
    (achieves : ∀ after, state.Reaches lexemes False after → Achieves next after post) :
    Achieves (get >>= fun current => if current.pendingInitializer.isNone = true then
        (modify fun state => { state with pendingInitializer := some position }) >>= fun _ => next
      else next) state post := by
  refine .get ?_
  split
  · exact .modify (achieves _ ⟨⟨facing.1, facing.2, facing.3⟩, rfl, nofun⟩)
  · exact achieves state ⟨facing, rfl, nofun⟩

theorem shorthandProperty_reads (hold : RulesRead rules size) {loc : Span} {id : Ident}
    {value : Expr} (readable : ReadableProperty size (.field loc (.name id) value true))
    (named : value = .ident id ∨ ∃ place fallback, value = .assign place .plain (.ident id) fallback)
    (ends : EndsProperty (nextKind rest)) (start : Position)
    (facing : state.Facing (value.lexemes ++ rest)) :
    Achieves (shorthandProperty rules start) state fun found after =>
      found.erase = (Property.field loc (.name id) value true).erase ∧
        state.Reaches rest (Property.field loc (.name id) value true).Settled after := by
  rcases readable with ⟨-, ⟨-, legible, inside⟩, small⟩
  rcases named with rfl | ⟨place, fallback, rfl⟩
  · rw [Expr.lexemes] at facing
    have isName : kindOfWord id.name = .identifier := legible.2
    refine bindingName_then facing isName fun found after same reaches => ?_
    refine at?_false (Expr.ne_mark_of_facing reaches.facing ends.continues (by decide)) ?_
    refine .iteFalse (by simp) (spanFrom_then fun loc => .pure ⟨?_, reaches.mono fun _ => trivial⟩)
    rw [Property.erase, Property.erase, PropertyKey.erase, PropertyKey.erase, Expr.erase,
      Expr.erase, same]
  · have facing : state.Facing (.word id.name :: .mark .equal :: (fallback.lexemes ++ rest)) := by
      rwa [Expr.lexemes, Expr.lexemes, List.append_assoc] at facing
    have isName : kindOfWord id.name = .identifier := inside.1.1.2
    have small : fallback.lexemes.length < size := by
      simp only [Property.lexemes, Expr.lexemes, if_true, List.length_append, List.length_cons]
        at small
      omega
    refine bindingName_then facing isName fun found first same reaches => ?_
    refine at?_true reaches.facing.mark (.iteTrue rfl ?_)
    refine advance_then reaches.facing nofun fun second _ reaches' => ?_
    refine pending_then reaches'.facing fun third reaches'' => .bind ?_
    refine (isolated_reads hold inside.2 small legible.2 reaches''.facing ends.continues).mono ?_
    rintro value after ⟨same', final⟩
    refine spanFrom_then fun loc => .pure ⟨?_, ?_⟩
    · simp only [Property.erase, PropertyKey.erase, Expr.erase, same, same']
    · have whole := ((reaches.andThen reaches').andThen reaches'').afterwards final
      refine whole.mono fun settled => ?_
      cases settled

theorem propertyKey_then (hold : RulesRead rules size) {key : PropertyKey} (shape : key.Legible)
    (inside : key.Inside legible) (small : key.lexemes.length < size)
    (facing : state.Facing (key.lexemes ++ rest)) {next : PropertyKey → Parse β}
    (achieves : ∀ found after, found.erase = key.erase → state.Reaches rest True after →
      Achieves (next found) after post) : Achieves (propertyKey rules >>= next) state post := by
  refine .bind (kind_then ?_)
  cases key with
  | name id =>
      rw [PropertyKey.lexemes] at facing
      have kind : state.lookahead.kind = kindOfWord id.name := facing.kind (kindOfWord_known _)
      rcases kindOfWord_cases id.name with isName | ⟨word, isWord⟩
      · rw [kind, isName]
        refine propertyName_then facing fun found after same reaches => .pure ?_
        exact achieves _ after (by rw [PropertyKey.erase, PropertyKey.erase, same]) reaches
      · rw [kind, isWord]
        refine propertyName_then facing fun found after same reaches => .pure ?_
        exact achieves _ after (by rw [PropertyKey.erase, PropertyKey.erase, same]) reaches
  | string literal =>
      rw [PropertyKey.lexemes] at facing
      have kind : state.lookahead.kind = .stringLiteral := facing.kind (by rintro ⟨⟩)
      rw [kind]
      refine stringLiteral_then facing fun found after same reaches => .pure ?_
      exact achieves _ after (by rw [PropertyKey.erase, PropertyKey.erase, same]) reaches
  | number literal =>
      rw [PropertyKey.lexemes] at facing
      have kind : state.lookahead.kind = .numericLiteral := facing.kind (by rintro ⟨⟩)
      rw [kind]
      refine numberLiteral_then shape facing fun found after same reaches => .pure ?_
      exact achieves _ after (by rw [PropertyKey.erase, PropertyKey.erase, same]) reaches
  | computed key =>
      rw [PropertyKey.lexemes, length_enclosed] at small
      have facing : state.Facing (.mark .leftBracket ::
          (key.lexemes ++ .mark .rightBracket :: rest)) := by
        rwa [PropertyKey.lexemes, enclosed, List.cons_append, List.append_assoc] at facing
      rw [facing.mark]
      refine advance_then facing (by decide) fun middle _ reaches => .bind ?_
      refine (isolated_reads hold inside (Nat.lt_of_succ_lt (Nat.lt_of_succ_lt small)) shape
        reaches.facing Nat.zero_lt_two).mono ?_
      rintro found after ⟨same, reaches'⟩
      refine expect_then reaches'.facing fun final reaches'' => .pure (achieves _ final ?_ ?_)
      · rw [PropertyKey.erase, PropertyKey.erase, same]
      · exact (reaches.andThen reaches').andThen reaches''

theorem opens_key (key : PropertyKey) :
    ∃ lexeme others, key.lexemes = lexeme :: others ∧ lexeme.1 ≠ .regExpLiteral ∧
      (∀ mark, lexeme.1 = .punctuator mark → mark = .leftBracket) ∧
      (lexeme.1 = .identifier → others = []) := by
  cases key with
  | name id =>
      refine ⟨.word id.name, [], by rw [PropertyKey.lexemes], kindOfWord_known _, ?_, fun _ => rfl⟩
      intro mark isMark
      change kindOfWord id.name = _ at isMark
      rcases kindOfWord_cases id.name with equal | ⟨word, equal⟩ <;>
        rw [equal] at isMark <;> cases isMark
  | string literal =>
      exact ⟨.string literal.value, [], by rw [PropertyKey.lexemes], nofun, nofun, nofun⟩
  | number literal =>
      exact ⟨.number literal.value, [], by rw [PropertyKey.lexemes], nofun, nofun, nofun⟩
  | computed key =>
      refine ⟨.mark .leftBracket, key.lexemes ++ [.mark .rightBracket],
        by rw [PropertyKey.lexemes, enclosed], nofun, ?_, nofun⟩
      intro mark isMark
      cases isMark
      rfl

theorem opens_shorthand {id : Ident} {value : Expr} (holds : value.Everywhere legible)
    (named : value = .ident id ∨ ∃ place fallback, value = .assign place .plain (.ident id) fallback) :
    ∃ tokens, value.lexemes = .word id.name :: tokens ∧ kindOfWord id.name = .identifier ∧
      (tokens = [] ∨ nextKind tokens = .punctuator .equal) := by
  rcases named with rfl | ⟨place, fallback, rfl⟩
  · exact ⟨[], by rw [Expr.lexemes], holds.1.2, .inl rfl⟩
  · refine ⟨.mark .equal :: fallback.lexemes, ?_, holds.2.1.1.2, .inr rfl⟩
    rw [Expr.lexemes, Expr.lexemes]
    rfl

theorem property_reads (hold : RulesRead rules size) {property : Property}
    (readable : ReadableProperty size property) (ends : EndsProperty (nextKind rest))
    (facing : state.Facing (property.lexemes ++ rest)) :
    Achieves (Parse.property rules) state fun found after =>
      found.erase = property.erase ∧ state.Reaches rest property.Settled after := by
  refine start_then ?_
  cases property with
  | spread loc argument =>
      rcases readable with ⟨shape, inside, small⟩
      rw [Property.lexemes] at facing small
      refine at?_true facing.mark (.iteTrue rfl ?_)
      refine advance_then facing nofun fun middle _ reaches => .bind ?_
      refine (inherited_reads hold inside (Nat.lt_of_succ_lt small) shape reaches.facing
        ends.continues).mono ?_
      rintro found after ⟨same, reaches'⟩
      refine spanFrom_then fun loc => .pure ⟨?_, (reaches.andThen reaches').mono ?_⟩
      · rw [Property.erase, Property.erase, same]
      · intro settled
        simpa [Property.Settled, propertiesHaveInitializer] using settled
  | field loc key value shorthand =>
      cases shorthand with
      | true =>
          rcases readable.shape.2.2 rfl with ⟨id, rfl, named⟩
          have facing : state.Facing (value.lexemes ++ rest) := by
            rwa [Property.lexemes, if_pos rfl] at facing
          rcases opens_shorthand readable.inside.2 named with ⟨tokens, equal, isName, follows⟩
          have opened : state.Facing (.word id.name :: (tokens ++ rest)) := by
            rwa [equal] at facing
          have ends' : EndsProperty (nextKind (tokens ++ rest)) ∨
              nextKind (tokens ++ rest) = .punctuator .equal := by
            cases tokens with
            | nil => exact .inl ends
            | cons first tokens => exact .inr (follows.resolve_left nofun)
          have kind : state.lookahead.kind = .identifier :=
            (opened.kind (kindOfWord_known _)).trans isName
          refine at?_false (by rw [kind]; nofun) (.iteFalse (by simp) ?_)
          refine isShorthand_then isName opened ends' (.iteTrue rfl ?_)
          exact shorthandProperty_reads hold readable named ends _ facing
      | false =>
          rcases readable with ⟨⟨keyShape, binds, -⟩, ⟨keyInside, inside⟩, small⟩
          have facing : state.Facing (key.lexemes ++ .mark .colon :: (value.lexemes ++ rest)) := by
            rwa [Property.lexemes, if_neg nofun, List.append_assoc] at facing
          have smaller : key.lexemes.length + (value.lexemes.length + 1) < size := by
            rwa [Property.lexemes, if_neg nofun, List.length_append] at small
          rcases opens_key key with ⟨lexeme, others, equal, known, marks, alone⟩
          have opened : state.Facing
              (lexeme :: (others ++ .mark .colon :: (value.lexemes ++ rest))) := by
            rwa [equal] at facing
          refine at?_false (fun isDots => ?_) (.iteFalse (by simp) ?_)
          · cases marks _ ((opened.kind known).symm.trans isDots)
          refine notShorthand_then known opened (fun isName => by rw [alone isName]; rfl) ?_
          refine .iteFalse (by simp) ?_
          refine propertyKey_then hold keyShape keyInside (by omega) facing
            fun found middle same reaches => ?_
          refine expect_then reaches.facing fun second reaches' => .bind ?_
          refine (inherited_reads hold inside (by omega) binds reaches'.facing
            ends.continues).mono ?_
          rintro found' after ⟨same', reaches''⟩
          refine spanFrom_then fun loc => .pure ⟨?_, ?_⟩
          · rw [Property.erase, Property.erase, same, same']
          · refine ((reaches.andThen reaches').andThen reaches'').mono fun settled => ?_
            simpa [Property.Settled, propertiesHaveInitializer] using settled

theorem opens_property {property : Property} (readable : ReadableProperty size property) :
    ∃ lexeme others, property.lexemes = lexeme :: others ∧ lexeme.1 ≠ .regExpLiteral ∧
      lexeme.1 ≠ .punctuator .rightBrace := by
  cases property with
  | spread loc argument =>
      exact ⟨.mark .dotDotDot, argument.lexemes, by rw [Property.lexemes], nofun, nofun⟩
  | field loc key value shorthand =>
      cases shorthand with
      | true =>
          rcases readable.shape.2.2 rfl with ⟨id, rfl, named⟩
          rcases opens_shorthand readable.inside.2 named with ⟨tokens, equal, isName, -⟩
          refine ⟨.word id.name, tokens, ?_, kindOfWord_known _, ?_⟩
          · rw [Property.lexemes, if_pos rfl, equal]
          · change kindOfWord id.name ≠ _
            rw [isName]
            nofun
      | false =>
          rcases opens_key key with ⟨lexeme, others, equal, known, marks, -⟩
          refine ⟨lexeme, others ++ .mark .colon :: value.lexemes, ?_, known, ?_⟩
          · rw [Property.lexemes, if_neg nofun, equal]
            rfl
          · intro isClose
            cases marks _ isClose

theorem eraseProperties_of_forall₂ {found properties : List Property}
    (each : List.Forall₂ (fun found property => found.erase = property.erase) found properties) :
    eraseProperties found = eraseProperties properties := by
  induction each with
  | nil => rfl
  | cons same _ induction => rw [eraseProperties, eraseProperties, same, induction]

theorem settled_of_properties {properties : List Property}
    (settled : propertiesHaveInitializer properties = false) :
    ∀ property ∈ properties, property.Settled := by
  induction properties with
  | nil => nofun
  | cons first properties induction =>
      cases first with
      | spread loc argument =>
          rw [propertiesHaveInitializer, Bool.or_eq_false_iff] at settled
          refine List.forall_mem_cons.mpr ⟨?_, induction settled.2⟩
          rw [Property.Settled, propertiesHaveInitializer, settled.1]
          rfl
      | field loc key value shorthand =>
          rw [propertiesHaveInitializer, Bool.or_eq_false_iff] at settled
          refine List.forall_mem_cons.mpr ⟨?_, induction settled.2⟩
          rw [Property.Settled, propertiesHaveInitializer, settled.1]
          rfl

theorem objectLiteral_reads (hold : RulesRead rules size) {loc : Span}
    {properties : List Property}
    (readable : ∀ property ∈ properties, ReadableProperty size property) :
    (Expr.object loc properties).ReadBy Expr.anywhere (objectLiteral rules) rest := by
  intro state facing _ _
  have facing : state.Facing (.mark .leftBrace ::
      (separated (propertiesLexemes properties) ++ .mark .rightBrace :: rest)) := by
    rwa [Expr.lexemes, enclosed, List.cons_append, List.append_assoc] at facing
  refine start_then (expect_then facing fun middle reaches => .bind ?_)
  refine loop_items (fun properties => separated (propertiesLexemes properties))
    (fun found property => found.erase = property.erase) (ReadableProperty size)
    Property.Settled readable reaches.facing ?_ ?_
  · intro property properties reversed state readable _ facing
    have facing : state.Facing (separated (property.lexemes :: propertiesLexemes properties) ++
      .mark .rightBrace :: rest) := facing
    rw [separated_cons, List.append_assoc] at facing
    rcases opens_property readable with ⟨lexeme, others, equal, known, notClose⟩
    have notEmpty : 0 < property.lexemes.length := equal ▸ Nat.succ_pos _
    have kind : state.lookahead.kind = lexeme.1 := by
      rw [equal] at facing
      exact facing.kind known
    refine ⟨length_separated_lt notEmpty _, ?_⟩
    refine at?_false (kind.trans_ne notClose) (.iteFalse (by simp) (.bind ?_))
    refine (property_reads hold readable ?_ facing).mono ?_
    · cases properties with
      | nil => exact .inr rfl
      | cons second properties => exact .inl rfl
    · rintro found middle ⟨same, reaches⟩
      refine comma_then reaches.facing (by decide) fun after reaches' =>
        .pure ⟨found, rfl, same, ?_⟩
      exact reaches.afterwards reaches'
  · rintro found after alike reaches'
    refine at?_true reaches'.facing.mark (.iteTrue rfl (.pure ?_))
    refine expect_then reaches'.facing fun final reaches'' => spanFrom_then fun loc => .pure ⟨?_, ?_⟩
    · rw [List.append_nil, List.reverse_reverse, Expr.erase, Expr.erase,
        eraseProperties_of_forall₂ alike]
    · refine reaches.andThen ((reaches'.mono ?_).afterwards reaches'')
      rw [Expr.hasInitializer]
      exact settled_of_properties

end Parse

end ExprScript
