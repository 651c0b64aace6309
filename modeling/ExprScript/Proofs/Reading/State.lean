import ExprScript.Proofs.Tree.Opening

/-! # Reading the tokens ahead

The state of the parser faces the tokens that lie ahead of it. The primitive steps
use up the first of them, and a loop has room for a round for each.
-/

namespace ExprScript

open Scanner

def nextKind : List Lexeme → TokenKind
  | [] => .endOfInput
  | lexeme :: _ => lexeme.1

namespace ParserState

/-- The tokens lie ahead of the parser. -/
structure Facing (state : ParserState) (lexemes : List Lexeme) : Prop where
  ahead : Ahead lexemes state.lookahead state.scanner
  lenient : state.strict = false
  noCommas : state.trailingCommas = []

/-- Parsing has led from one state to another one with fewer tokens ahead, and found
no initializer if it was `calm`. -/
structure Reaches (before : ParserState) (rest : List Lexeme) (calm : Prop)
    (after : ParserState) : Prop where
  facing : after.Facing rest
  start : after.assignmentStart = before.assignmentStart
  pending : calm → after.pendingInitializer = before.pendingInitializer

theorem Facing.reaches {state : ParserState} {lexemes : List Lexeme}
    (facing : state.Facing lexemes) {calm : Prop} : state.Reaches lexemes calm state :=
  ⟨facing, rfl, fun _ => rfl⟩

theorem Reaches.trans {first second third : ParserState} {middle rest : List Lexeme}
    {calm calm' : Prop} (left : first.Reaches middle calm second)
    (right : second.Reaches rest calm' third) : first.Reaches rest (calm ∧ calm') third :=
  ⟨right.facing, right.start.trans left.start,
    fun both => (right.pending both.2).trans (left.pending both.1)⟩

theorem Reaches.mono {before after : ParserState} {rest : List Lexeme} {calm calm' : Prop}
    (reaches : before.Reaches rest calm after) (within : calm' → calm) :
    before.Reaches rest calm' after :=
  ⟨reaches.facing, reaches.start, fun holds => reaches.pending (within holds)⟩

theorem Reaches.andThen {first second third : ParserState} {middle rest : List Lexeme}
    {calm : Prop} (left : first.Reaches middle True second)
    (right : second.Reaches rest calm third) : first.Reaches rest calm third :=
  (left.trans right).mono fun holds => ⟨trivial, holds⟩

theorem Reaches.afterwards {first second third : ParserState} {middle rest : List Lexeme}
    {calm : Prop} (left : first.Reaches middle calm second)
    (right : second.Reaches rest True third) : first.Reaches rest calm third :=
  (left.trans right).mono fun holds => ⟨holds, trivial⟩

variable {state : ParserState} {lexemes : List Lexeme}

theorem Facing.kind (facing : state.Facing lexemes)
    (known : nextKind lexemes ≠ .regExpLiteral) : state.lookahead.kind = nextKind lexemes := by
  cases facing.ahead with
  | none isEnd => exact isEnd
  | token shows' => exact congrArg Prod.fst shows'.lexeme
  | regExp => exact absurd rfl known

theorem Facing.kind_or (facing : state.Facing lexemes) :
    state.lookahead.kind = nextKind lexemes ∨ nextKind lexemes = .regExpLiteral ∧
      (state.lookahead.kind = .punctuator .slash ∨
        state.lookahead.kind = .punctuator .slashEqual) := by
  cases facing.ahead with
  | none isEnd => exact .inl isEnd
  | token shows' => exact .inl (congrArg Prod.fst shows'.lexeme)
  | regExp slash => exact .inr ⟨rfl, slash⟩

theorem Facing.mark {mark : Punctuator} {rest : List Lexeme}
    (facing : state.Facing (.mark mark :: rest)) : state.lookahead.kind = .punctuator mark :=
  facing.kind nofun

theorem Facing.sameLine {mark : Punctuator} {rest : List Lexeme}
    (facing : state.Facing (.mark mark :: rest)) : state.lookahead.newlineBefore = false := by
  cases facing.ahead with
  | token shows' => exact shows'.sameLine

theorem Facing.length_le (facing : state.Facing lexemes) :
    lexemes.length ≤ state.scanner.cursor.rest.length + 1 := by
  cases facing.ahead with
  | none => exact Nat.zero_le _
  | token _ _ room => exact Nat.succ_le_succ room
  | regExp _ _ _ room => exact Nat.succ_le_succ room

end ParserState

namespace Parse

open ParserState

variable {α β : Type} {state : ParserState} {post : β → ParserState → Prop}
  {lexemes rest : List Lexeme}

/-! ## Looking at the next token -/

theorem kind_then {next : TokenKind → Parse β}
    (achieves : Achieves (next state.lookahead.kind) state post) :
    Achieves (kind >>= next) state post :=
  .bind (.get (.pure achieves))

theorem start_then {next : Position → Parse β}
    (achieves : Achieves (next state.lookahead.span.start) state post) :
    Achieves (start >>= next) state post :=
  .bind (.get (.pure achieves))

theorem lookahead_then {next : Token → Parse β}
    (achieves : Achieves (next state.lookahead) state post) :
    Achieves (lookahead >>= next) state post :=
  .bind (.get (.pure achieves))

theorem spanFrom_then {place : Position} {next : Span → Parse β}
    (achieves : ∀ loc, Achieves (next loc) state post) :
    Achieves (spanFrom place >>= next) state post :=
  .bind (.get (.pure (achieves _)))

theorem ofExcept_then {result : Except Error α} {value : α} (run : result = .ok value)
    {next : α → Parse β} (achieves : Achieves (next value) state post) :
    Achieves (ofExcept result >>= next) state post := by
  subst run
  exact .bind (.pure achieves)

theorem at?_true {mark : Punctuator} {next : Bool → Parse β}
    (isMark : state.lookahead.kind = .punctuator mark)
    (achieves : Achieves (next true) state post) : Achieves (at? mark >>= next) state post := by
  refine .bind (kind_then (.pure ?_))
  rwa [isMark, beq_self_eq_true]

theorem at?_false {mark : Punctuator} {next : Bool → Parse β}
    (notMark : state.lookahead.kind ≠ .punctuator mark)
    (achieves : Achieves (next false) state post) : Achieves (at? mark >>= next) state post := by
  refine .bind (kind_then (.pure ?_))
  rwa [beq_eq_false_iff_ne.mpr notMark]

/-! ## Using tokens -/

theorem advance_achieves {lexeme : Lexeme} (facing : state.Facing (lexeme :: rest))
    (known : lexeme.1 ≠ .regExpLiteral) :
    Achieves advance state fun token after => token = state.lookahead ∧
      Shows token lexeme ∧ state.Reaches rest True after := by
  rcases facing with ⟨ahead, lenient, noCommas⟩
  cases ahead with
  | regExp => exact absurd rfl known
  | @token _ _ _ following _ later shows' _ _ run ahead =>
      have scanned : scan Scanner.next state = .ok following { state with scanner := later } := by
        simp only [scan, EStateM.run, run]
      refine .bind ⟨_, _, scanned, lookahead_then (.modify (.pure ⟨rfl, shows', ?_⟩))⟩
      exact ⟨⟨ahead, lenient, noCommas⟩, rfl, fun _ => rfl⟩

theorem advance_then {lexeme : Lexeme} {next : Token → Parse β}
    (facing : state.Facing (lexeme :: rest)) (known : lexeme.1 ≠ .regExpLiteral)
    (achieves : ∀ after, Shows state.lookahead lexeme → state.Reaches rest True after →
      Achieves (next state.lookahead) after post) : Achieves (advance >>= next) state post := by
  refine .bind ((advance_achieves facing known).mono ?_)
  rintro token after ⟨rfl, shows', reaches⟩
  exact achieves after shows' reaches

theorem expect_then {mark : Punctuator} {next : Token → Parse β}
    (facing : state.Facing (.mark mark :: rest))
    (achieves : ∀ after, state.Reaches rest True after →
      Achieves (next state.lookahead) after post) :
    Achieves (expect mark >>= next) state post := by
  refine .bind (at?_true facing.mark ?_)
  refine .iteTrue rfl ((advance_achieves facing nofun).mono ?_)
  rintro token after ⟨rfl, -, reaches⟩
  exact achieves after reaches

theorem eat?_true {mark : Punctuator} {next : Bool → Parse β}
    (facing : state.Facing (.mark mark :: rest))
    (achieves : ∀ after, state.Reaches rest True after → Achieves (next true) after post) :
    Achieves (eat? mark >>= next) state post := by
  refine .bind (at?_true facing.mark (.iteTrue rfl ?_))
  refine advance_then facing nofun fun after _ reaches => ?_
  exact .pure (achieves after reaches)

theorem eat?_false {mark : Punctuator} {next : Bool → Parse β}
    (notMark : state.lookahead.kind ≠ .punctuator mark)
    (achieves : Achieves (next false) state post) : Achieves (eat? mark >>= next) state post :=
  .bind (at?_false notMark (.iteFalse (by simp) (.pure achieves)))

theorem secondKind_then {lexeme : Lexeme} {next : TokenKind → Parse β}
    (facing : state.Facing (lexeme :: rest)) (known : lexeme.1 ≠ .regExpLiteral)
    (achieves : ∀ kind, kind = nextKind rest ∨ nextKind rest = .regExpLiteral ∧
        (kind = .punctuator .slash ∨ kind = .punctuator .slashEqual) →
      Achieves (next kind) state post) :
    Achieves (secondKind >>= next) state post := by
  rcases facing with ⟨ahead, lenient, noCommas⟩
  cases ahead with
  | regExp => exact absurd rfl known
  | @token _ _ _ following _ later shows' _ _ run ahead =>
      have behind : ParserState.Facing { state with lookahead := following, scanner := later } rest :=
        ⟨ahead, lenient, noCommas⟩
      refine .bind (.get ?_)
      simp only [EStateM.run, run]
      exact .pure (achieves following.kind behind.kind_or)

/-! ## Loops -/

/-- A loop has room for as many rounds as there are tokens ahead. -/
theorem loop_achieves {round : α → Parse (Round α β)} {count : Nat} {value last : α}
    {final : ParserState} (facing : state.Facing lexemes) (room : count ≤ lexemes.length)
    (rounds : Rounds round count value state last final)
    (done : Achieves (round last) final fun outcome after =>
      outcome.Holds (fun _ => False) (post · after)) :
    Achieves (loop round value) state post := by
  have bound := facing.length_le
  refine .get (rounds.repeatWithin ?_ done)
  omega

/-! ## Initializers of shorthand properties -/

theorem inherit_achieves {action : Parse α} {found : α → Prop} {calm : Prop}
    (inner : ∀ start : ParserState, start = { state with pendingInitializer := none } →
      Achieves action start fun result after => found result ∧ start.Reaches rest calm after) :
    Achieves (inherit action) state fun result after =>
      found result ∧ state.Reaches rest calm after := by
  refine .get (.modify (.bind ((inner _ rfl).mono ?_)))
  rintro result middle ⟨holds, reaches⟩
  refine .modify (.pure ⟨holds, ⟨reaches.facing.1, reaches.facing.2, reaches.facing.3⟩,
    reaches.start, fun isCalm => ?_⟩)
  have none := reaches.pending isCalm
  simp only at none
  simp only [none, Option.or_none]

theorem isolate_achieves {action : Parse α} {found : α → Prop}
    (inner : ∀ start : ParserState, start = { state with pendingInitializer := none } →
      Achieves action start fun result after => found result ∧ start.Reaches rest True after) :
    Achieves (isolate action) state fun result after =>
      found result ∧ state.Reaches rest True after := by
  refine .get (.modify (.bind ((inner _ rfl).mono ?_)))
  rintro result middle ⟨holds, reaches⟩
  have none : middle.pendingInitializer = none := reaches.pending trivial
  refine .get ?_
  rw [none]
  exact .modify (.pure ⟨holds, ⟨reaches.facing.1, reaches.facing.2, reaches.facing.3⟩,
    reaches.start, fun _ => rfl⟩)

end Parse

end ExprScript
