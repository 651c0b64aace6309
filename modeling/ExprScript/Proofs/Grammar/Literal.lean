import ExprScript.Proofs.Grammar.Brace
import ExprScript.Proofs.Token.Numeral

/-! # Literals are grammatical

The rules of the grammar are assumed to build grammatical trees where they are
used recursively; the literals made of their results are grammatical, too. A
literal with a pending initializer is grammatical only as a pattern.
-/

namespace ExprScript

open ParserState

/-- The expression is grammatical unless an initializer is pending, and so is
every pattern it is rebuilt as. -/
structure Expr.Cover (pending : Option Position) (expr : Expr) : Prop where
  whole : pending = none → expr.Grammatical
  asPattern : expr.AsPattern

structure Expr.Stands (pending : Option Position) (level : Nat) (expr : Expr) : Prop where
  cover : expr.Cover pending
  operand : expr.Operand level

theorem Expr.Stands.mono {pending : Option Position} {low high : Nat} {expr : Expr}
    (stands : expr.Stands pending high) (within : low ≤ high) : expr.Stands pending low :=
  ⟨stands.cover, stands.operand.mono within⟩

/-- What holds of an element or a parameter that may still become a part of a
pattern. -/
structure Expr.ElementCover (pending : Option Position) (expr : Expr) : Prop where
  whole : pending = none → expr.Grammatical
  asElement : expr.AsElement
  item : expr.Item

theorem Expr.ElementCover.later {first later : Option Position} {expr : Expr}
    (cover : expr.ElementCover first) (within : later = none → first = none) :
    expr.ElementCover later :=
  ⟨fun isNone => cover.whole (within isNone), cover.asElement, cover.item⟩

def TokenKind.Closes (kind : TokenKind) : Prop :=
  kind ≠ .punctuator .starStar ∧ binaryPrecedence kind = 0 ∧ kind ≠ .punctuator .question

/-- How tightly an expression binds that was read where a level was demanded. An
arrow function binds loosely, but it ends only where no operator follows, and it
starts only where an assignment expression does. -/
def Expr.Ranks (level : Nat) (atStart : Prop) (next : Token) (expr : Expr) : Prop :=
  expr.isSpread = false ∧ (expr.Fits level ∨
    expr.kind = .arrowFunctionExpression ∧ atStart ∧ next.kind.Closes)

theorem Expr.Ranks.mono {low high : Nat} {atStart : Prop} {next : Token} {expr : Expr}
    (ranks : expr.Ranks high atStart next) (within : low ≤ high) :
    expr.Ranks low atStart next :=
  ⟨ranks.1, ranks.2.imp_left fun fits => fits.imp_left (Nat.le_trans within)⟩

namespace Parse

/-- What a rule of a level ensures: how tightly its result binds, and what the
next token is not. -/
def Level (level : Nat) (stops : TokenKind → Prop) (parse : Parse Expr) : Prop :=
  ∀ before : ParserState, before.Sound →
    Ensures parse before fun expr after => before.Moves after ∧
      expr.Cover after.pendingInitializer ∧
      expr.Ranks level (before.offset = before.assignmentStart) after.lookahead ∧
      stops after.lookahead.kind

/-- What the rules ensure that are used recursively. -/
structure RulesHold (rules : Rules) : Prop where
  assignment : ∀ before : ParserState, before.Sound →
    Ensures (rules .assignment) before fun expr after => before.Moves after ∧
      expr.Cover after.pendingInitializer ∧
      expr.Operand Precedence.assignment ∧ after.lookahead.kind.Closes
  exponent : Level Precedence.exponent (· ≠ .punctuator .starStar) (rules .exponent)
  unary : Level Precedence.unary (fun _ => True) (rules .unary)
  construction : ∀ before : ParserState, before.Sound →
    before.lookahead.kind = .keyword .newWord →
    Ensures (rules .construction) before fun expr after => before.Moves after ∧
      expr.Cover after.pendingInitializer ∧ expr.kind = .newExpression
  brace : OpensAtBrace (rules .assignment)

variable {rules : Rules} {before : ParserState}

namespace RulesHold

theorem isolated (hold : RulesHold rules) (sound : before.Sound) :
    Ensures (isolate (rules .assignment)) before fun expr after => before.Passes after ∧
      expr.Grammatical ∧ expr.Operand Precedence.assignment ∧ after.lookahead.kind.Closes := by
  refine isolate_ensures (fun (expr : Expr) next => expr.Grammatical ∧
    expr.Operand Precedence.assignment ∧ next.kind.Closes) sound fun start sound _ _ => ?_
  refine (hold.assignment start sound).mono ?_
  intro expr after ⟨moves, cover, operand, closes⟩
  exact ⟨moves, fun isNone => ⟨cover.whole isNone, operand, closes⟩⟩

theorem inherited (hold : RulesHold rules) (sound : before.Sound) :
    Ensures (inherit (rules .assignment)) before fun expr after => before.Moves after ∧
      ∃ pending, after.pendingInitializer = before.pendingInitializer.or pending ∧
        expr.Cover pending ∧ expr.Operand Precedence.assignment := by
  refine inherit_ensures (fun (expr : Expr) pending _ => expr.Cover pending ∧
    expr.Operand Precedence.assignment) sound fun start sound _ _ => ?_
  refine (hold.assignment start sound).mono ?_
  intro expr after ⟨moves, cover, operand, _⟩
  exact ⟨moves, cover, operand⟩

end RulesHold

/-- A level of the grammar, isolated and behind the start of the assignment
expression: no arrow function is read there. -/
theorem Level.isolated {level : Nat} {stops : TokenKind → Prop} {parse : Parse Expr}
    (holds : Level level stops parse) (sound : before.Sound)
    (behind : before.assignmentStart < before.offset) :
    Ensures (isolate parse) before fun expr after => before.Passes after ∧
      expr.Grammatical ∧ expr.AsPattern ∧ expr.Operand level ∧ stops after.lookahead.kind := by
  refine isolate_ensures (fun (expr : Expr) next => expr.Grammatical ∧ expr.AsPattern ∧
    expr.Operand level ∧ stops next.kind) sound fun start sound offset assignmentStart => ?_
  refine (holds start sound).mono ?_
  intro expr after ⟨moves, cover, ⟨notSpread, ranks⟩, stop⟩
  refine ⟨moves, fun isNone => ⟨cover.whole isNone, cover.asPattern, ⟨notSpread, ?_⟩, stop⟩⟩
  rcases ranks with fits | ⟨-, atStart, -⟩
  · exact fits
  · omega

theorem Level.inherited {level : Nat} {stops : TokenKind → Prop} {parse : Parse Expr}
    (holds : Level level stops parse) : Level level stops (inherit parse) := by
  intro before sound
  have inner := @inherit_ensures Expr before parse (fun expr pending next => expr.Cover pending ∧
    expr.Ranks level (before.offset = before.assignmentStart) next ∧ stops next.kind) sound
  refine (inner fun start sound offset assignmentStart => ?_).mono fun expr after result => ?_
  · rw [← offset, ← assignmentStart]
    exact holds start sound
  · rcases result with ⟨moves, pending, passed, cover, ranks, stop⟩
    refine ⟨moves, ⟨fun isNone => cover.whole ?_, cover.asPattern⟩, ranks, stop⟩
    rw [passed] at isNone
    exact (Option.or_eq_none_iff.mp isNone).2

theorem Level.mono {low high : Nat} {stops wider : TokenKind → Prop} {parse : Parse Expr}
    (holds : Level high stops parse) (within : low ≤ high)
    (weaker : ∀ kind, stops kind → wider kind) : Level low wider parse := by
  intro before sound
  refine (holds before sound).mono ?_
  intro expr after ⟨moves, cover, ranks, stop⟩
  exact ⟨moves, cover, ranks.mono within, weaker _ stop⟩

/-! ## Sequences and arguments -/

theorem expression_ensures (hold : RulesHold rules) (sound : before.Sound) :
    Ensures (expression rules) before fun expr after => before.Passes after ∧
      expr.Grammatical ∧ expr.Operand Precedence.sequence := by
  refine start_bind (.bind ((hold.isolated sound).mono fun first middle result => ?_))
  obtain ⟨passes, grammatical, operand, -⟩ := result
  refine at?_bind (.ite (fun _ => .pure ⟨passes, grammatical, operand.mono (by decide)⟩)
    fun isComma => ?_)
  simp only [Bool.not_eq_true', Bool.not_eq_false, beq_iff_eq] at isComma
  -- The comma that was seen makes sure that the loop adds an item.
  refine .bind (loop_ensures (fun (reversed : List Expr) state => before.Passes state ∧
    (2 ≤ reversed.length ∨ state.lookahead.kind = .punctuator .comma ∧ reversed.length = 1) ∧
    ∀ item ∈ reversed, item.Grammatical ∧ item.Operand Precedence.assignment) ?_ ?_)
  · rintro reversed state ⟨passes, enough, items⟩
    refine .bind ((eat?_ensures .comma passes.sound).mono fun eaten after result => ?_)
    obtain ⟨eats, isEaten, notEaten⟩ := result
    cases eaten with
    | true =>
        refine .bind ((hold.isolated eats.sound).mono fun item last result => .pure ?_)
        obtain ⟨passes', grammatical', operand', -⟩ := result
        refine ⟨passes.trans (eats.trans passes'), .inl ?_, ?_⟩
        · rw [List.length_cons]
          omega
        · exact List.forall_mem_cons.mpr ⟨⟨grammatical', operand'⟩, items⟩
    | false =>
        obtain ⟨rfl, notComma⟩ := notEaten rfl
        have long : 2 ≤ reversed.length := by
          obtain long | ⟨isComma, -⟩ := enough
          · exact long
          · exact absurd isComma notComma
        refine .pure (spanFrom_bind fun loc => .pure ⟨passes, ⟨⟨⟨?_, ?_⟩, trivial⟩, ?_⟩, rfl, ?_⟩)
        · rwa [List.length_reverse]
        · exact fun item member => (items item (List.mem_reverse.mp member)).2
        · exact (itemsInside_iff _ _).mpr
            fun item member => (items item (List.mem_reverse.mp member)).1
        · exact .inl (Nat.le_refl _)
  · exact ⟨passes, .inr ⟨isComma, rfl⟩, by simpa using ⟨grammatical, operand⟩⟩

theorem computedMember_ensures (hold : RulesHold rules) (sound : before.Sound) :
    Ensures (computedMember rules) before fun key after => before.Passes after ∧
      key.Inside grammatical ∧ key.Shape ∧ key.Lexical := by
  refine .bind ((expect_ensures .leftBracket sound).mono fun _ opened ⟨_, _, opens, _⟩ => ?_)
  refine .bind (.mono (isolate_ensures (fun (key : Expr) _ => key.Grammatical ∧
    key.Operand Precedence.sequence) opens.sound fun start sound _ _ => ?_) ?_)
  · exact (expression_ensures hold sound).mono fun key after ⟨passes, result⟩ =>
      ⟨passes.toMoves, fun _ => result⟩
  · intro key inside ⟨passes, grammatical, operand⟩
    refine .bind ((expect_ensures .rightBracket passes.sound).mono fun _ after result => ?_)
    obtain ⟨-, -, closes, -⟩ := result
    exact .pure ⟨opens.trans (passes.trans closes), grammatical, operand, trivial⟩

theorem spread_ensures (hold : RulesHold rules) (sound : before.Sound) :
    Ensures (spread rules isolate) before fun expr after => before.Passes after ∧
      expr.Grammatical ∧ expr.Item := by
  refine start_bind (.bind ((advance_ensures sound).mono fun _ opened ⟨_, opens, _⟩ => ?_))
  refine .bind ((hold.isolated opens.sound).mono fun argument after result => ?_)
  obtain ⟨passes, grammatical, operand, -⟩ := result
  refine spanFrom_bind fun loc => .pure ⟨opens.trans passes, ?_, .inl (Nat.le_refl _)⟩
  exact ⟨⟨operand, trivial⟩, grammatical⟩

theorem arguments_ensures (hold : RulesHold rules) (sound : before.Sound) :
    Ensures (arguments rules) before fun args after => before.Passes after ∧
      ∀ argument ∈ args, argument.Grammatical ∧ argument.Item := by
  refine .bind ((expect_ensures .leftParen sound).mono fun _ opened ⟨_, _, opens, _⟩ => ?_)
  refine .bind (loop_ensures (fun (reversed : List Expr) state => before.Passes state ∧
    ∀ argument ∈ reversed, argument.Grammatical ∧ argument.Item) ?_ ⟨opens, by simp⟩)
  rintro reversed state ⟨passes, args⟩
  refine at?_bind (.ite (fun _ => .pure ?_) fun _ => at?_bind (.ite (fun _ => ?_) fun _ => ?_))
  · refine .bind ((expect_ensures .rightParen passes.sound).mono fun _ after result => .pure ?_)
    obtain ⟨-, -, closes, -⟩ := result
    exact ⟨passes.trans closes, fun argument member => args argument (List.mem_reverse.mp member)⟩
  · refine .bind ((spread_ensures hold passes.sound).mono fun argument after result => ?_)
    obtain ⟨passes', grammatical, item⟩ := result
    refine comma_ensures passes'.sound fun last steps => .pure ?_
    exact ⟨passes.trans (passes'.trans steps),
      List.forall_mem_cons.mpr ⟨⟨grammatical, item⟩, args⟩⟩
  · refine .bind ((hold.isolated passes.sound).mono fun argument after result => ?_)
    obtain ⟨passes', grammatical, operand, -⟩ := result
    refine comma_ensures passes'.sound fun last steps => .pure ?_
    exact ⟨passes.trans (passes'.trans steps),
      List.forall_mem_cons.mpr ⟨⟨grammatical, operand.fits⟩, args⟩⟩

/-! ## Templates -/

theorem quasiOf_read {token : Token} (occurs : token.Occurs)
    (isTemplate : token.kind.isTemplate = true) : (quasiOf token).Read := by
  obtain ⟨before, after, placed, run⟩ := occurs
  refine ⟨token, ⟨before, after, placed, run⟩, isTemplate, ?_⟩
  rcases Scanner.next_lexed before _ _ run with isEnd | ⟨cursor, -, -, -, lexed⟩
  · rw [isEnd] at isTemplate
    cases isTemplate
  · unfold quasiOf
    generalize token.octal = octal at lexed
    generalize token.payload = payload at lexed
    generalize token.kind = kind at lexed isTemplate
    cases lexed with
    | string => cases isTemplate
    | template => rfl
    | number => cases isTemplate
    | name _ _ run' =>
        rcases Reader.readName_kind _ _ _ _ run' with rfl | ⟨word, rfl⟩ <;> cases isTemplate
    | punctuator => cases isTemplate

theorem template_ensures (hold : RulesHold rules) (sound : before.Sound)
    (isTemplate : before.lookahead.kind.isTemplate = true) :
    Ensures (template rules) before fun parts after => before.Passes after ∧
      TemplateShape parts.quasis parts.holes ∧ (∀ quasi ∈ parts.quasis, quasi.Read) ∧
      ∀ hole ∈ parts.holes, hole.Grammatical := by
  refine start_bind (.bind ((advance_ensures sound).mono fun head opened result => ?_))
  obtain ⟨rfl, opens, -⟩ := result
  -- The piece that was read last is marked exactly if it ends the template.
  refine .bind (loop_ensures (fun (pieces : Token × List Quasi × List Expr) state =>
    before.Passes state ∧
    pieces.2.1.map (·.tail) =
      pieces.1.endsTemplate :: List.replicate pieces.2.2.length false ∧
    (∀ quasi ∈ pieces.2.1, quasi.Read) ∧
    ∀ hole ∈ pieces.2.2, hole.Grammatical ∧ hole.Operand Precedence.sequence) ?_ ?_)
  · rintro ⟨token, quasis, holes⟩ state ⟨passes, tails, reads, items⟩
    refine .ite (fun ends => .pure ?_) fun goesOn => ?_
    · refine spanFrom_bind fun loc => .pure ⟨passes, ⟨?_, ?_⟩, ?_, ?_⟩
      · rw [ends] at tails
        simp [tails]
      · exact fun hole member => (items hole (List.mem_reverse.mp member)).2
      · exact fun quasi member => reads quasi (List.mem_reverse.mp member)
      · exact fun hole member => (items hole (List.mem_reverse.mp member)).1
    · refine .bind ((expression_ensures hold passes.sound).mono fun hole middle result => ?_)
      obtain ⟨passes', grammatical, operand⟩ := result
      refine kind_bind (.ite (fun _ => .bind unexpected_ensures) fun resumes => ?_)
      refine .bind ((advance_ensures passes'.sound).mono fun next after result => .pure ?_)
      obtain ⟨rfl, steps, -⟩ := result
      have isTemplate' : middle.lookahead.kind.isTemplate = true := by
        generalize middle.lookahead.kind = kind at resumes
        cases kind with
        | templateMiddle => rfl
        | templateTail => rfl
        | _ => exact absurd rfl resumes
      refine ⟨passes.trans (passes'.trans steps), ?_, ?_, ?_⟩
      · simp [tails, quasiOf, List.replicate_succ, Bool.eq_false_iff.mpr goesOn]
      · exact List.forall_mem_cons.mpr ⟨quasiOf_read passes'.sound.occurs isTemplate', reads⟩
      · exact List.forall_mem_cons.mpr ⟨⟨grammatical, operand⟩, items⟩
  · refine ⟨opens, rfl, ?_, by simp⟩
    exact List.forall_mem_singleton.mpr (quasiOf_read sound.occurs isTemplate)

/-! ## Arrays -/

theorem asElement_of_asPattern {expr : Expr} (notSpread : expr.isSpread = false)
    (asPattern : expr.AsPattern) : expr.AsElement := by
  cases expr with
  | spread => cases notSpread
  | _ => exact asPattern

theorem spread_inherit_ensures (hold : RulesHold rules) (sound : before.Sound) :
    Ensures (spread rules inherit) before fun expr after => before.Moves after ∧
      ∃ pending, after.pendingInitializer = before.pendingInitializer.or pending ∧
        expr.ElementCover pending := by
  refine start_bind (.bind ((advance_ensures sound).mono fun _ opened ⟨_, opens, _⟩ => ?_))
  refine .bind ((hold.inherited opens.sound).mono fun argument after result => ?_)
  obtain ⟨moves, pending, passed, cover, operand⟩ := result
  refine spanFrom_bind fun loc => .pure ⟨opens.toMoves.trans moves, pending, ?_, ?_⟩
  · rw [passed, opens.pending]
  · exact ⟨fun isNone => ⟨⟨operand, trivial⟩, cover.whole isNone⟩, cover.asPattern,
      .inl (Nat.le_refl _)⟩

theorem element_ensures (hold : RulesHold rules) (sound : before.Sound) :
    Ensures (inherit (rules .assignment)) before fun expr after => before.Moves after ∧
      ∃ pending, after.pendingInitializer = before.pendingInitializer.or pending ∧
        expr.ElementCover pending := by
  refine (hold.inherited sound).mono fun expr after result => ?_
  obtain ⟨moves, pending, passed, cover, operand⟩ := result
  exact ⟨moves, pending, passed, cover.whole,
    asElement_of_asPattern operand.notSpread cover.asPattern, operand.fits⟩

theorem noteTrailingComma_ensures (sound : before.Sound) (element : Expr) (comma : Token) :
    Ensures (noteTrailingComma element comma) before fun _ after => before.Passes after := by
  unfold noteTrailingComma
  split
  · refine at?_bind (.ite (fun _ => ?_) fun _ => .pure (.refl sound))
    intro result after run
    cases run
    exact ⟨⟨⟨sound.read, sound.begun⟩, Nat.le_refl _, rfl⟩, rfl⟩
  · exact .pure (.refl sound)

theorem elementComma_ensures {α : Type} {next : Parse α} {post : α → ParserState → Prop}
    {element : Expr} (sound : before.Sound)
    (ensures : ∀ after, before.Passes after → Ensures next after post) :
    Ensures (at? .rightBracket >>= fun closes => if !closes then expect .comma >>= fun comma =>
      noteTrailingComma element comma >>= fun _ => next else next) before post := by
  refine at?_bind (.ite (fun _ => ?_) fun _ => ensures before (.refl sound))
  refine .bind ((expect_ensures .comma sound).mono fun comma middle result => ?_)
  obtain ⟨-, -, passes, -⟩ := result
  refine .bind ((noteTrailingComma_ensures passes.sound element comma).mono fun _ after notes => ?_)
  exact ensures after (passes.trans notes)

theorem arrayLiteral_ensures (hold : RulesHold rules) (sound : before.Sound) :
    Ensures (arrayLiteral rules) before fun expr after => before.Moves after ∧
      expr.Cover after.pendingInitializer ∧ expr.kind = .arrayExpression := by
  refine start_bind (.bind ((expect_ensures .leftBracket sound).mono fun _ opened result => ?_))
  obtain ⟨-, -, opens, -⟩ := result
  refine .bind (loop_ensures (fun (reversed : List (Option Expr)) state => before.Moves state ∧
    ∀ item, some item ∈ reversed → item.ElementCover state.pendingInitializer) ?_
    ⟨opens.toMoves, by simp⟩)
  rintro reversed state ⟨moves, items⟩
  refine at?_bind (.ite (fun _ => .pure ?_) fun _ => ?_)
  · refine .bind ((expect_ensures .rightBracket moves.sound).mono fun _ after result => ?_)
    obtain ⟨-, -, closes, -⟩ := result
    refine spanFrom_bind fun loc => .pure ⟨moves.trans closes.toMoves, ⟨fun isNone => ?_, ?_⟩, rfl⟩
    · rw [closes.pending] at isNone
      refine ⟨⟨fun item member => ?_, trivial⟩, (elementsInside_iff _ _).mpr fun item member => ?_⟩
      · exact (items item (List.mem_reverse.mp member)).item
      · exact (items item (List.mem_reverse.mp member)).whole isNone
    · exact Expr.asPattern_array fun item member =>
        (items item (List.mem_reverse.mp member)).asElement
  · refine .bind ((eat?_ensures .comma moves.sound).mono fun eaten middle result => ?_)
    obtain ⟨eats, -, notEaten⟩ := result
    cases eaten with
    | true =>
        refine .pure ⟨moves.trans eats.toMoves, fun item member => ?_⟩
        obtain wrong | member := List.mem_cons.mp member
        · cases wrong
        · exact eats.pending ▸ items item member
    | false =>
        obtain ⟨rfl, -⟩ := notEaten rfl
        have goesOn : ∀ element after, middle.Moves after ∧ (∃ pending,
            after.pendingInitializer = middle.pendingInitializer.or pending ∧
              element.ElementCover pending) → ∀ last, after.Passes last →
            before.Moves last ∧ ∀ item, some item ∈ some element :: reversed →
              item.ElementCover last.pendingInitializer := by
          intro element after ⟨moves', pending, passed, cover⟩ last passes
          refine ⟨moves.trans (moves'.trans passes.toMoves), fun item member => ?_⟩
          rw [passes.pending, passed]
          obtain equal | member := List.mem_cons.mp member
          · cases equal
            exact cover.later fun isNone => (Option.or_eq_none_iff.mp isNone).2
          · exact (items item member).later fun isNone => (Option.or_eq_none_iff.mp isNone).1
        refine at?_bind (.ite (fun _ => ?_) fun _ => ?_)
        · refine .bind ((spread_inherit_ensures hold moves.sound).mono fun element after result => ?_)
          exact elementComma_ensures result.1.sound fun last passes =>
            .pure (goesOn element after result last passes)
        · refine .bind ((element_ensures hold moves.sound).mono fun element after result => ?_)
          exact elementComma_ensures result.1.sound fun last passes =>
            .pure (goesOn element after result last passes)

end Parse

end ExprScript
