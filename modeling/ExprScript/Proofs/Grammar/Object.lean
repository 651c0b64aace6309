import ExprScript.Proofs.Grammar.Literal

/-! # Names, objects and regular expressions are grammatical -/

namespace ExprScript

open ParserState

namespace Parse

variable {rules : Rules} {before : ParserState}

/-! ## Words -/

theorem bindingName_ensures (sound : before.Sound) :
    Ensures bindingName before fun id after => before.Passes after ∧ id.Read ∧ id.ReadAsKey := by
  refine kind_bind (.ite (fun _ => .bind unexpected_ensures) fun isName => ?_)
  simp only [bne_iff_ne, ne_eq, Decidable.not_not] at isName
  refine .bind ((advance_ensures sound).mono fun token after result => .get ?_)
  rcases result with ⟨rfl, passes, -⟩
  refine .ite (fun _ => .bind (.throw _)) fun _ => .pure ⟨passes, ?_, ?_⟩
  · exact ⟨before.lookahead, sound.occurs, isName, rfl⟩
  · exact ⟨before.lookahead, sound.occurs, by simp [Token.isName, isName], rfl⟩

theorem propertyName_ensures (sound : before.Sound) :
    Ensures propertyName before fun id after => before.Passes after ∧ id.ReadAsKey := by
  refine lookahead_bind (.ite (fun _ => .bind unexpected_ensures) fun isName => ?_)
  refine .bind ((advance_ensures sound).mono fun token after result => .pure ?_)
  rcases result with ⟨rfl, passes, -⟩
  exact ⟨passes, before.lookahead, sound.occurs, by simpa using isName, rfl⟩

theorem stringLiteral_ensures (sound : before.Sound) :
    Ensures stringLiteral before fun _ after => before.Passes after := by
  refine kind_bind (.ite (fun _ => .bind unexpected_ensures) fun _ => ?_)
  refine .bind ((advance_ensures sound).mono fun token after result => .get ?_)
  exact .ite (fun _ => .bind (.throw _)) fun _ => .pure result.2.1

theorem numberLiteral_ensures (sound : before.Sound)
    (isNumber : before.lookahead.kind = .numericLiteral) :
    Ensures numberLiteral before fun literal after => before.Passes after ∧ literal.Read ∧
      Number.Plain literal.value := by
  refine .bind ((advance_ensures sound).mono fun token after result => .get ?_)
  rcases result with ⟨rfl, passes, -⟩
  refine .ite (fun _ => .bind (.throw _)) fun _ => .pure ⟨passes, ?_⟩
  rcases sound.occurs with ⟨earlier, later, placed, run⟩
  rcases Scanner.next_plain earlier _ _ run isNumber with ⟨number, payload, plain⟩
  rw [payload]
  exact ⟨⟨before.lookahead, sound.occurs, isNumber, payload⟩, plain⟩

/-! ## Objects -/

structure PropertyCover (pending : Option Position) (property : Property) : Prop where
  whole : pending = none → property.Shape ∧ property.Lexical ∧ property.Inside grammatical
  asPattern : property.AsPattern

theorem PropertyCover.later {first later : Option Position} {property : Property}
    (cover : PropertyCover first property) (within : later = none → first = none) :
    PropertyCover later property :=
  ⟨fun isNone => cover.whole (within isNone), cover.asPattern⟩

theorem propertyKey_ensures (hold : RulesHold rules) (sound : before.Sound) :
    Ensures (propertyKey rules) before fun key after => before.Passes after ∧
      key.Shape ∧ key.Lexical ∧ key.Inside grammatical := by
  refine kind_bind ?_
  split
  · refine .bind ((advance_ensures sound).mono fun _ opened ⟨_, opens, _⟩ => ?_)
    refine .bind ((hold.isolated opens.sound).mono fun key inside result => ?_)
    rcases result with ⟨passes, grammatical, operand, -⟩
    refine .bind ((expect_ensures .rightBracket passes.sound).mono fun _ after result => .pure ?_)
    rcases result with ⟨-, -, closes, -⟩
    exact ⟨opens.trans (passes.trans closes), operand, trivial, grammatical⟩
  · exact .bind ((stringLiteral_ensures sound).mono fun _ _ passes =>
      .pure ⟨passes, trivial, trivial, trivial⟩)
  · next isNumber =>
      exact .bind ((numberLiteral_ensures sound isNumber).mono fun _ _ ⟨passes, read, _⟩ =>
        .pure ⟨passes, trivial, read, trivial⟩)
  · exact .bind ((propertyName_ensures sound).mono fun _ _ ⟨passes, read⟩ =>
      .pure ⟨passes, trivial, read, trivial⟩)

theorem operand_ident {level : Nat} (within : level ≤ Precedence.primary) (id : Ident) :
    (Expr.ident id).Operand level :=
  ⟨rfl, .inl within⟩

/-- An initializer makes sure that something is pending, so that the property is
looked at only as a part of a pattern. -/
theorem shorthandProperty_ensures (hold : RulesHold rules) (start : Position)
    (sound : before.Sound) :
    Ensures (shorthandProperty rules start) before fun property after => before.Moves after ∧
      (after.pendingInitializer = none → before.pendingInitializer = none) ∧
      PropertyCover after.pendingInitializer property := by
  refine .bind ((bindingName_ensures sound).mono fun id named result => ?_)
  rcases result with ⟨passes, read, readAsKey⟩
  refine at?_bind (.ite (fun _ => ?_) fun _ => ?_)
  · refine .bind ((advance_ensures passes.sound).mono fun equal opened result => .get ?_)
    rcases result with ⟨-, steps, -⟩
    have moves := passes.trans steps
    -- Both ways lead to a state with a pending initializer.
    have goesOn : ∀ state : ParserState, named.Moves state → state.pendingInitializer ≠ none →
        Ensures (isolate (rules .assignment) >>= fun value => spanFrom start >>= fun loc =>
          pure (Property.field loc (.name id) (.assign loc .plain (.ident id) value) true)) state
          fun property after => before.Moves after ∧
            (after.pendingInitializer = none → before.pendingInitializer = none) ∧
            PropertyCover after.pendingInitializer property := by
      intro state leads isPending
      refine .bind ((hold.isolated leads.sound).mono fun value after result => ?_)
      rcases result with ⟨passes', grammatical, operand, -⟩
      refine spanFrom_bind fun loc => .pure ⟨passes.toMoves.trans (leads.trans passes'.toMoves), ?_⟩
      rw [passes'.pending]
      refine ⟨fun isNone => absurd isNone isPending, fun isNone => absurd isNone isPending, ?_⟩
      refine ⟨⟨trivial, readAsKey, trivial⟩, ?_, fun _ => ⟨id, rfl, .inr ⟨_, _, rfl⟩⟩⟩
      exact Expr.asPattern_assign rfl (Expr.asPattern_ident read) operand grammatical
    refine .ite (fun _ => .modify ?_) fun isPending => ?_
    · exact goesOn _ ⟨⟨steps.sound.read, steps.sound.begun⟩, steps.offset,
        steps.assignmentStart⟩ nofun
    · exact goesOn _ steps.toMoves (by simpa using isPending)
  · refine spanFrom_bind fun loc => .pure ⟨passes.toMoves, ?_, fun _ => ?_, ?_⟩
    · rw [passes.pending]
      exact fun isNone => isNone
    · refine ⟨⟨trivial, operand_ident (by decide) id, fun _ => ⟨id, rfl, rfl⟩⟩, readAsKey, trivial,
        ⟨trivial, read⟩, trivial⟩
    · exact ⟨⟨trivial, readAsKey, trivial⟩, Expr.asPattern_ident read,
        fun _ => ⟨id, rfl, .inl rfl⟩⟩

theorem isShorthand_bind {α : Type} {next : Bool → Parse α} {post : α → ParserState → Prop}
    (ensures : ∀ shorthand, Ensures (next shorthand) before post) :
    Ensures (isShorthand >>= next) before post := by
  refine .bind (kind_bind (.ite (fun _ => .pure (ensures _)) fun _ => ?_))
  exact secondKind_bind fun _ => .pure (ensures _)

theorem property_ensures (hold : RulesHold rules) (sound : before.Sound) :
    Ensures (property rules) before fun property after => before.Moves after ∧
      (after.pendingInitializer = none → before.pendingInitializer = none) ∧
      PropertyCover after.pendingInitializer property := by
  refine start_bind (at?_bind (.ite (fun _ => ?_) fun _ => ?_))
  · refine .bind ((advance_ensures sound).mono fun _ opened ⟨_, opens, _⟩ => ?_)
    refine .bind ((hold.inherited opens.sound).mono fun argument after result => ?_)
    rcases result with ⟨moves, pending, passed, cover, operand⟩
    refine spanFrom_bind fun loc => .pure ⟨opens.toMoves.trans moves, ?_⟩
    rw [passed, opens.pending]
    refine ⟨fun isNone => (Option.or_eq_none_iff.mp isNone).1, fun isNone => ?_, cover.asPattern⟩
    exact ⟨operand, trivial, cover.whole (Option.or_eq_none_iff.mp isNone).2⟩
  · refine isShorthand_bind fun shorthand => ?_
    refine .ite (fun _ => shorthandProperty_ensures hold _ sound) fun _ => ?_
    refine .bind ((propertyKey_ensures hold sound).mono fun key named result => ?_)
    rcases result with ⟨passes, shape, lexical, inside⟩
    refine .bind ((expect_ensures .colon passes.sound).mono fun _ opened ⟨_, _, opens, _⟩ => ?_)
    refine .bind ((hold.inherited opens.sound).mono fun value after result => ?_)
    rcases result with ⟨moves, pending, passed, cover, operand⟩
    refine spanFrom_bind fun loc => .pure
      ⟨passes.toMoves.trans (opens.toMoves.trans moves), ?_⟩
    rw [passed, opens.pending, passes.pending]
    refine ⟨fun isNone => (Option.or_eq_none_iff.mp isNone).1, fun isNone => ?_, ?_⟩
    · exact ⟨⟨shape, operand, nofun⟩, lexical, inside,
        cover.whole (Option.or_eq_none_iff.mp isNone).2⟩
    · exact ⟨⟨shape, lexical, inside⟩, cover.asPattern, nofun⟩

theorem objectLiteral_ensures (hold : RulesHold rules) (sound : before.Sound) :
    Ensures (objectLiteral rules) before fun expr after => before.Moves after ∧
      expr.Cover after.pendingInitializer ∧ expr.kind = .objectExpression := by
  refine start_bind (.bind ((expect_ensures .leftBrace sound).mono fun _ opened result => ?_))
  rcases result with ⟨-, -, opens, -⟩
  refine .bind (loop_ensures (fun (reversed : List Property) state => before.Moves state ∧
    ∀ property ∈ reversed, PropertyCover state.pendingInitializer property) ?_
    ⟨opens.toMoves, by simp⟩)
  rintro reversed state ⟨moves, parts⟩
  refine at?_bind (.ite (fun _ => .pure ?_) fun _ => ?_)
  · refine .bind ((expect_ensures .rightBrace moves.sound).mono fun _ after result => ?_)
    rcases result with ⟨-, -, closes, -⟩
    refine spanFrom_bind fun loc => .pure ⟨moves.trans closes.toMoves, ⟨fun isNone => ?_, ?_⟩, rfl⟩
    · rw [closes.pending] at isNone
      have whole : ∀ property ∈ reversed.reverse,
          property.Shape ∧ property.Lexical ∧ property.Inside grammatical :=
        fun property member => (parts property (List.mem_reverse.mp member)).whole isNone
      refine ⟨⟨?_, ?_⟩, (propertiesInside_iff _ _).mpr ?_⟩
      · exact fun property member => (whole property member).1
      · exact fun property member => (whole property member).2.1
      · exact fun property member => (whole property member).2.2
    · exact Expr.asPattern_object fun property member =>
        (parts property (List.mem_reverse.mp member)).asPattern
  · refine .bind ((property_ensures hold moves.sound).mono fun property middle result => ?_)
    rcases result with ⟨moves', earlier, cover⟩
    refine comma_ensures moves'.sound fun last steps => .pure ?_
    refine ⟨moves.trans (moves'.trans steps.toMoves), fun other member => ?_⟩
    rw [steps.pending]
    rcases List.mem_cons.mp member with rfl | member
    · exact cover
    · exact (parts other member).later earlier

/-! ## Regular expressions -/

theorem rescanRegExp_ensures (slash : Token) (scanner : Scanner) :
    Ensures (Scanner.rescanRegExp slash) scanner fun token after =>
      Scanner.Leads { scanner with cursor := scanner.cursorAt slash.span.start slash.lineStart }
        after ∧ token.span.start = slash.span.start ∧
          after.cursor.position.offset = token.span.stop.offset := by
  refine .get (.modify (.bind ?_))
  refine (Scanner.Forward.read (Scanner.readRegExp_forward slash.span.start) _).ensures.mono ?_
  intro _ after leads
  exact .get (.pure ⟨leads, rfl, rfl⟩)

theorem regExpLiteral_ensures (sound : before.Sound)
    (isSlash : before.lookahead.kind = .punctuator .slash ∨
      before.lookahead.kind = .punctuator .slashEqual) :
    Ensures regExpLiteral before fun expr after => before.Passes after ∧ expr.Grammatical ∧
      expr.kind = .regExpLiteral := by
  rcases sound.read with ⟨earlier, placed, run⟩
  have notEnd : before.lookahead.kind ≠ .endOfInput := by
    rcases isSlash with isSlash | isSlash <;> simp [isSlash]
  refine lookahead_bind (.bind ((scan_ensures _ before).mono fun token middle result => .modify ?_))
  rcases result with ⟨rescan, same⟩
  rcases rescanRegExp_ensures _ _ _ _ rescan with ⟨leads, start, -⟩
  let slashed : ParserState := { middle with lookahead := token }
  have placed' : slashed.scanner.Placed := (Scanner.placed_cursorAt placed run notEnd).of_leads leads
  have reached : before.offset ≤ middle.scanner.cursor.position.offset := leads.cursor.offset_le
  have first : middle.assignmentStart = before.assignmentStart := by rw [same]
  have pending : middle.pendingInitializer = before.pendingInitializer := by rw [same]
  have offset : slashed.offset = before.offset := congrArg Position.offset start
  have begun : slashed.assignmentStart ≤ slashed.offset := by
    rw [offset]
    exact first ▸ sound.begun
  have reached' : slashed.offset ≤ slashed.scanner.cursor.position.offset := by rwa [offset]
  refine .bind ((advance_placed placed' reached' begun).mono fun used after result => ?_)
  rcases result with ⟨rfl, passes, -⟩
  have moves : before.Passes after := by
    refine ⟨⟨passes.sound, ?_, passes.assignmentStart.trans first⟩, passes.pending.trans pending⟩
    exact offset ▸ passes.offset
  split
  · next pattern flags payload =>
      refine ofExcept_bind fun _ valid => .pure ⟨moves, ⟨⟨trivial, ?_⟩, trivial⟩, rfl⟩
      refine ⟨earlier, _, _, before.lookahead, used, placed, run, isSlash, rescan, payload, ?_⟩
      unfold checkRegExpFlags at valid
      split at valid
      · assumption
      · cases valid
  · exact .throw _

end Parse

end ExprScript
