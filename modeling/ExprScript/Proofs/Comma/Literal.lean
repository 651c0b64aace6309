import ExprScript.Proofs.Comma.State
import ExprScript.Proofs.Grammar.Object

/-! # Commas in literals

The rules of the grammar are assumed to note the commas behind the spreads of arrays where
they are used recursively. An array notes its own; the spread at the end of an object is
followed by the closing brace or by a comma.
-/

namespace ExprScript

namespace Parse

open ParserState

def RulesRecord (source : List Char) (rules : Rules) : Prop :=
  ∀ rule, Records source (rules rule)

variable {source : List Char} {rules : Rules} (records : RulesRecord source rules)
  {before : ParserState}

include records

/-! ## Sequences and arguments -/

theorem expression_records : Records source (expression rules) := by
  intro before adjoins
  refine start_bind (.bind ((isolate_records (records .assignment) before adjoins).mono ?_))
  intro first opened ⟨notes, noted⟩
  refine at?_bind (.ite (fun _ => .pure ⟨notes, noted⟩) fun _ => ?_)
  refine .bind (loop_ensures (Collects source before) ?_
    ((Collects.nil notes).cons (.refl notes.adjoins) noted.everywhere))
  intro reversed state collects
  refine .bind ((eat?_consumes .comma collects.adjoins).mono ?_)
  intro eaten middle ⟨isEaten, notEaten⟩
  cases eaten with
  | true =>
      have consumes := isEaten rfl
      refine .bind ((isolate_records (records .assignment) middle consumes.adjoins).mono ?_)
      intro item after ⟨notes, noted⟩
      exact .pure (collects.cons (consumes.toNotes.trans notes) noted.everywhere)
  | false =>
      rw [notEaten rfl]
      exact .pure (spanFrom_ensures (.pure ⟨collects.toNotes, rfl, trivial, collects.inside⟩))

theorem computedMember_notes (adjoins : before.Adjoins source) :
    Ensures (computedMember rules) before fun key after =>
      Notes source before after ∧ key.Inside (noted source after.trailingCommas) := by
  refine .bind ((expect_consumes .leftBracket adjoins).mono ?_)
  intro _ opened ⟨_, opens⟩
  refine .bind ((isolate_records (expression_records records) opened opens.adjoins).mono ?_)
  intro key inside ⟨notes, noted⟩
  refine .bind ((expect_consumes .rightBracket notes.adjoins).mono ?_)
  intro _ after ⟨_, closes⟩
  exact .pure ⟨opens.trans (notes.trans closes.toNotes), (noted.mono closes.commas).everywhere⟩

theorem spread_takes {wrap : Parse Expr → Parse Expr}
    (wraps : ∀ parse, Records source parse → Records source (wrap parse))
    (adjoins : before.Adjoins source) :
    Ensures (spread rules wrap) before (Takes source before) := by
  refine start_bind (.bind ((advance_consumes adjoins).mono ?_))
  intro _ opened ⟨_, opens⟩
  refine .bind ((wraps _ (records .assignment) opened opens.adjoins).mono ?_)
  intro argument after ⟨notes, noted⟩
  refine spanFrom_ensures (.pure ⟨opens.trans notes, ⟨trivial, noted.everywhere⟩, ?_⟩)
  intro rest argument' equal
  cases equal
  rfl

/-- An argument or an element of an array. -/
theorem item_takes {wrap : Parse Expr → Parse Expr}
    (wraps : ∀ parse, Records source parse → Records source (wrap parse))
    (adjoins : before.Adjoins source) :
    Ensures (if before.lookahead.kind == .punctuator .dotDotDot then spread rules wrap
      else wrap (rules .assignment)) before (Takes source before) := by
  refine .ite (fun _ => ?_) fun _ => ?_
  · exact spread_takes records wraps adjoins
  · exact (wraps _ (records .assignment)).takes adjoins

theorem arguments_notes (adjoins : before.Adjoins source) :
    Ensures (arguments rules) before fun args after =>
      Notes source before after ∧ itemsInside (noted source after.trailingCommas) args := by
  refine .bind ((expect_consumes .leftParen adjoins).mono ?_)
  intro _ opened ⟨_, opens⟩
  refine .bind (loop_ensures (Collects source before) ?_ (.nil opens.toNotes))
  intro reversed state collects
  refine at?_bind (.ite (fun _ => .pure ?_) fun _ => at?_bind ?_)
  · refine .bind ((expect_consumes .rightParen collects.adjoins).mono ?_)
    intro _ after ⟨_, closes⟩
    have collects' := collects.goesOn closes.toNotes
    exact .pure ⟨collects'.toNotes, collects'.inside⟩
  · refine .iteBind ((item_takes records (fun _ => isolate_records) collects.adjoins).mono ?_)
    intro argument middle takes
    refine comma_notes takes.adjoins ?_
    intro after notes _
    exact .pure (collects.cons (takes.trans notes) (Expr.noted_mono notes.commas takes.everywhere))

/-! ## Templates -/

theorem template_notes (adjoins : before.Adjoins source) :
    Ensures (template rules) before fun parts after =>
      Notes source before after ∧ itemsInside (noted source after.trailingCommas) parts.holes := by
  refine start_bind (.bind ((advance_consumes adjoins).mono ?_))
  intro head opened ⟨_, opens⟩
  refine .bind (loop_ensures (fun (pieces : Token × List Quasi × List Expr) state =>
    Collects source before pieces.2.2 state) ?_ (.nil opens.toNotes))
  intro ⟨token, quasis, holes⟩ state collects
  refine .ite (fun _ => .pure ?_) fun _ => ?_
  · exact spanFrom_ensures (.pure ⟨collects.toNotes, collects.inside⟩)
  · refine .bind ((expression_records records state collects.adjoins).mono ?_)
    intro hole middle ⟨notes, noted⟩
    refine kind_bind (.ite (fun _ => .bind unexpected_ensures) fun _ => ?_)
    refine .bind ((advance_consumes notes.adjoins).mono ?_)
    intro next after ⟨_, consumes⟩
    exact .pure (collects.cons (notes.trans consumes.toNotes)
      (noted.mono consumes.commas).everywhere)

/-! ## Arrays -/

/-- Where the array is closed behind a spread, nothing follows the spread, or its comma has
been noted. -/
def Guards (element : Expr) (state : ParserState) : Prop :=
  ∀ rest argument, element = .spread rest argument →
    state.lookahead.kind = .punctuator .rightBracket →
      state.previousEnd = rest.stop ∨ ∃ comma, (rest.start, comma) ∈ state.trailingCommas

omit records in
theorem noteTrailingComma_guards (element : Expr) (comma : Token)
    (adjoins : before.Adjoins source) : Ensures (noteTrailingComma element comma) before fun _ after =>
      Notes source before after ∧ Guards element after := by
  unfold noteTrailingComma
  split
  · next loc argument =>
      refine at?_bind (.ite (fun _ => ?_) fun notClosed => .pure ⟨.refl adjoins, ?_⟩)
      · intro _ after run
        cases run
        refine ⟨⟨⟨adjoins.read, adjoins.next⟩, List.subset_cons_self ..⟩, ?_⟩
        intro rest argument equal _
        cases equal
        exact .inr ⟨_, List.mem_cons_self ..⟩
      · intro rest argument _ closed
        exact absurd (beq_iff_eq.mpr closed) notClosed
  · next notSpread =>
      refine .pure ⟨.refl adjoins, ?_⟩
      rintro rest argument rfl _
      exact absurd rfl (notSpread rest argument)

omit records in
/-- A comma follows an element, unless the array is closed. -/
theorem elementComma_guards {α : Type} {next : Parse α} {post : α → ParserState → Prop}
    {element : Expr} {origin : ParserState} (takes : Takes source origin element before)
    (ensures : ∀ after, Takes source origin element before → Notes source before after →
      Guards element after → Ensures next after post) :
    Ensures (at? .rightBracket >>= fun closes =>
      if !closes then expect .comma >>= fun comma =>
        noteTrailingComma element comma >>= fun _ => next else next) before post := by
  refine at?_bind (.ite (fun _ => ?_) fun _ => ?_)
  · refine .bind ((expect_consumes .comma takes.adjoins).mono ?_)
    intro comma middle ⟨_, consumes⟩
    refine .bind ((noteTrailingComma_guards element comma consumes.adjoins).mono ?_)
    intro _ after ⟨notes, guards⟩
    exact ensures after takes (consumes.toNotes.trans notes) guards
  · refine ensures before takes (.refl takes.adjoins) ?_
    exact fun rest argument equal _ => .inl (takes.spread rest argument equal)

theorem arrayLiteral_records : Records source (arrayLiteral rules) := by
  intro before adjoins
  refine start_bind (.bind ((expect_consumes .leftBracket adjoins).mono ?_))
  intro _ opened ⟨_, opens⟩
  refine .bind (loop_ensures (fun (reversed : List (Option Expr)) state =>
    Collects source before reversed.reduceOption state ∧
      ∀ element, reversed.head? = some (some element) → Guards element state) ?_
    ⟨.nil opens.toNotes, nofun⟩)
  intro reversed state ⟨collects, guards⟩
  refine at?_bind (.ite (fun isClosed => .pure ?_) fun _ => ?_)
  · refine .bind ((expect_consumes .rightBracket collects.adjoins).mono ?_)
    intro _ after ⟨isBracket, closes⟩
    have collects' := collects.goesOn closes.toNotes
    refine spanFrom_ensures (.pure ⟨collects'.toNotes, rfl, ?_, ?_⟩)
    · intro rest argument last
      rw [List.getLast?_reverse] at last
      rcases guards _ last rest argument rfl isBracket with ended | ⟨comma, member⟩
      · have follows := closes.followedBy collects.adjoins isBracket ⟨rfl⟩
        rw [ended] at follows
        exact .inl follows
      · exact .inr ⟨comma, closes.commas member⟩
    · refine (elementsInside_iff _ _).mpr fun item member => collects'.items item ?_
      exact List.reduceOption_mem_iff.mpr (List.mem_reverse.mp member)
  · refine .bind ((eat?_consumes .comma collects.adjoins).mono ?_)
    intro eaten middle ⟨isEaten, notEaten⟩
    cases eaten with
    | true => exact .pure ⟨collects.goesOn (isEaten rfl).toNotes, nofun⟩
    | false =>
        rw [notEaten rfl]
        refine at?_bind (.iteBind ?_)
        refine (item_takes records (fun _ => inherit_records) collects.adjoins).mono ?_
        intro element middle takes
        refine elementComma_guards takes ?_
        intro after takes notes guards
        refine .pure ⟨?_, ?_⟩
        · rw [List.reduceOption_cons_of_some]
          exact collects.cons (takes.trans notes) (Expr.noted_mono notes.commas takes.everywhere)
        · intro element' equal
          cases equal
          exact guards

/-! ## Objects -/

theorem propertyKey_notes (adjoins : before.Adjoins source) :
    Ensures (propertyKey rules) before fun key after =>
      Notes source before after ∧ key.Inside (noted source after.trailingCommas) := by
  refine kind_bind ?_
  split
  · refine .bind ((advance_consumes adjoins).mono ?_)
    intro _ opened ⟨_, opens⟩
    refine .bind ((isolate_records (records .assignment) opened opens.adjoins).mono ?_)
    intro key inside ⟨notes, noted⟩
    refine .bind ((expect_consumes .rightBracket notes.adjoins).mono ?_)
    intro _ after ⟨_, closes⟩
    exact .pure ⟨opens.trans (notes.trans closes.toNotes), (noted.mono closes.commas).everywhere⟩
  · exact .bind ((stringLiteral_notes adjoins).mono fun _ _ notes => .pure ⟨notes, trivial⟩)
  · exact .bind ((numberLiteral_notes adjoins).mono fun _ _ notes => .pure ⟨notes, trivial⟩)
  · exact .bind ((propertyName_notes adjoins).mono fun _ _ notes => .pure ⟨notes, trivial⟩)

structure TakesProperty (source : List Char) (before : ParserState) (property : Property)
    (after : ParserState) : Prop extends Notes source before after where
  inside : property.Inside (noted source after.trailingCommas)
  spread : ∀ rest argument, property = .spread rest argument → after.previousEnd = rest.stop

theorem shorthandProperty_takes (start : Position) (adjoins : before.Adjoins source) :
    Ensures (shorthandProperty rules start) before (TakesProperty source before) := by
  refine .bind ((bindingName_notes adjoins).mono ?_)
  intro id named names
  refine at?_bind (.ite (fun _ => ?_) fun _ => ?_)
  · refine .bind ((advance_consumes names.adjoins).mono ?_)
    intro equal opened ⟨_, opens⟩
    have leads := names.trans opens.toNotes
    -- Whether or not there was one before, an initializer is pending now.
    have goesOn : ∀ state : ParserState, Notes source before state →
        Ensures (isolate (rules .assignment) >>= fun value => spanFrom start >>= fun loc =>
          pure (Property.field loc (.name id) (.assign loc .plain (.ident id) value) true)) state
          (TakesProperty source before) := by
      intro state leads
      refine .bind ((isolate_records (records .assignment) state leads.adjoins).mono ?_)
      intro value after ⟨notes, noted⟩
      refine spanFrom_ensures (.pure ⟨leads.trans notes, ?_, nofun⟩)
      exact ⟨trivial, trivial, ⟨trivial, trivial⟩, noted.everywhere⟩
    refine .get (.ite (fun _ => .modify ?_) fun _ => goesOn _ leads)
    exact goesOn _ ⟨leads.adjoins.withPending _, leads.commas⟩
  · exact spanFrom_ensures (.pure ⟨names, ⟨trivial, trivial, trivial⟩, nofun⟩)

theorem property_takes (adjoins : before.Adjoins source) :
    Ensures (property rules) before (TakesProperty source before) := by
  refine start_bind (at?_bind (.ite (fun _ => ?_) fun _ => isShorthand_bind fun shorthand => ?_))
  · refine .bind ((advance_consumes adjoins).mono ?_)
    intro _ opened ⟨_, opens⟩
    refine .bind ((inherit_records (records .assignment) opened opens.adjoins).mono ?_)
    intro argument after ⟨notes, noted⟩
    refine spanFrom_ensures (.pure ⟨opens.trans notes, noted.everywhere, ?_⟩)
    intro rest argument' equal
    cases equal
    rfl
  · refine .ite (fun _ => shorthandProperty_takes records _ adjoins) fun _ => ?_
    refine .bind ((propertyKey_notes records adjoins).mono ?_)
    intro key named ⟨names, inside⟩
    refine .bind ((expect_consumes .colon names.adjoins).mono ?_)
    intro _ opened ⟨_, opens⟩
    refine .bind ((inherit_records (records .assignment) opened opens.adjoins).mono ?_)
    intro value after ⟨notes, noted⟩
    have later := opens.trans notes
    refine spanFrom_ensures (.pure ⟨names.trans later, ⟨?_, noted.everywhere⟩, nofun⟩)
    exact key.inside_join (noted_joins later.commas) inside inside

theorem objectLiteral_records : Records source (objectLiteral rules) := by
  intro before adjoins
  refine start_bind (.bind ((expect_consumes .leftBrace adjoins).mono ?_))
  intro _ opened ⟨_, opens⟩
  refine .bind (loop_ensures (fun (reversed : List Property) state =>
    Notes source before state ∧
      (∀ property ∈ reversed, property.Inside (noted source state.trailingCommas)) ∧
      ∀ rest argument, reversed.head? = some (.spread rest argument) →
        state.previousEnd.offset = rest.stop.offset ∨
          FollowedBy source rest.stop.offset ',' state.previousEnd.offset) ?_
    ⟨opens.toNotes, nofun, nofun⟩)
  intro reversed state ⟨notes, parts, last⟩
  have later : ∀ after, Notes source state after → ∀ property ∈ reversed,
      property.Inside (noted source after.trailingCommas) :=
    fun after notes property member => Property.noted_mono notes.commas (parts property member)
  refine at?_bind (.ite (fun _ => .pure ?_) fun _ => ?_)
  · refine .bind ((expect_consumes .rightBrace notes.adjoins).mono ?_)
    intro _ after ⟨isBrace, closes⟩
    refine spanFrom_ensures (.pure ⟨notes.trans closes.toNotes, rfl, ?_, ?_⟩)
    · intro rest argument isLast
      rw [List.getLast?_reverse] at isLast
      have follows := closes.followedBy notes.adjoins isBrace ⟨rfl⟩
      rcases last rest argument isLast with ended | comma
      · rw [ended] at follows
        exact .inl follows
      · exact .inr ⟨_, comma, follows⟩
    · refine (propertiesInside_iff _ _).mpr fun property member => ?_
      exact later after closes.toNotes property (List.mem_reverse.mp member)
  · refine .bind ((property_takes records notes.adjoins).mono ?_)
    intro property middle takes
    refine comma_notes takes.adjoins ?_
    intro after notes' behind
    refine .pure ⟨notes.trans (takes.trans notes'), ?_, ?_⟩
    · refine List.forall_mem_cons.mpr ⟨?_, later after (takes.trans notes')⟩
      exact Property.noted_mono notes'.commas takes.inside
    · intro rest argument isLast
      cases isLast
      rw [← takes.spread rest argument rfl]
      exact behind.imp_left (congrArg Position.offset)

/-! ## Regular expressions -/

omit records in
theorem regExpLiteral_records (adjoins : before.Adjoins source)
    (notEnd : before.lookahead.kind ≠ .endOfInput) :
    Ensures regExpLiteral before (Gives source before) := by
  rcases adjoins.read with ⟨earlier, placed, same, run⟩
  refine lookahead_bind (.bind ((scan_ensures _ before).mono ?_))
  intro token middle ⟨rescan, changed⟩
  rcases rescanRegExp_ensures _ _ _ _ rescan with ⟨leads, -, stop⟩
  rw [changed]
  let slashed : ParserState := { before with scanner := middle.scanner, lookahead := token }
  have placed' : slashed.scanner.Placed :=
    (Scanner.placed_cursorAt placed run notEnd).of_leads leads
  have same' : slashed.scanner.source = source := leads.source.trans adjoins.scanner.1
  have reached : slashed.scanner.cursor.position.offset = slashed.lookahead.span.stop.offset := stop
  refine .modify (.bind ((advance_adjoins same' placed' reached).mono ?_))
  intro used after ⟨_, consumes⟩
  split
  · exact ofExcept_bind fun _ _ =>
      .pure ⟨⟨consumes.adjoins, consumes.commas⟩, rfl, trivial, trivial⟩
  · exact .throw _

end Parse

end ExprScript
