import ExprScript.Grammar.Basic
import ExprScript.Proofs.Token.Scanning

/-! # The state of the parser

The next token was read by the scanner at a place of the text, and parsing moves
forward in the text. The offset of the innermost assignment expression is never
ahead of the next token.
-/

namespace ExprScript

namespace ParserState

/-- The offset of the next token. -/
def offset (state : ParserState) : Nat := state.lookahead.span.start.offset

/-- What holds of every state of the parser between two tokens. -/
structure Sound (state : ParserState) : Prop where
  read : ∃ before : Scanner, before.Placed ∧
    Scanner.next before = .ok state.lookahead state.scanner
  begun : state.assignmentStart ≤ state.offset

theorem Sound.occurs {state : ParserState} (sound : state.Sound) : state.lookahead.Occurs := by
  obtain ⟨before, placed, run⟩ := sound.read
  exact ⟨before, state.scanner, placed, run⟩

theorem Sound.placed {state : ParserState} (sound : state.Sound) : state.scanner.Placed := by
  obtain ⟨before, placed, run⟩ := sound.read
  exact placed.of_leads (Scanner.next_ensures before _ _ run).1

/-- Parsing has gone on from one state to another. -/
structure Moves (before after : ParserState) : Prop where
  sound : after.Sound
  offset : before.offset ≤ after.offset
  assignmentStart : after.assignmentStart = before.assignmentStart

theorem Moves.refl {state : ParserState} (sound : state.Sound) : Moves state state :=
  ⟨sound, Nat.le_refl _, rfl⟩

theorem Moves.trans {first second third : ParserState} (left : Moves first second)
    (right : Moves second third) : Moves first third :=
  ⟨right.sound, Nat.le_trans left.offset right.offset,
    right.assignmentStart.trans left.assignmentStart⟩

/-- Parsing has gone on and found no initializer of a shorthand property. -/
structure Passes (before after : ParserState) : Prop extends Moves before after where
  pending : after.pendingInitializer = before.pendingInitializer

theorem Passes.refl {state : ParserState} (sound : state.Sound) : Passes state state :=
  ⟨.refl sound, rfl⟩

theorem Passes.trans {first second third : ParserState} (left : Passes first second)
    (right : Passes second third) : Passes first third :=
  ⟨left.toMoves.trans right.toMoves, right.pending.trans left.pending⟩

end ParserState

namespace Parse

open ParserState

variable {α β : Type} {before : ParserState} {post : β → ParserState → Prop}

/-! ## Primitive steps -/

theorem fail_ensures {post : α → ParserState → Prop} (cause : Cause) (position : Position) :
    Ensures (fail cause position : Parse α) before post :=
  .throw _

theorem unexpected_ensures {post : α → ParserState → Prop} :
    Ensures (unexpected : Parse α) before post :=
  .bindAny fun _ _ => .throw _

theorem kind_bind {next : TokenKind → Parse β}
    (ensures : Ensures (next before.lookahead.kind) before post) :
    Ensures (kind >>= next) before post :=
  .bind (.get (.pure ensures))

theorem start_bind {next : Position → Parse β}
    (ensures : Ensures (next before.lookahead.span.start) before post) :
    Ensures (start >>= next) before post :=
  .bind (.get (.pure ensures))

theorem lookahead_bind {next : Token → Parse β}
    (ensures : Ensures (next before.lookahead) before post) :
    Ensures (lookahead >>= next) before post :=
  .bind (.get (.pure ensures))

theorem at?_bind {mark : Punctuator} {next : Bool → Parse β}
    (ensures : Ensures (next (before.lookahead.kind == .punctuator mark)) before post) :
    Ensures (at? mark >>= next) before post :=
  .bind (kind_bind (.pure ensures))

theorem spanFrom_bind {place : Position} {next : Span → Parse β}
    (ensures : ∀ loc, Ensures (next loc) before post) :
    Ensures (spanFrom place >>= next) before post :=
  .bind (.get (.pure (ensures _)))

theorem ofExcept_bind {result : Except Error α} {next : α → Parse β}
    (ensures : ∀ value, result = .ok value → Ensures (next value) before post) :
    Ensures (ofExcept result >>= next) before post := by
  cases result with
  | error error => exact .bind (.throw _)
  | ok value => exact .bind (.pure (ensures value rfl))

theorem ofExcept_ensures {post : α → ParserState → Prop} {result : Except Error α}
    (holds : ∀ value, result = .ok value → post value before) :
    Ensures (ofExcept result) before post := by
  cases result with
  | error error => exact .throw _
  | ok value => exact .pure (holds value rfl)

theorem secondKind_bind {next : TokenKind → Parse β}
    (ensures : ∀ kind, Ensures (next kind) before post) :
    Ensures (secondKind >>= next) before post := by
  refine .bind (.get ?_)
  split
  · exact .pure (ensures _)
  · exact .throw _

theorem scan_ensures (action : Scan α) (before : ParserState) :
    Ensures (scan action) before fun result after =>
      action before.scanner = .ok result after.scanner ∧
        after = { before with scanner := after.scanner } := by
  intro result after run
  simp only [scan, EStateM.run] at run
  split at run
  · next start =>
      cases run
      exact ⟨start, rfl⟩
  · cases run

/-- Using a token leads to the next one, from wherever the scanner is. -/
theorem advance_placed (placed : before.scanner.Placed)
    (reached : before.offset ≤ before.scanner.cursor.position.offset)
    (begun : before.assignmentStart ≤ before.offset) :
    Ensures advance before fun token after => token = before.lookahead ∧ before.Passes after ∧
      before.scanner.cursor.position.offset ≤ after.offset := by
  refine .bind ((scan_ensures Scanner.next before).mono fun next middle ⟨read, same⟩ => ?_)
  refine lookahead_bind (.modify (.pure ?_))
  rcases Scanner.next_ensures before.scanner _ _ read with ⟨-, behind, -, -⟩
  have lookahead : middle.lookahead = before.lookahead := by rw [same]
  have start : middle.assignmentStart = before.assignmentStart := by rw [same]
  have further : before.offset ≤ next.span.start.offset := Nat.le_trans reached behind
  refine ⟨lookahead, ⟨⟨⟨⟨before.scanner, placed, read⟩, ?_⟩, further, start⟩, ?_⟩, behind⟩
  · exact start ▸ Nat.le_trans begun further
  · rw [same]

theorem advance_ensures (sound : before.Sound) : Ensures advance before fun token after =>
    token = before.lookahead ∧ before.Passes after ∧
      (before.lookahead.kind ≠ .endOfInput → before.offset < after.offset) := by
  rcases sound.read with ⟨earlier, placed, run⟩
  rcases Scanner.next_ensures earlier _ _ run with ⟨-, -, reached, room⟩
  refine (advance_placed sound.placed reached sound.begun).mono fun token after result => ?_
  rcases result with ⟨equal, passes, behind⟩
  exact ⟨equal, passes, fun notEnd => Nat.lt_of_lt_of_le (room notEnd) behind⟩

theorem eat?_ensures (mark : Punctuator) (sound : before.Sound) :
    Ensures (eat? mark) before fun eaten after => before.Passes after ∧
      (eaten = true → before.lookahead.kind = .punctuator mark ∧ before.offset < after.offset) ∧
      (eaten = false → after = before ∧ before.lookahead.kind ≠ .punctuator mark) := by
  refine at?_bind (.ite (fun isMark => ?_) fun notMark => .pure ?_)
  · have kind := eq_of_beq isMark
    refine .bind ((advance_ensures sound).mono fun _ after ⟨_, passes, further⟩ => .pure ?_)
    exact ⟨passes, fun _ => ⟨kind, further (by simp [kind])⟩, nofun⟩
  · exact ⟨.refl sound, nofun, fun _ => ⟨rfl, by simpa using notMark⟩⟩

theorem expect_ensures (mark : Punctuator) (sound : before.Sound) :
    Ensures (expect mark) before fun token after =>
      token = before.lookahead ∧ before.lookahead.kind = .punctuator mark ∧
        before.Passes after ∧ before.offset < after.offset := by
  refine at?_bind (.ite (fun isMark => ?_) fun _ => unexpected_ensures)
  have kind := eq_of_beq isMark
  refine (advance_ensures sound).mono fun token after ⟨equal, passes, further⟩ => ?_
  exact ⟨equal, kind, passes, further (by simp [kind])⟩

theorem comma_ensures {close : Punctuator} {next : Parse β} (sound : before.Sound)
    (ensures : ∀ after, before.Passes after → Ensures next after post) :
    Ensures (at? close >>= fun closes => if !closes then expect .comma >>= fun _ => next else next)
      before post := by
  refine at?_bind (.ite (fun _ => ?_) fun _ => ensures before (.refl sound))
  refine .bind ((expect_ensures .comma sound).mono fun _ after ⟨_, _, passes, _⟩ => ?_)
  exact ensures after passes

theorem loop_ensures {round : α → Parse (Round α β)} (invariant : α → ParserState → Prop)
    (step : ∀ value state, invariant value state → Ensures (round value) state
      fun outcome after => outcome.Holds (invariant · after) (post · after))
    {value : α} (holds : invariant value before) : Ensures (loop round value) before post :=
  .get (.repeatWithin invariant step (fun _ => .bindAny fun _ _ => .throw _) _ holds)

/-! ## Initializers of shorthand properties -/

/-- An isolated part starts without a pending initializer and ends without one.
The initializer that was pending before is pending again. -/
theorem isolate_ensures {parse : Parse α} (found : α → Token → Prop) (sound : before.Sound)
    (inner : ∀ start : ParserState, start.Sound →
      start.offset = before.offset → start.assignmentStart = before.assignmentStart →
      Ensures parse start fun result after => start.Moves after ∧
        (after.pendingInitializer = none → found result after.lookahead)) :
    Ensures (isolate parse) before fun result after =>
      before.Passes after ∧ found result after.lookahead := by
  refine .get (.modify (.bind ?_))
  refine (inner { before with pendingInitializer := none } ⟨sound.read, sound.begun⟩ rfl
    rfl).mono fun result middle ⟨moves, holds⟩ => ?_
  refine .get ?_
  split
  · exact .throw _
  · next isNone =>
      refine .modify (.pure ⟨⟨⟨⟨moves.sound.read, moves.sound.begun⟩, moves.offset, ?_⟩, rfl⟩, ?_⟩)
      · exact moves.assignmentStart
      · exact holds isNone

/-- A part that may still become a pattern starts without a pending initializer
and passes on the one it finds. -/
theorem inherit_ensures {parse : Parse α} (found : α → Option Position → Token → Prop)
    (sound : before.Sound)
    (inner : ∀ start : ParserState, start.Sound →
      start.offset = before.offset → start.assignmentStart = before.assignmentStart →
      Ensures parse start fun result after =>
        start.Moves after ∧ found result after.pendingInitializer after.lookahead) :
    Ensures (inherit parse) before fun result after => before.Moves after ∧
      ∃ pending, after.pendingInitializer = before.pendingInitializer.or pending ∧
        found result pending after.lookahead := by
  refine .get (.modify (.bind ?_))
  refine (inner { before with pendingInitializer := none } ⟨sound.read, sound.begun⟩ rfl
    rfl).mono fun result middle ⟨moves, holds⟩ => ?_
  refine .modify (.pure ⟨⟨⟨moves.sound.read, moves.sound.begun⟩, moves.offset, ?_⟩, ?_⟩)
  · exact moves.assignmentStart
  · exact ⟨middle.pendingInitializer, rfl, holds⟩

end Parse

end ExprScript
