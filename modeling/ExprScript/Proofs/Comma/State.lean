import ExprScript.Proofs.Comma.Tree
import ExprScript.Proofs.Grammar.State

/-! # The parser and the next mark

The next token is the mark behind the last token that was used. Parsing goes on from there,
and the commas that have been noted stay.
-/

namespace ExprScript

namespace ParserState

/-- The next token comes from the source. If it is a single character, it is the mark behind the
last token that was used. -/
structure Adjoins (source : List Char) (state : ParserState) : Prop where
  read : ∃ before : Scanner, before.Placed ∧ before.source = source ∧
    Scanner.next before = .ok state.lookahead state.scanner
  next : ∀ mark c, state.lookahead.kind = .punctuator mark → mark.Is c →
    FollowedBy source state.previousEnd.offset c state.lookahead.span.stop.offset

/-- Parsing has gone on in the source, and no comma has been forgotten. -/
structure Notes (source : List Char) (before after : ParserState) : Prop where
  adjoins : after.Adjoins source
  commas : before.trailingCommas ⊆ after.trailingCommas

structure Consumes (source : List Char) (before after : ParserState) : Prop extends
    Notes source before after where
  stop : after.previousEnd = before.lookahead.span.stop

variable {source : List Char} {before middle after : ParserState}

theorem Notes.refl (adjoins : before.Adjoins source) : Notes source before before :=
  ⟨adjoins, List.Subset.refl _⟩

theorem Notes.trans (left : Notes source before middle) (right : Notes source middle after) :
    Notes source before after :=
  ⟨right.adjoins, List.Subset.trans left.commas right.commas⟩

theorem Consumes.followedBy (consumes : Consumes source before after)
    (adjoins : before.Adjoins source) {mark : Punctuator} {c : Char}
    (isMark : before.lookahead.kind = .punctuator mark) (spelled : mark.Is c) :
    FollowedBy source before.previousEnd.offset c after.previousEnd.offset := by
  rw [consumes.stop]
  exact adjoins.next mark c isMark spelled

theorem Adjoins.scanner (adjoins : before.Adjoins source) :
    before.scanner.source = source ∧ before.scanner.Placed ∧
      before.scanner.cursor.position.offset = before.lookahead.span.stop.offset := by
  rcases adjoins.read with ⟨earlier, placed, same, run⟩
  rcases Scanner.next_finds earlier placed _ _ run with ⟨same', placed', reached, -⟩
  exact ⟨same'.trans same, placed', reached⟩

theorem Adjoins.withPending (adjoins : before.Adjoins source) (pending : Option Position) :
    Adjoins source { before with pendingInitializer := pending } :=
  ⟨adjoins.read, adjoins.next⟩

theorem Notes.withPending {first : Option Position}
    (notes : Notes source { before with pendingInitializer := first } after)
    (last : Option Position) : Notes source before { after with pendingInitializer := last } :=
  ⟨notes.adjoins.withPending last, notes.commas⟩

end ParserState

/-! ## Expressions and items -/

/-- The expression is no spread, and everywhere in it the rests and the spreads that may become
rests are followed as they have to be. -/
structure Expr.Noted (source : List Char) (commas : List TrailingComma) (expr : Expr) : Prop where
  notSpread : expr.isSpread = false
  everywhere : expr.Everywhere (noted source commas)

theorem Expr.Noted.mono {source : List Char} {commas commas' : List TrailingComma} {expr : Expr}
    (noted : expr.Noted source commas) (within : commas ⊆ commas') : expr.Noted source commas' :=
  ⟨noted.notSpread, noted_mono within noted.everywhere⟩

namespace ParserState

structure Gives (source : List Char) (before : ParserState) (expr : Expr) (after : ParserState) :
    Prop extends Notes source before after where
  noted : expr.Noted source after.trailingCommas

/-- An item of a list has been read. If it is a spread, it ends where the parser is. -/
structure Takes (source : List Char) (before : ParserState) (item : Expr) (after : ParserState) :
    Prop extends Notes source before after where
  everywhere : item.Everywhere (noted source after.trailingCommas)
  spread : ∀ rest argument, item = .spread rest argument → after.previousEnd = rest.stop

structure Collects (source : List Char) (before : ParserState) (reversed : List Expr)
    (after : ParserState) : Prop extends Notes source before after where
  items : ∀ item ∈ reversed, item.Everywhere (noted source after.trailingCommas)

variable {source : List Char} {before middle after : ParserState} {reversed : List Expr}

theorem Notes.gives {expr : Expr} (notes : Notes source before middle)
    (gives : Gives source middle expr after) : Gives source before expr after :=
  ⟨notes.trans gives.toNotes, gives.noted⟩

namespace Collects

theorem nil (notes : Notes source before after) : Collects source before [] after :=
  ⟨notes, nofun⟩

theorem goesOn (collects : Collects source before reversed middle)
    (notes : Notes source middle after) : Collects source before reversed after :=
  ⟨collects.trans notes, fun item member =>
    Expr.noted_mono notes.commas (collects.items item member)⟩

theorem cons (collects : Collects source before reversed middle)
    (notes : Notes source middle after) {item : Expr}
    (everywhere : item.Everywhere (noted source after.trailingCommas)) :
    Collects source before (item :: reversed) after :=
  ⟨collects.trans notes,
    List.forall_mem_cons.mpr ⟨everywhere, (collects.goesOn notes).items⟩⟩

theorem inside (collects : Collects source before reversed after) :
    itemsInside (noted source after.trailingCommas) reversed.reverse :=
  (itemsInside_iff _ _).mpr fun item member => collects.items item (List.mem_reverse.mp member)

end Collects

end ParserState

namespace Parse

open ParserState

variable {source : List Char} {α β : Type} {before : ParserState} {post : β → ParserState → Prop}

/-! ## Primitive steps -/

theorem spanFrom_ensures {place : Position} {next : Span → Parse β}
    (ensures : Ensures (next { start := place, stop := before.previousEnd }) before post) :
    Ensures (spanFrom place >>= next) before post :=
  .bind (.get (.pure ensures))

theorem advance_adjoins (same : before.scanner.source = source) (placed : before.scanner.Placed)
    (reached : before.scanner.cursor.position.offset = before.lookahead.span.stop.offset) :
    Ensures advance before fun token after =>
      token = before.lookahead ∧ Consumes source before after := by
  refine .bind ((scan_ensures Scanner.next before).mono ?_)
  intro next middle ⟨read, changed⟩
  rw [changed]
  refine lookahead_bind (.modify (.pure ⟨rfl, ⟨⟨⟨?_, ?_⟩, List.Subset.refl _⟩, rfl⟩⟩))
  · exact ⟨before.scanner, placed, same, read⟩
  · intro mark c isMark spelled
    have finds := (Scanner.next_finds before.scanner placed _ _ read).2.2.2 mark c isMark spelled
    rw [same, reached] at finds
    exact finds.1

theorem advance_consumes (adjoins : before.Adjoins source) :
    Ensures advance before fun token after =>
      token = before.lookahead ∧ Consumes source before after :=
  advance_adjoins adjoins.scanner.1 adjoins.scanner.2.1 adjoins.scanner.2.2

theorem eat?_consumes (mark : Punctuator) (adjoins : before.Adjoins source) :
    Ensures (eat? mark) before fun eaten after =>
      (eaten = true → Consumes source before after) ∧ (eaten = false → after = before) := by
  refine at?_bind (.ite (fun _ => ?_) fun _ => .pure ⟨nofun, fun _ => rfl⟩)
  refine .bind ((advance_consumes adjoins).mono ?_)
  intro _ after ⟨_, consumes⟩
  exact .pure ⟨fun _ => consumes, nofun⟩

theorem expect_consumes (mark : Punctuator) (adjoins : before.Adjoins source) :
    Ensures (expect mark) before fun _ after =>
      before.lookahead.kind = .punctuator mark ∧ Consumes source before after := by
  refine at?_bind (.ite (fun isMark => ?_) fun _ => unexpected_ensures)
  refine (advance_consumes adjoins).mono ?_
  intro _ after ⟨_, consumes⟩
  exact ⟨eq_of_beq isMark, consumes⟩

/-- A comma follows an item, unless the list is closed. -/
theorem comma_notes {close : Punctuator} {next : Parse β} (adjoins : before.Adjoins source)
    (ensures : ∀ after, Notes source before after → after.previousEnd = before.previousEnd ∨
      FollowedBy source before.previousEnd.offset ',' after.previousEnd.offset →
        Ensures next after post) :
    Ensures (at? close >>= fun closes => if !closes then expect .comma >>= fun _ => next else next)
      before post := by
  refine at?_bind (.ite (fun _ => ?_) fun _ => ensures before (.refl adjoins) (.inl rfl))
  refine .bind ((expect_consumes .comma adjoins).mono ?_)
  intro _ after ⟨isComma, consumes⟩
  exact ensures after consumes.toNotes (.inr (consumes.followedBy adjoins isComma ⟨rfl⟩))

/-! ## Parts that are expressions -/

def Records (source : List Char) (parse : Parse Expr) : Prop :=
  ∀ before : ParserState, before.Adjoins source → Ensures parse before (Gives source before)

theorem isolate_records {parse : Parse Expr} (records : Records source parse) :
    Records source (isolate parse) := by
  intro before adjoins
  refine .get (.modify (.bind ((records _ (adjoins.withPending none)).mono ?_)))
  intro expr middle ⟨notes, noted⟩
  refine .get ?_
  split
  · exact fail_ensures _ _
  · exact .modify (.pure ⟨notes.withPending _, noted⟩)

theorem inherit_records {parse : Parse Expr} (records : Records source parse) :
    Records source (inherit parse) := by
  intro before adjoins
  refine .get (.modify (.bind ((records _ (adjoins.withPending none)).mono ?_)))
  intro expr middle ⟨notes, noted⟩
  exact .modify (.pure ⟨notes.withPending _, noted⟩)

theorem Records.takes {parse : Parse Expr} (records : Records source parse)
    (adjoins : before.Adjoins source) : Ensures parse before (Takes source before) := by
  refine (records before adjoins).mono ?_
  intro expr after ⟨notes, noted⟩
  refine ⟨notes, noted.everywhere, ?_⟩
  rintro rest argument rfl
  cases noted.notSpread

/-! ## Words -/

theorem bindingName_notes (adjoins : before.Adjoins source) :
    Ensures bindingName before fun _ after => Notes source before after := by
  refine kind_bind (.ite (fun _ => .bind unexpected_ensures) fun _ => ?_)
  refine .bind ((advance_consumes adjoins).mono ?_)
  intro _ after ⟨_, consumes⟩
  exact .get (.ite (fun _ => .bind (fail_ensures _ _)) fun _ => .pure consumes.toNotes)

theorem propertyName_notes (adjoins : before.Adjoins source) :
    Ensures propertyName before fun _ after => Notes source before after := by
  refine lookahead_bind (.ite (fun _ => .bind unexpected_ensures) fun _ => ?_)
  refine .bind ((advance_consumes adjoins).mono ?_)
  intro _ after ⟨_, consumes⟩
  exact .pure consumes.toNotes

theorem stringLiteral_notes (adjoins : before.Adjoins source) :
    Ensures stringLiteral before fun _ after => Notes source before after := by
  refine kind_bind (.ite (fun _ => .bind unexpected_ensures) fun _ => ?_)
  refine .bind ((advance_consumes adjoins).mono ?_)
  intro _ after ⟨_, consumes⟩
  exact .get (.ite (fun _ => .bind (fail_ensures _ _)) fun _ => .pure consumes.toNotes)

theorem numberLiteral_notes (adjoins : before.Adjoins source) :
    Ensures numberLiteral before fun _ after => Notes source before after := by
  refine .bind ((advance_consumes adjoins).mono ?_)
  intro _ after ⟨_, consumes⟩
  exact .get (.ite (fun _ => .bind (fail_ensures _ _)) fun _ => .pure consumes.toNotes)

end Parse

end ExprScript
