import ExprScript.Grammar.Expression
import ExprScript.Proofs.Grammar.Operator
import ExprScript.Proofs.Span.Chain
import ExprScript.Proofs.Token.Tiling

/-! # Trees in the source

The operands that wait on the stack of precedence climbing lie one behind the other,
and so do the two that are joined. Every rule keeps to the source if the rules inside of
it do, so all of them do, at every depth.
-/

namespace ExprScript

open ParserState

/-! ## Operands on the stack -/

namespace Climb

variable {source : List Char} {begin stop : Position}

/-- The operands on the stack, the top first, lie one behind the other. They begin where
the first one does and stop where the top does, and the operators between them have their
places. -/
inductive Spread (source : List Char) (begin : Position) :
    Position → List PendingOperator → List Expr → Prop
  | bottom {stop : Position} {operand : Expr}
      (fills : operand.outline.Fills source begin stop) : Spread source begin stop [] [operand]
  | push {start middle stop : Position} {operand : Expr} {waiting : PendingOperator}
      {operators : List PendingOperator} {operands : List Expr}
      (fills : operand.outline.Fills source start stop) (apart : middle.offset ≤ start.offset)
      (marks : waiting.position.Marks source)
      (below : Spread source begin middle operators operands) :
      Spread source begin stop (waiting :: operators) (operand :: operands)

/-- The top operand, before which the other ones lie, is replaced. -/
theorem Spread.top {operators : List PendingOperator} {operands : List Expr}
    (spread : Spread source begin stop operators operands) :
    ∃ (start : Position) (top : Expr) (others : List Expr), operands = top :: others ∧
      top.outline.Fills source start stop ∧ ∀ (other : Expr) (stop' : Position),
        other.outline.Fills source start stop' →
          Spread source begin stop' operators (other :: others) := by
  cases spread with
  | bottom fills => exact ⟨_, _, _, rfl, fills, fun _ _ => .bottom⟩
  | push fills apart marks below =>
      exact ⟨_, _, _, rfl, fills, fun _ _ fills' => .push fills' apart marks below⟩

/-- Two operands, one behind the other, are joined to one from the first to the second. -/
theorem join_fills {waiting : PendingOperator} {left right : Expr}
    {start middle next : Position} (leftFills : left.outline.Fills source start middle)
    (apart : middle.offset ≤ next.offset) (rightFills : right.outline.Fills source next stop)
    (marks : waiting.position.Marks source) : ErrsWithin source (waiting.join left right) ∧
      ∀ joined, waiting.join left right = .ok joined →
        joined.outline.Fills source start stop := by
  have fills := leftFills.join apart rightFills
  rw [left.span_outline, right.span_outline] at fills
  constructor
  · unfold PendingOperator.join
    dsimp only
    split <;> split <;> first | exact .ok _ | exact .error ⟨marks, rfl⟩
  · intro joined run
    rcases PendingOperator.join_ok run with ⟨op, rfl⟩ | ⟨op, rfl⟩ <;> exact fills

theorem Spread.reduceFrom {operators : List PendingOperator} {operands : List Expr}
    (spread : Spread source begin stop operators operands) (precedence : Nat) :
    ErrsWithin source (Climb.reduceFrom precedence operators operands) ∧
      ∀ climb, Climb.reduceFrom precedence operators operands = .ok climb →
        Spread source begin stop climb.operators climb.operands := by
  induction operators generalizing operands with
  | nil =>
      refine ⟨.ok _, fun climb equal => ?_⟩
      cases equal
      exact spread
  | cons waiting operators induction =>
      rw [Climb.reduceFrom]
      split
      · refine ⟨.ok _, fun climb equal => ?_⟩
        cases equal
        exact spread
      · cases spread with
        | push fills apart marks below =>
            rcases below.top with ⟨start, left, others, rfl, leftFills, replace⟩
            rcases join_fills leftFills apart fills marks with ⟨errs, joins⟩
            have reduced : ∀ joined, waiting.join left _ = .ok joined →
                Spread source begin stop operators (joined :: others) :=
              fun joined join => replace joined stop (joins joined join)
            constructor
            · apply ErrsWithin.bind (errs.bind fun _ _ => .ok _)
              intro operands joins
              rcases except_bind_ok joins with ⟨joined, join, equal⟩
              cases equal
              exact (induction (reduced joined join)).1
            · intro climb run
              rcases except_bind_ok run with ⟨operands, joins, run⟩
              rcases except_bind_ok joins with ⟨joined, join, equal⟩
              cases equal
              exact (induction (reduced joined join)).2 climb run

theorem Spread.shift {climb : Climb}
    (spread : Spread source begin stop climb.operators climb.operands) (waiting : PendingOperator)
    (marks : waiting.position.Marks source) :
    ErrsWithin source (climb.shift waiting) ∧
      ∀ shifted, climb.shift waiting = .ok shifted → ∀ (operand : Expr) (start stop' : Position),
        stop.offset ≤ start.offset → operand.outline.Fills source start stop' →
          Spread source begin stop' (shifted.push operand).operators
            (shifted.push operand).operands := by
  rcases spread.reduceFrom waiting.precedence with ⟨errs, reduces⟩
  constructor
  · exact errs.bind fun _ _ => .ok _
  · intro shifted run operand start stop' apart fills
    rcases except_bind_ok run with ⟨reduced, reduce, equal⟩
    cases equal
    exact .push fills apart marks (reduces reduced reduce)

theorem reduceFrom_zero {operators : List PendingOperator} {operands : List Expr} {climb : Climb}
    (run : Climb.reduceFrom 0 operators operands = .ok climb) : climb.operators = [] := by
  induction operators generalizing operands with
  | nil =>
      cases run
      rfl
  | cons waiting operators induction =>
      rw [Climb.reduceFrom, if_neg (Nat.not_lt_zero _)] at run
      rcases except_bind_ok run with ⟨reduced, -, run⟩
      exact induction run

theorem Spread.finish {climb : Climb}
    (spread : Spread source begin stop climb.operators climb.operands) {position : Position}
    (marks : position.Marks source) : ErrsWithin source (climb.finish position) ∧
      ∀ result, climb.finish position = .ok result → result.outline.Fills source begin stop := by
  rcases spread.reduceFrom 0 with ⟨errs, reduces⟩
  constructor
  · apply errs.bind
    intro reduced _
    split
    · exact .ok _
    · exact .error ⟨marks, rfl⟩
  · intro result run
    rcases except_bind_ok run with ⟨reduced, reduce, run⟩
    have rest := reduces reduced reduce
    rw [reduceFrom_zero reduce] at rest
    generalize reduced.operands = operands at rest run
    cases rest with
    | bottom fills =>
        cases run
        exact fills

end Climb

namespace Parse

variable {source : List Char} {rules : Rules} (reads : RulesSpan source rules)

include reads

/-! ## Operators on one operand -/

theorem postfixed_spans : SpansExpr source (postfixed rules) := by
  intro before located
  apply start_traces
  apply Yields.bind
  apply (inherit_spans (chain_spans reads) before located).mono
  intro expr middle read
  apply lookahead_traces
  split
  · exact .pure read
  · apply Yields.ite
    · exact fun _ => .pure read
    intro _
    apply Yields.ite
    · exact fun _ => .bind (fail_traces _ read.marks rfl)
    intro _
    apply Yields.bind
    apply (advance_traces read.goes.located).mono
    intro _ after ⟨_, uses⟩
    apply spanFrom_traces
    apply Yields.pure
    have whole := (Gathers.single read le_rfl).goesOn uses.toGoes
    exact whole.node located whole.between.lt

theorem unary_spans : SpansExpr source (unary rules) := by
  intro before located
  have operand : ∀ opened, Uses source before opened → ∀ (argument : Expr) after,
      Reads source opened argument.outline after → Reads source before
        (.node { start := before.lookahead.span.start, stop := after.previousEnd }
          [argument.outline]) after := by
    intro opened uses argument after read
    have gathers : Gathers source before.offset before after [argument.outline] :=
      ⟨uses.toGoes.trans read.goes, read.fills.between uses.offset le_rfl⟩
    exact gathers.node located gathers.between.lt
  apply start_traces
  apply kind_traces
  split
  · apply Yields.bind
    apply (advance_traces located).mono
    intro _ opened ⟨_, uses⟩
    apply Yields.bind
    apply (isolate_spans (reads .unary) opened uses.located).mono
    intro argument after read
    apply spanFrom_traces
    exact .pure (operand opened uses argument after read)
  · apply Yields.bind
    apply (advance_traces located).mono
    intro _ opened ⟨_, uses⟩
    apply Yields.bind
    apply (isolate_spans (reads .unary) opened uses.located).mono
    intro argument after read
    apply Yields.ite
    · exact fun _ => .bind (fail_traces _ read.marks rfl)
    · intro _
      apply spanFrom_traces
      exact .pure (operand opened uses argument after read)
  · exact postfixed_spans reads before located

theorem exponent_spans : SpansExpr source (exponent rules) := by
  intro before located
  apply Yields.bind
  apply (inherit_spans (unary_spans reads) before located).mono
  intro base middle read
  apply at?_traces
  apply Yields.ite
  · exact fun _ => .pure read
  intro _
  apply Yields.ite
  · exact fun _ => start_traces (.bind (fail_traces _ read.goes.located.start rfl))
  intro _
  apply Yields.bind
  apply (advance_traces read.goes.located).mono
  intro _ opened ⟨_, uses⟩
  apply Yields.bind
  apply (isolate_spans (reads .exponent) opened uses.located).mono
  intro power after read'
  have apart : middle.previousEnd.offset ≤ opened.offset :=
    uses.previousEnd.trans uses.located.behind
  have fills := read.fills.join apart read'.fills
  rw [base.span_outline, power.span_outline] at fills
  exact .pure ⟨read.goes.trans (uses.toGoes.trans read'.goes), fills⟩

/-! ## Operators between operands -/

theorem binary_spans : SpansExpr source (binary rules) := by
  intro before located
  apply Yields.bind
  apply (inherit_spans (exponent_spans reads) before located).mono
  intro first opened read
  apply Yields.bind
  apply loop_traces (fun (climb : Climb) state => Goes source before state ∧
    Climb.Spread source before.lookahead.span.start state.previousEnd climb.operators
      climb.operands)
  · exact fun _ _ holds => holds.1.located
  · intro climb state ⟨goes, spread⟩
    have located := goes.located
    apply kind_traces
    apply Yields.ite
    · intro _
      apply done_traces
      apply Yields.get
      rcases spread.finish located.previousEnd with ⟨errs, finishes⟩
      rw [← bind_pure (ofExcept _)]
      apply ofExcept_traces errs
      exact fun result run => .pure ⟨goes, finishes result run⟩
    · intro _
      apply start_traces
      rcases spread.shift { kind := _, precedence := _, position := _ } located.start with
        ⟨errs, shifts⟩
      apply ofExcept_traces errs
      intro shifted run
      apply Yields.bind
      apply (advance_traces located).mono
      intro _ middle ⟨_, uses⟩
      apply Yields.bind
      apply (isolate_spans (exponent_spans reads) middle uses.located).mono
      intro operand after read
      apply again_traces
      refine ⟨goes.trans (uses.toGoes.trans read.goes), ?_⟩
      exact shifts shifted run operand _ _ (uses.previousEnd.trans uses.located.behind) read.fills
  · exact ⟨read.goes, .bottom read.fills⟩

theorem conditional_spans : SpansExpr source (conditional rules) := by
  intro before located
  apply start_traces
  apply Yields.bind
  apply (inherit_spans (binary_spans reads) before located).mono
  intro test middle read
  apply at?_traces
  apply Yields.ite
  · exact fun _ => .pure read
  intro _
  apply Yields.bind
  apply (advance_traces read.goes.located).mono
  intro _ opened ⟨_, opens⟩
  apply Yields.bind
  apply (isolate_spans (reads .assignment) opened opens.located).mono
  intro consequent divided read'
  apply Yields.bind
  apply (expect_traces .colon read'.goes.located).mono
  intro _ behind ⟨_, _, steps⟩
  apply Yields.bind
  apply (isolate_spans (reads .assignment) behind steps.located).mono
  intro alternate after read''
  apply spanFrom_traces
  apply Yields.pure
  have whole := ((Gathers.single read le_rfl).snoc opens.toGoes read').snoc steps.toGoes read''
  exact whole.node located whole.between.lt

/-! ## Assignments -/

theorem assignedValue_traces {before : ParserState} (located : before.Located source) :
    Traces source (assignedValue rules) before fun value after => ∃ opened,
      Goes source before opened ∧ Reads source opened value.outline after := by
  apply Yields.bind
  apply (advance_traces located).mono
  intro _ opened ⟨_, uses⟩
  apply (isolate_spans (reads .assignment) opened uses.located).mono
  exact fun value after read => ⟨opened, uses.toGoes, read⟩

variable {origin before : ParserState}

theorem destructuring_traces (located : origin.Located source) (op : AssignOp) {literal : Expr}
    (read : Reads source origin literal.outline before) :
    Traces source (destructuring rules origin.lookahead.span.start op literal) before
      fun expr after => Reads source origin expr.outline after := by
  have located' := read.goes.located
  apply ofExcept_traces (reinterpret_marks .assignment literal read.fills.fits)
  intro pattern rebuilt
  apply Yields.get
  apply ofExcept_traces (checkRestCommas_marks located'.commas pattern)
  intro _ _
  apply Yields.modify
  have clears : Goes source before { before with pendingInitializer := none } :=
    ⟨{ located' with pending := nofun }, le_rfl, le_rfl⟩
  apply Yields.bind
  apply (assignedValue_traces reads clears.located).mono
  intro value after ⟨opened, goes, read'⟩
  apply spanFrom_traces
  apply Yields.pure
  have whole := (Gathers.single read le_rfl).snoc (clears.trans goes) read'
  rw [← reinterpret_outline .assignment literal pattern rebuilt] at whole
  exact whole.node located whole.between.lt

theorem assignmentTail_traces (located : origin.Located source) {expr : Expr}
    (read : Reads source origin expr.outline before) :
    Traces source (assignmentTail rules origin.lookahead.span.start expr) before
      fun expr after => Reads source origin expr.outline after := by
  apply Yields.ite
  · exact fun _ => .pure read
  intro _
  apply kind_traces
  split
  · exact .pure read
  · apply Yields.ite
    · exact fun _ => destructuring_traces reads located _ read
    intro _
    apply Yields.ite
    · intro _
      apply Yields.bind
      apply (assignedValue_traces reads read.goes.located).mono
      intro value after ⟨opened, goes, read'⟩
      apply spanFrom_traces
      apply Yields.pure
      have whole := (Gathers.single read le_rfl).snoc goes read'
      exact whole.node located whole.between.lt
    · exact fun _ => fail_traces _ read.marks rfl

theorem assignment_spans : SpansExpr source (assignment rules) := by
  intro before located
  apply start_traces
  apply Yields.get
  apply Yields.modify
  have begun : Located source { before with assignmentStart := before.offset } :=
    { located with }
  apply Yields.bind
  apply (inherit_spans (conditional_spans reads) _ begun).mono
  intro expr middle read
  apply Yields.bind
  apply (assignmentTail_traces reads begun read).mono
  intro result after read'
  apply Yields.modify
  apply Yields.pure
  exact ⟨⟨{ read'.goes.located with }, read'.goes.offset, read'.goes.previousEnd⟩, read'.fills⟩

omit reads

/-! ## The whole grammar -/

theorem rules_span (source : List Char) (depth : Nat) : RulesSpan source (Parse.rules depth) := by
  induction depth with
  | zero => exact fun _ _ located => start_traces (fail_traces _ located.start rfl)
  | succ depth induction =>
      intro rule
      cases rule with
      | assignment => exact assignment_spans induction
      | exponent => exact exponent_spans induction
      | unary => exact unary_spans induction
      | construction => exact construction_spans induction

theorem program_spans (depth : Nat) : SpansExpr source (program depth) := by
  intro before located
  apply Yields.bind
  apply (expression_spans (rules_span source depth) before located).mono
  intro expr after read
  apply kind_traces
  apply Yields.ite
  · exact fun _ => .bind (unexpected_traces read.goes.located)
  · exact fun _ => .pure read

end Parse

/-! ## Parsing -/

theorem start_located {source : String} {lookahead : Token} {scanner : Scanner}
    (run : Scanner.next (.ofString source) = .ok lookahead scanner) (strict : Bool) :
    Located source.toList { scanner, lookahead, previousEnd := lookahead.span.start, strict } := by
  have begins : (Scanner.ofString source).Located source.toList := ⟨rfl, .ofString source⟩
  rcases (Scanner.next_located begins).ensures _ _ run with ⟨located, placed, -, reached⟩
  exact ⟨located, placed, reached, placed.marks, le_rfl, nofun, nofun⟩

theorem parse_rejects (source : String) (strict : Bool) :
    match parse source strict with
    | .ok expr => expr.outline.Fits source.toList
    | .error error => error.Rejects source.toList := by
  have begins : (Scanner.ofString source).Located source.toList := ⟨rfl, .ofString source⟩
  cases run : Scanner.next (Scanner.ofString source) with
  | error error scanner =>
      rw [parse_of_next_error strict run]
      exact (Scanner.next_located begins).error run
  | ok lookahead scanner =>
      have spans := Parse.program_spans (source.length + 1) _ (start_located run strict)
      cases program : Parse.program (source.length + 1)
          { scanner, lookahead, previousEnd := lookahead.span.start, strict } with
      | ok expr after =>
          rw [parse_of_program run program]
          exact (spans.ensures _ _ program).fills.fits
      | error error after =>
          rw [parse_of_program_error run program]
          exact spans.error program

theorem parse_traces (source : String) (strict : Bool) :
    match parse source strict with
    | .ok expr => expr.outline.Fits source.toList
    | .error error => error.Marks source.toList := by
  have rejects := parse_rejects source strict
  split
  · next parsed => rwa [parsed] at rejects
  · next failed =>
      rw [failed] at rejects
      exact rejects.marks

/-- The position is a place of the text: a border between two characters, with the line
and the column that the text before it has, as far as they are counted. -/
structure Position.Within (source : String) (position : Position) : Prop where
  marks : position.Marks source.toList
  isValid : String.Pos.Raw.IsValid source ⟨position.offset⟩
  offset_le : position.offset ≤ source.utf8ByteSize
  counts : position.Counts source.toList

theorem Position.Marks.within {source : String} {position : Position}
    (marks : position.Marks source.toList) : position.Within source := by
  have size : source.utf8ByteSize = byteSize source.toList := by
    rw [← utf8Len_eq_byteSize, ← String.utf8ByteSize_ofList, String.ofList_toList]
  refine ⟨marks, ?_, size ▸ marks.offset_le, marks.counts⟩
  rcases marks with ⟨passed, rest, text, rfl⟩
  exact isValid_byteSize text

/-- Whatever the text is, every node of the tree that is parsed from it is a part of the
text, its parts lie in it one behind the other, and an error is at a place of the text. -/
theorem parse_located (source : String) (strict : Bool) :
    match parse source strict with
    | .ok expr => expr.outline.Fits source.toList ∧
        ∀ span ∈ expr.outline.spans, span.start.Within source ∧ span.stop.Within source ∧
          span.start.offset < span.stop.offset
    | .error error => error.position.Within source := by
  have traces := parse_traces source strict
  cases parsed : parse source strict with
  | ok expr =>
      rw [parsed] at traces
      refine ⟨traces, fun span member => ?_⟩
      have places := traces.places _ span member
      exact ⟨places.start.within, places.stop.within, places.start_lt_stop⟩
  | error error =>
      rw [parsed] at traces
      exact Position.Marks.within traces

theorem Parse.program_endOfInput (state : ParserState)
    (isEnd : state.lookahead.kind = .endOfInput) (depth : Nat) :
    ∃ after, program (depth + 1) state = .error state.lookahead.unexpected after := by
  rcases state with ⟨scanner, token, previousEnd, strict⟩
  cases token
  cases isEnd
  exact ⟨_, rfl⟩

theorem parse_spaces (count : Nat) :
    let source := String.ofList (List.replicate count ' ')
    ∃ error, parse source = .error error ∧ error.position.column.toNat = (count + 1) % 2 ^ 32 ∧
      columnBehind (takeBytes error.position.offset source.toList) = count + 1 := by
  intro source
  rcases Scanner.next_spaces count with ⟨token, scanner, run, isEnd, start, -⟩
  have rejected : parse source = .error token.unexpected := by
    let begins : ParserState :=
      { scanner, lookahead := token, previousEnd := token.span.start, strict := false }
    rcases Parse.program_endOfInput begins isEnd source.length with ⟨after, program⟩
    exact parse_of_program_error run program
  refine ⟨token.unexpected, rejected, ?_⟩
  rw [String.toList_ofList, show token.unexpected.position = _ from start]
  exact column_behind_spaces count

/-- The counter of the columns is back at zero where the column of the error is `2 ^ 32`. -/
theorem parse_column_wraps :
    let source := String.ofList (List.replicate (2 ^ 32 - 1) ' ')
    ∃ error, parse source = .error error ∧ error.position.column.toNat = 0 ∧
      columnBehind (takeBytes error.position.offset source.toList) = 2 ^ 32 := by
  have rejected := parse_spaces (2 ^ 32 - 1)
  have limit : 2 ^ 32 - 1 + 1 = 2 ^ 32 := by norm_num
  rwa [limit, Nat.mod_self] at rejected

end ExprScript
