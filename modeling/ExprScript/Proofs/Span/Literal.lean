import ExprScript.Proofs.Span.State

/-! # Literals in the source

The rules of the grammar are assumed to keep to the source where they are used
recursively. The parts of a literal are read one after the other, and each of them
begins behind the one before.
-/

namespace ExprScript

namespace Parse

open ParserState

def RulesSpan (source : List Char) (rules : Rules) : Prop :=
  ∀ rule, SpansExpr source (rules rule)

variable {source : List Char} {rules : Rules} (reads : RulesSpan source rules)
  {before : ParserState}

include reads

/-! ## Sequences and arguments -/

theorem expression_spans : SpansExpr source (expression rules) := by
  intro before located
  apply start_traces
  apply Yields.bind
  apply (isolate_spans (reads .assignment) before located).mono
  intro first middle read
  apply at?_traces
  apply Yields.ite
  · exact fun _ => .pure read
  · intro _
    apply Yields.bind
    apply loop_traces (fun (reversed : List Expr) state =>
      Gathers source before.offset before state (itemOutlines reversed.reverse) ∧
        before.offset < state.previousEnd.offset)
    · exact fun _ _ holds => holds.1.goes.located
    · intro reversed state ⟨gathers, size⟩
      apply Yields.bind
      apply (eat?_traces .comma gathers.goes.located).mono
      intro eaten opened ⟨isEaten, notEaten⟩
      cases eaten with
      | true =>
          have uses := (isEaten rfl).2
          apply Yields.bind
          apply (isolate_spans (reads .assignment) opened uses.located).mono
          intro item after read
          apply again_traces
          constructor
          · rw [List.reverse_cons, itemOutlines_append]
            exact gathers.snoc uses.toGoes read
          · exact size.trans_le (uses.previousEnd.trans read.goes.previousEnd)
      | false =>
          rw [notEaten rfl]
          apply done_traces
          apply spanFrom_traces
          exact .pure (gathers.node located size)
    · exact ⟨.single read le_rfl, read.offset_lt⟩

theorem computedMember_traces (located : before.Located source) :
    Traces source (computedMember rules) before fun key after =>
      Gathers source before.previousEnd.offset before after [key.outline] := by
  apply Yields.bind
  apply (expect_traces .leftBracket located).mono
  intro _ opened ⟨_, _, opens⟩
  apply Yields.bind
  apply (isolate_spans (expression_spans reads) opened opens.located).mono
  intro key inside read
  apply Yields.bind
  apply (expect_traces .rightBracket read.goes.located).mono
  intro _ after ⟨_, _, closes⟩
  exact .pure ((((Gathers.nil located).snoc opens.toGoes read).goesOn closes.toGoes))

theorem spread_spans {wrap : Parse Expr → Parse Expr}
    (wraps : ∀ parse, SpansExpr source parse → SpansExpr source (wrap parse)) :
    SpansExpr source (spread rules wrap) := by
  intro before located
  apply start_traces
  apply Yields.bind
  apply (advance_traces located).mono
  intro _ opened ⟨_, uses⟩
  apply Yields.bind
  apply (wraps _ (reads .assignment) opened uses.located).mono
  intro argument after read
  apply spanFrom_traces
  apply Yields.pure
  have gathers : Gathers source before.offset before after [argument.outline] :=
    ⟨uses.toGoes.trans read.goes, read.fills.between uses.offset le_rfl⟩
  exact gathers.node located (uses.offset.trans_lt read.offset_lt)

theorem arguments_traces (located : before.Located source) :
    Traces source (arguments rules) before fun args after =>
      Gathers source before.previousEnd.offset before after (itemOutlines args) := by
  apply Yields.bind
  apply (expect_traces .leftParen located).mono
  intro _ opened ⟨_, _, opens⟩
  apply Yields.bind
  apply loop_traces (fun (reversed : List Expr) state =>
    Gathers source before.previousEnd.offset before state (itemOutlines reversed.reverse))
  · exact fun _ _ gathers => gathers.goes.located
  · intro reversed state gathers
    have located := gathers.goes.located
    have argument : ∀ expr middle, Reads source state expr.outline middle →
        ∀ after, Goes source middle after → Gathers source before.previousEnd.offset before after
          (itemOutlines (expr :: reversed).reverse) := by
      intro expr middle read after goes
      rw [List.reverse_cons, itemOutlines_append]
      exact (gathers.snoc (.refl located) read).goesOn goes
    apply at?_traces
    apply Yields.ite
    · intro _
      apply done_traces
      apply Yields.bind
      apply (expect_traces .rightParen located).mono
      intro _ after ⟨_, _, closes⟩
      exact .pure (gathers.goesOn closes.toGoes)
    · intro _
      apply at?_traces
      apply Yields.ite
      · intro _
        apply Yields.bind
        apply (spread_spans reads (fun _ => isolate_spans) state located).mono
        intro expr middle read
        apply comma_traces read.goes.located
        exact fun after goes => again_traces (argument expr middle read after goes)
      · intro _
        apply Yields.bind
        apply (isolate_spans (reads .assignment) state located).mono
        intro expr middle read
        apply comma_traces read.goes.located
        exact fun after goes => again_traces (argument expr middle read after goes)
  · exact (Gathers.nil located).goesOn opens.toGoes

/-! ## Templates -/

theorem template_traces (located : before.Located source)
    (notEnd : before.lookahead.kind ≠ .endOfInput) :
    Traces source (template rules) before fun parts after =>
      Gathers source before.offset before after
        (templateOutlines parts.quasis (itemOutlines parts.holes)) ∧
      before.offset < after.previousEnd.offset ∧
      parts.loc = { start := before.lookahead.span.start, stop := after.previousEnd } := by
  apply start_traces
  apply Yields.bind
  apply (advance_traces located).mono
  intro head opened ⟨equal, uses⟩
  subst equal
  have token := uses.token located notEnd
  apply Yields.bind
  apply loop_traces (fun (pieces : Token × List Quasi × List Expr) state =>
    Gathers source before.offset before state
      (templateOutlines pieces.2.1.reverse (itemOutlines pieces.2.2.reverse)) ∧
    before.offset < state.previousEnd.offset ∧ pieces.2.1.length = pieces.2.2.length + 1)
  · exact fun _ _ holds => holds.1.goes.located
  · intro ⟨token, quasis, holes⟩ state ⟨gathers, size, turns⟩
    apply Yields.ite
    · intro _
      apply done_traces
      apply spanFrom_traces
      exact .pure ⟨gathers, size, rfl⟩
    · intro _
      apply Yields.bind
      apply (expression_spans reads state gathers.goes.located).mono
      intro hole middle read
      apply kind_traces
      apply Yields.ite
      · exact fun _ => .bind (unexpected_traces read.goes.located)
      · intro resumes
        have notEnd : middle.lookahead.kind ≠ .endOfInput := by
          intro isEnd
          exact resumes (by rw [isEnd]; rfl)
        apply Yields.bind
        apply (advance_traces read.goes.located).mono
        intro next after ⟨equal, steps⟩
        subst equal
        have piece := steps.token read.goes.located notEnd
        apply again_traces
        refine ⟨?_, ?_, ?_⟩
        · have whole := (gathers.snoc (.refl gathers.goes.located) read).snoc
            (.refl read.goes.located) piece.reads
          have turns' : quasis.reverse.length = holes.reverse.length + 1 := by
            rwa [List.length_reverse, List.length_reverse]
          rw [List.reverse_cons, List.reverse_cons, templateOutlines_snoc turns']
          rwa [List.append_assoc] at whole
        · exact size.trans_le (read.goes.previousEnd.trans steps.previousEnd)
        · simpa using turns
  · exact ⟨.single token.reads le_rfl, token.reads.offset_lt, rfl⟩

/-! ## Arrays -/

omit reads in
theorem noteTrailingComma_traces (located : before.Located source) {element : Expr} {comma : Token}
    (start : element.loc.start.Marks source) (marks : comma.span.start.Marks source) :
    Traces source (noteTrailingComma element comma) before fun _ after =>
      Goes source before after := by
  unfold noteTrailingComma
  split
  · next loc argument =>
      apply at?_traces
      apply Yields.ite
      · intro _
        have commas : ∀ other ∈ (loc.start, comma.span.start) :: before.trailingCommas,
            other.1.Marks source ∧ other.2.Marks source :=
          List.forall_mem_cons.mpr ⟨⟨start, marks⟩, located.commas⟩
        exact ⟨{ located with commas }, le_rfl, le_rfl⟩
      · exact fun _ => .pure (.refl located)
  · exact .pure (.refl located)

omit reads in
/-- A comma follows an element, unless the array is closed. -/
theorem elementComma_traces {α : Type} {next : Parse α} {post : α → ParserState → Prop}
    {element : Expr} (located : before.Located source) (start : element.loc.start.Marks source)
    (traces : ∀ after, Goes source before after → Traces source next after post) :
    Traces source (at? .rightBracket >>= fun closes =>
      if !closes then expect .comma >>= fun comma =>
        noteTrailingComma element comma >>= fun _ => next else next) before post := by
  apply at?_traces
  apply Yields.ite
  · intro _
    apply Yields.bind
    apply (expect_traces .comma located).mono
    intro comma middle ⟨equal, _, uses⟩
    apply Yields.bind
    apply (noteTrailingComma_traces uses.located start (equal ▸ located.start)).mono
    intro _ after goes
    exact traces after (uses.toGoes.trans goes)
  · exact fun _ => traces before (.refl located)

theorem arrayLiteral_spans : SpansExpr source (arrayLiteral rules) := by
  intro before located
  apply start_traces
  apply Yields.bind
  apply (expect_traces .leftBracket located).mono
  intro _ opened ⟨_, isBracket, opens⟩
  have notEnd : before.lookahead.kind ≠ .endOfInput := by simp [isBracket]
  apply Yields.bind
  apply loop_traces (fun (reversed : List (Option Expr)) state =>
    Gathers source opened.previousEnd.offset opened state (elementOutlines reversed.reverse))
  · exact fun _ _ gathers => gathers.goes.located
  · intro reversed state gathers
    have located' := gathers.goes.located
    have element : ∀ expr middle, Reads source state expr.outline middle →
        ∀ after, Goes source middle after → Gathers source opened.previousEnd.offset opened after
          (elementOutlines (some expr :: reversed).reverse) := by
      intro expr middle read after goes
      rw [List.reverse_cons, elementOutlines_append]
      exact (gathers.snoc (.refl located') read).goesOn goes
    apply at?_traces
    apply Yields.ite
    · intro _
      apply done_traces
      apply Yields.bind
      apply (expect_traces .rightBracket located').mono
      intro _ after ⟨_, _, closes⟩
      apply spanFrom_traces
      exact .pure ((gathers.goesOn closes.toGoes).enclosed located opens notEnd)
    · intro _
      apply Yields.bind
      apply (eat?_traces .comma located').mono
      intro eaten middle ⟨isEaten, notEaten⟩
      cases eaten with
      | true =>
          apply again_traces
          rw [List.reverse_cons, elementOutlines_append, elementOutlines, elementOutlines,
            List.append_nil]
          exact gathers.goesOn (isEaten rfl).2.toGoes
      | false =>
          rw [notEaten rfl]
          apply at?_traces
          apply Yields.ite
          · intro _
            apply Yields.bind
            apply (spread_spans reads (fun _ => inherit_spans) state located').mono
            intro expr middle read
            apply elementComma_traces read.goes.located read.marks
            exact fun after goes => again_traces (element expr middle read after goes)
          · intro _
            apply Yields.bind
            apply (inherit_spans (reads .assignment) state located').mono
            intro expr middle read
            apply elementComma_traces read.goes.located read.marks
            exact fun after goes => again_traces (element expr middle read after goes)
  · exact .nil opens.located

/-! ## Objects -/

theorem propertyKey_traces (located : before.Located source) :
    Traces source (propertyKey rules) before fun key after =>
      Gathers source before.offset before after [key.outline] := by
  apply kind_traces
  split
  · apply Yields.bind
    apply (advance_traces located).mono
    intro _ opened ⟨_, opens⟩
    apply Yields.bind
    apply (isolate_spans (reads .assignment) opened opens.located).mono
    intro key inside read
    apply Yields.bind
    apply (expect_traces .rightBracket read.goes.located).mono
    intro _ after ⟨_, _, closes⟩
    have gathers : Gathers source before.offset before inside [key.outline] :=
      ⟨opens.toGoes.trans read.goes, read.fills.between opens.offset le_rfl⟩
    exact .pure (gathers.goesOn closes.toGoes)
  · apply Yields.bind
    apply (stringLiteral_traces located).mono
    exact fun _ _ token => .pure (.single token.reads le_rfl)
  · next isNumber =>
      apply Yields.bind
      apply (numberLiteral_traces located isNumber).mono
      exact fun _ _ token => .pure (.single token.reads le_rfl)
  · apply Yields.bind
    apply (propertyName_traces located).mono
    exact fun _ _ token => .pure (.single token.reads le_rfl)

theorem shorthandProperty_traces (located : before.Located source) :
    Traces source (shorthandProperty rules before.lookahead.span.start) before
      fun property after => Reads source before property.outline after := by
  apply Yields.bind
  apply (bindingName_traces located).mono
  intro id named token
  apply at?_traces
  apply Yields.ite
  · intro _
    apply Yields.bind
    apply (advance_traces token.located).mono
    intro equal opened ⟨isEqual, steps⟩
    have marks : equal.span.start.Marks source := isEqual ▸ token.located.start
    -- Whether or not there was one before, an initializer is pending now.
    have goesOn : ∀ state : ParserState, Goes source named state →
        Traces source (isolate (rules .assignment) >>= fun value =>
          spanFrom before.lookahead.span.start >>= fun loc =>
            pure (Property.field loc (.name id) (.assign loc .plain (.ident id) value) true)) state
          fun property after => Reads source before property.outline after := by
      intro state goes
      apply Yields.bind
      apply (isolate_spans (reads .assignment) state goes.located).mono
      intro value after read
      apply spanFrom_traces
      apply Yields.pure
      have gathers : Gathers source before.offset before after [.node id.loc [], value.outline] :=
        (Gathers.single token.reads le_rfl).snoc goes read
      have size := token.reads.offset_lt.trans_le
        (goes.previousEnd.trans read.goes.previousEnd)
      have assign := gathers.node located size
      rw [Property.outline, Expr.leadingName?, if_pos (PropertyKey.isLeading_name id)]
      exact (Gathers.single assign le_rfl).node located size
    apply Yields.get
    apply Yields.ite
    · intro _
      apply Yields.modify
      apply goesOn
      have pending : ∀ position, some equal.span.start = some position →
          position.Marks source := by
        intro position found
        cases found
        exact marks
      exact ⟨{ steps.located with pending }, steps.offset, steps.previousEnd⟩
    · exact fun _ => goesOn opened steps.toGoes
  · intro _
    apply spanFrom_traces
    apply Yields.pure
    rw [Property.outline, Expr.leadingName?, if_pos (PropertyKey.isLeading_name id)]
    exact (Gathers.single token.reads le_rfl).node located token.reads.offset_lt

omit reads in
theorem isShorthand_traces {α : Type} {next : Bool → Parse α} {post : α → ParserState → Prop}
    (located : before.Located source)
    (traces : ∀ shorthand, Traces source (next shorthand) before post) :
    Traces source (isShorthand >>= next) before post := by
  apply Yields.bind
  apply kind_traces
  apply Yields.ite
  · exact fun _ => .pure (traces _)
  · exact fun _ => secondKind_traces located fun _ => .pure (traces _)

theorem property_traces (located : before.Located source) :
    Traces source (property rules) before fun property after =>
      Reads source before property.outline after := by
  apply start_traces
  apply at?_traces
  apply Yields.ite
  · intro isSpread
    apply Yields.bind
    apply (advance_traces located).mono
    intro _ opened ⟨_, opens⟩
    apply Yields.bind
    apply (inherit_spans (reads .assignment) opened opens.located).mono
    intro argument after read
    apply spanFrom_traces
    apply Yields.pure
    have gathers : Gathers source before.offset before after [argument.outline] :=
      ⟨opens.toGoes.trans read.goes, read.fills.between opens.offset le_rfl⟩
    exact gathers.node located (opens.offset.trans_lt read.offset_lt)
  · intro _
    apply isShorthand_traces located
    intro shorthand
    apply Yields.ite
    · exact fun _ => shorthandProperty_traces reads located
    · intro _
      apply Yields.bind
      apply (propertyKey_traces reads located).mono
      intro key named gathers
      apply Yields.bind
      apply (expect_traces .colon gathers.goes.located).mono
      intro _ opened ⟨_, _, opens⟩
      apply Yields.bind
      apply (inherit_spans (reads .assignment) opened opens.located).mono
      intro value after read
      apply spanFrom_traces
      apply Yields.pure
      have whole := gathers.snoc opens.toGoes read
      rw [Property.outline]
      split
      · have value : Gathers source before.offset before after [value.outline] :=
          ⟨whole.goes, whole.between.tail⟩
        exact value.node located value.between.lt
      · exact whole.node located whole.between.lt

theorem objectLiteral_spans : SpansExpr source (objectLiteral rules) := by
  intro before located
  apply start_traces
  apply Yields.bind
  apply (expect_traces .leftBrace located).mono
  intro _ opened ⟨_, isBrace, opens⟩
  have notEnd : before.lookahead.kind ≠ .endOfInput := by simp [isBrace]
  apply Yields.bind
  apply loop_traces (fun (reversed : List Property) state =>
    Gathers source opened.previousEnd.offset opened state (propertyOutlines reversed.reverse))
  · exact fun _ _ gathers => gathers.goes.located
  · intro reversed state gathers
    have located' := gathers.goes.located
    apply at?_traces
    apply Yields.ite
    · intro _
      apply done_traces
      apply Yields.bind
      apply (expect_traces .rightBrace located').mono
      intro _ after ⟨_, _, closes⟩
      apply spanFrom_traces
      exact .pure ((gathers.goesOn closes.toGoes).enclosed located opens notEnd)
    · intro _
      apply Yields.bind
      apply (property_traces reads located').mono
      intro property middle read
      apply comma_traces read.goes.located
      intro after goes
      apply again_traces
      rw [List.reverse_cons, propertyOutlines_append]
      exact (gathers.snoc (.refl located') read).goesOn goes
  · exact .nil opens.located

/-! ## Regular expressions -/

omit reads in
theorem regExpLiteral_traces (located : before.Located source)
    (notEnd : before.lookahead.kind ≠ .endOfInput) :
    Traces source regExpLiteral before fun expr after =>
      Reads source before expr.outline after := by
  apply lookahead_traces
  apply Yields.bind
  apply scan_traces
  apply (Scanner.rescanRegExp_located located.scanner located.lookahead notEnd).mono
  intro token scanner ⟨located', read, kind, start, reached⟩
  apply Yields.modify
  have offset : token.span.start.offset = before.offset := congrArg Position.offset start
  have slashed : Located source { before with scanner, lookahead := token } :=
    ⟨located', read, reached, located.previousEnd, located.behind.trans offset.ge, located.pending,
      located.commas⟩
  apply Yields.bind
  apply (advance_traces slashed).mono
  intro used after ⟨equal, uses⟩
  have equal' : used = token := equal
  rw [equal']
  have reads : Reads source before (.node token.span []) after := by
    rcases uses.token slashed (by simp [kind]) with ⟨-, goes, fills⟩
    exact ⟨⟨goes.located, offset.ge.trans goes.offset, goes.previousEnd⟩, start ▸ fills⟩
  split
  · apply ofExcept_traces
    · unfold checkRegExpFlags
      exact .ite (.ok _) (.error ⟨read.marks, rfl⟩)
    · exact fun _ _ => .pure reads
  · exact .throw read.rejects

end Parse

end ExprScript
