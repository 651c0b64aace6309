import ExprScript.Grammar.Chain
import ExprScript.Proofs.Span.Literal

/-! # Primary expressions and chains in the source

A link is read behind the expression that it belongs to, and the node of both begins
where that expression does.
-/

namespace ExprScript

namespace Parse

open ParserState

variable {source : List Char} {rules : Rules} (reads : RulesSpan source rules)
  {origin before : ParserState}

include reads

/-! ## Parentheses and arrow functions -/

theorem arrow_traces (located : origin.Located source) {items : List Expr}
    (gathers : Gathers source origin.offset origin before (itemOutlines items)) :
    Traces source (arrow rules origin.lookahead.span.start items) before fun expr after =>
      Reads source origin expr.outline after := by
  have located' := gathers.goes.located
  apply ofExcept_traces (reinterpretParameters_marks items gathers.between)
  intro params rebuilt
  apply Yields.get
  apply ofExcept_traces (.forM (checkRestCommas_marks located'.commas) params)
  intro _ _
  apply Yields.modify
  have clears : Goes source before { before with pendingInitializer := none } :=
    ⟨{ located' with pending := nofun }, le_rfl, le_rfl⟩
  apply Yields.bind
  apply (expect_traces .arrow clears.located).mono
  intro sign opened ⟨isArrow, _, steps⟩
  apply Yields.ite
  · intro _
    exact .bind (.throw (isArrow ▸ clears.located.lookahead.rejects))
  intro _
  apply at?_traces
  apply Yields.ite
  · exact fun _ => start_traces (.bind (fail_traces _ steps.located.start rfl))
  intro _
  apply Yields.bind
  apply (isolate_spans (reads .assignment) opened steps.located).mono
  intro body after read
  apply spanFrom_traces
  apply Yields.pure
  have goes := clears.trans steps.toGoes
  have whole := gathers.snoc goes read
  rw [← reinterpretParameters_outline rebuilt] at whole
  exact whole.node located ((gathers.goes.trans goes).offset.trans_lt read.offset_lt)

theorem groupItems_traces (located : before.Located source) :
    Traces source (groupItems rules) before fun group after => group.items ≠ [] ∧
      Gathers source before.previousEnd.offset before after (itemOutlines group.items) := by
  apply loop_traces (fun (reversed : List Expr) state =>
    Gathers source before.previousEnd.offset before state (itemOutlines reversed.reverse))
  · exact fun _ _ gathers => gathers.goes.located
  · intro reversed state gathers
    have located := gathers.goes.located
    have item : ∀ expr after, Reads source state expr.outline after →
        Gathers source before.previousEnd.offset before after
          (itemOutlines (expr :: reversed).reverse) := by
      intro expr after read
      rw [List.reverse_cons, itemOutlines_append]
      exact gathers.snoc (.refl located) read
    have nonempty : ∀ expr : Expr, (expr :: reversed).reverse ≠ [] := by simp
    apply at?_traces
    apply Yields.ite
    · intro _
      apply Yields.bind
      apply (spread_spans reads (fun _ => inherit_spans) state located).mono
      intro rest after read
      apply at?_traces
      apply Yields.ite
      · exact fun _ => start_traces (.bind (fail_traces _ read.goes.located.start rfl))
      · exact fun _ => done_traces ⟨nonempty rest, item rest after read⟩
    · intro _
      apply Yields.bind
      apply (inherit_spans (reads .assignment) state located).mono
      intro expr middle read
      apply Yields.bind
      apply (eat?_traces .comma read.goes.located).mono
      intro eaten after ⟨isEaten, notEaten⟩
      cases eaten with
      | false =>
          rw [notEaten rfl]
          exact done_traces ⟨nonempty expr, item expr middle read⟩
      | true =>
          have goesOn := (item expr middle read).goesOn (isEaten rfl).2.toGoes
          apply at?_traces
          apply Yields.ite
          · exact fun _ => done_traces ⟨nonempty expr, goesOn⟩
          · exact fun _ => again_traces goesOn
  · exact .nil located

omit reads in
theorem groupBody_between {items : List Expr} (nonempty : items ≠ []) {start stop : Nat}
    (between : Outline.Between source start stop (itemOutlines items)) (place : Position) :
    Outline.Between source start stop [(groupBody place items).outline] := by
  match items, nonempty with
  | [item], _ => exact between
  | first :: second :: others, _ =>
      have whole := between.enclose
      have last : ((first :: second :: others).getLast?.map (·.loc.stop)).getD place =
          ((itemOutlines (first :: second :: others)).getLast nofun).span.stop := by
        simp only [itemOutlines_eq_map, List.getLast_map, Expr.span_outline,
          List.getLast?_eq_some_getLast (List.cons_ne_nil first _), Option.map_some,
          Option.getD_some]
      rw [Expr.span_outline] at whole
      rw [groupBody, Expr.outline, last]
      · exact whole
      · simp

theorem groupOrArrow_spans (located : before.Located source)
    (notEnd : before.lookahead.kind ≠ .endOfInput) :
    Traces source (groupOrArrow rules) before fun expr after =>
      Reads source before expr.outline after := by
  apply start_traces
  apply Yields.get
  apply Yields.bind
  apply (expect_traces .leftParen located).mono
  intro _ opened ⟨_, _, opens⟩
  have within : before.offset ≤ opened.previousEnd.offset := by
    rw [opens.stop]
    exact located.lookahead.start_le_stop
  apply at?_traces
  apply Yields.ite
  · intro _
    apply Yields.bind
    apply (advance_traces opens.located).mono
    intro close after ⟨equal, closes⟩
    apply at?_traces
    apply Yields.ite
    · intro _
      exact .bind (.throw (equal ▸ opens.located.lookahead.rejects))
    · intro _
      exact arrow_traces reads located
        (((Gathers.nil opens.located).goesOn closes.toGoes).earlier opens.toGoes within)
  · intro _
    apply Yields.bind
    apply (groupItems_traces reads opens.located).mono
    intro group inside ⟨nonempty, gathers⟩
    apply Yields.bind
    apply (expect_traces .rightParen gathers.goes.located).mono
    intro close after ⟨equal, _, closes⟩
    have items := gathers.goesOn closes.toGoes
    apply at?_traces
    apply Yields.ite
    · exact fun _ => arrow_traces reads located (items.earlier opens.toGoes within)
    · intro _
      apply Yields.ite
      · exact fun _ => .throw (equal ▸ gathers.goes.located.lookahead.rejects)
      · intro _
        apply spanFrom_traces
        apply Yields.pure
        have body : Gathers source opened.previousEnd.offset opened after
            [(groupBody before.lookahead.span.start group.items).outline] :=
          ⟨items.goes, groupBody_between nonempty items.between _⟩
        exact body.enclosed located opens notEnd

theorem nameOrArrow_spans : SpansExpr source (nameOrArrow rules) := by
  intro before located
  have isName : Traces source (do return Expr.ident (← bindingName)) before fun expr after =>
      Reads source before expr.outline after := by
    apply Yields.bind
    apply (bindingName_traces located).mono
    exact fun _ _ token => .pure token.reads
  apply start_traces
  apply Yields.get
  apply Yields.ite
  · intro _
    apply secondKind_traces located
    intro _
    apply Yields.ite
    · intro _
      apply Yields.bind
      apply (bindingName_traces located).mono
      intro id named token
      exact arrow_traces reads located (.single token.reads le_rfl)
    · exact fun _ => isName
  · exact fun _ => isName

/-! ## Primary expressions -/

theorem templateLiteral_spans (located : before.Located source)
    (notEnd : before.lookahead.kind ≠ .endOfInput) :
    Traces source (templateLiteral rules) before fun expr after =>
      Reads source before expr.outline after := by
  apply Yields.bind
  apply (template_traces reads located notEnd).mono
  intro parts after ⟨gathers, size, loc⟩
  apply Yields.pure
  rw [Expr.outline, loc]
  exact gathers.node located size

theorem primary_spans : SpansExpr source (primary rules) := by
  intro before located
  have word : ∀ build : Span → Expr, (∀ loc, (build loc).outline = .node loc []) →
      before.lookahead.kind ≠ .endOfInput → Traces source (do return build (← advance).span) before
        fun expr after => Reads source before expr.outline after := by
    intro build outline notEnd
    apply Yields.bind
    apply (advance_traces located).mono
    intro token after ⟨equal, uses⟩
    apply Yields.pure
    rw [outline, equal]
    exact (uses.token located notEnd).reads
  apply kind_traces
  split
  · exact nameOrArrow_spans reads before located
  · next isNumber =>
      apply Yields.bind
      apply (numberLiteral_traces located isNumber).mono
      exact fun _ _ token => .pure token.reads
  · apply Yields.bind
    apply (stringLiteral_traces located).mono
    exact fun _ _ token => .pure token.reads
  · next isWord => exact word (.boolean · true) (fun _ => rfl) (by simp [isWord])
  · next isWord => exact word (.boolean · false) (fun _ => rfl) (by simp [isWord])
  · next isWord => exact word .null (fun _ => rfl) (by simp [isWord])
  · next isWord => exact word .this (fun _ => rfl) (by simp [isWord])
  · next isTemplate => exact templateLiteral_spans reads located (by simp [isTemplate])
  · next isTemplate => exact templateLiteral_spans reads located (by simp [isTemplate])
  · exact arrayLiteral_spans reads before located
  · exact objectLiteral_spans reads before located
  · next isParen => exact groupOrArrow_spans reads located (by simp [isParen])
  · next isSlash => exact regExpLiteral_traces located (by simp [isSlash])
  · next isSlash => exact regExpLiteral_traces located (by simp [isSlash])
  · exact unexpected_traces located

/-! ## Links

The expression that a link belongs to has been read since some place, and the node of
both is read from there on.
-/

section

variable {owner : Expr} (placed : origin.Located source)
  (gathers : Gathers source origin.offset origin before [owner.outline]) (optional : Bool)

include placed gathers

omit reads in
theorem namedMember_traces :
    Traces source (namedMember origin.lookahead.span.start owner optional) before
      fun expr after => Reads source origin expr.outline after := by
  have located := gathers.goes.located
  apply Yields.bind
  apply (propertyName_traces located).mono
  intro id after token
  apply spanFrom_traces
  apply Yields.pure
  have whole := gathers.snoc (.refl located) token.reads
  exact whole.node placed whole.between.lt

theorem bracketMember_traces :
    Traces source (bracketMember rules origin.lookahead.span.start owner optional) before
      fun expr after => Reads source origin expr.outline after := by
  apply Yields.bind
  apply (computedMember_traces reads gathers.goes.located).mono
  intro key after part
  apply spanFrom_traces
  apply Yields.pure
  have whole := gathers.append part
  exact whole.node placed whole.between.lt

theorem callWith_traces :
    Traces source (callWith rules origin.lookahead.span.start owner optional) before
      fun expr after => Reads source origin expr.outline after := by
  apply Yields.bind
  apply (arguments_traces reads gathers.goes.located).mono
  intro args after parts
  apply spanFrom_traces
  apply Yields.pure
  have whole := gathers.append parts
  exact whole.node placed whole.between.lt

theorem taggedTemplate_traces (notEnd : before.lookahead.kind ≠ .endOfInput) :
    Traces source (taggedTemplate rules origin.lookahead.span.start owner) before
      fun expr after => Reads source origin expr.outline after := by
  have located := gathers.goes.located
  apply Yields.bind
  apply (template_traces reads located notEnd).mono
  intro parts after ⟨pieces, size, loc⟩
  apply spanFrom_traces
  apply Yields.pure
  have whole := gathers.snoc (.refl located) (pieces.node located size)
  rw [Expr.outline, loc]
  exact whole.node placed whole.between.lt

theorem optionalLink_traces :
    Traces source (optionalLink rules origin.lookahead.span.start owner) before
      fun expr after => Reads source origin expr.outline after := by
  apply kind_traces
  split
  · exact callWith_traces reads placed gathers true
  · exact bracketMember_traces reads placed gathers true
  · apply Yields.ite
    · exact fun _ => start_traces (.bind (fail_traces _ gathers.goes.located.start rfl))
    · exact fun _ => namedMember_traces placed gathers true

end

/-! ## Constructions -/

theorem constructor_spans : SpansExpr source (constructor rules) := by
  intro before located
  apply kind_traces
  apply Yields.iteBind
  have first : Traces source (if before.lookahead.kind == .keyword .newWord then
      rules .construction else primary rules) before fun expr after =>
        Reads source before expr.outline after := by
    apply Yields.ite
    · exact fun _ => reads .construction before located
    · exact fun _ => primary_spans reads before located
  apply first.mono
  intro first middle read
  have start := read.start_eq
  dsimp only
  rw [start]
  apply loop_traces (fun (callee : Expr) state => Reads source before callee.outline state)
  · exact fun _ _ read => read.goes.located
  · intro callee state read
    have located' := read.goes.located
    have head := Gathers.single read le_rfl
    apply kind_traces
    split
    · apply Yields.bind
      apply (advance_traces located').mono
      intro _ opened ⟨_, uses⟩
      exact againWith_traces (namedMember_traces located (head.goesOn uses.toGoes) false)
    · exact againWith_traces (bracketMember_traces reads located head false)
    · next isTemplate =>
        exact againWith_traces (taggedTemplate_traces reads located head (by simp [isTemplate]))
    · next isTemplate =>
        exact againWith_traces (taggedTemplate_traces reads located head (by simp [isTemplate]))
    · exact start_traces (fail_traces _ located'.start rfl)
    · exact done_traces read
  · exact read

theorem construction_spans : SpansExpr source (construction rules) := by
  intro before located
  apply start_traces
  apply Yields.bind
  apply (advance_traces located).mono
  intro _ opened ⟨_, opens⟩
  apply at?_traces
  apply Yields.ite
  · exact fun _ => .bind (unexpected_traces opens.located)
  intro _
  apply Yields.bind
  apply (constructor_spans reads opened opens.located).mono
  intro callee middle read
  have head : Gathers source before.offset before middle [callee.outline] :=
    ⟨opens.toGoes.trans read.goes, read.fills.between opens.offset le_rfl⟩
  have args : Traces source (if middle.lookahead.kind == .punctuator .leftParen then
      arguments rules else pure []) middle fun args after =>
        Gathers source middle.previousEnd.offset middle after (itemOutlines args) := by
    apply Yields.ite
    · exact fun _ => arguments_traces reads read.goes.located
    · exact fun _ => .pure (.nil read.goes.located)
  apply at?_traces
  apply Yields.iteBind
  apply args.mono
  intro args after parts
  apply spanFrom_traces
  apply Yields.pure
  have whole := head.append parts
  exact whole.node located whole.between.lt

/-! ## Chains -/

theorem links_traces (placed : origin.Located source) {first : Expr}
    (read : Reads source origin first.outline before) :
    Traces source (links rules origin.lookahead.span.start first) before fun expr after =>
      Reads source origin expr.outline after := by
  apply loop_traces (fun (chain : Expr × Bool) state => Reads source origin chain.1.outline state)
  · exact fun _ _ read => read.goes.located
  · intro ⟨expr, afterOptional⟩ state read
    have located := read.goes.located
    have head := Gathers.single read le_rfl
    have tagged : state.lookahead.kind ≠ .endOfInput → Traces source (do
        if afterOptional then fail .taggedOptionalChain (← Parse.start)
        return Round.again (← taggedTemplate rules origin.lookahead.span.start expr, afterOptional))
        state fun (outcome : Round (Expr × Bool) Expr) after => outcome.Holds
          (fun chain => Reads source origin chain.1.outline after)
          fun expr => Reads source origin expr.outline after := by
      intro notEnd
      apply Yields.ite
      · exact fun _ => start_traces (.bind (fail_traces _ located.start rfl))
      · exact fun _ => againWith_traces (taggedTemplate_traces reads placed head notEnd)
    apply kind_traces
    split
    · apply Yields.bind
      apply (advance_traces located).mono
      intro _ opened ⟨_, uses⟩
      exact againWith_traces (namedMember_traces placed (head.goesOn uses.toGoes) false)
    · exact againWith_traces (bracketMember_traces reads placed head false)
    · exact againWith_traces (callWith_traces reads placed head false)
    · apply Yields.bind
      apply (advance_traces located).mono
      intro _ opened ⟨_, uses⟩
      exact againWith_traces (optionalLink_traces reads placed (head.goesOn uses.toGoes))
    · next isTemplate => exact tagged (by simp [isTemplate])
    · next isTemplate => exact tagged (by simp [isTemplate])
    · exact done_traces read
  · exact read

theorem chain_spans : SpansExpr source (chain rules) := by
  intro before located
  have first : Traces source (if before.lookahead.kind == .keyword .newWord then
      construction rules else primary rules) before fun expr after =>
        Reads source before expr.outline after := by
    apply Yields.ite
    · exact fun _ => construction_spans reads before located
    · exact fun _ => primary_spans reads before located
  apply start_traces
  apply kind_traces
  apply Yields.iteBind
  apply first.mono
  intro expr middle read
  dsimp only
  split
  · exact .pure read
  · exact links_traces reads located read

end Parse

end ExprScript
