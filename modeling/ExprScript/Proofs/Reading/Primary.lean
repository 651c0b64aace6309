import ExprScript.Proofs.Reading.Literal

/-! # Reading primary expressions

Parentheses and arrow functions start alike. What stands between the parentheses is
read as a list of expressions, and becomes parameters when the arrow follows.
-/

namespace ExprScript

open Reader Scanner ParserState

/-! ## Patterns without commas behind a rest -/

namespace Pattern

mutual

theorem restComma?_nil : ∀ pattern : Pattern, pattern.restComma? [] = none
  | .ident _ => by rw [restComma?]
  | .array _ elements => by rw [restComma?, elementsRestComma?_nil elements]
  | .object _ properties => by rw [restComma?, propertiesRestComma?_nil properties]
  | .rest _ argument => by
      rw [restComma?]
      exact restComma?_nil argument
  | .withDefault _ target _ => by rw [restComma?, restComma?_nil target]

theorem elementsRestComma?_nil : ∀ elements : List (Option Pattern),
    elementsRestComma? [] elements = none
  | [] => by rw [elementsRestComma?]
  | none :: elements => by rw [elementsRestComma?, elementsRestComma?_nil elements]
  | some pattern :: elements => by
      rw [elementsRestComma?, restComma?_nil pattern, elementsRestComma?_nil elements]
      rfl

theorem propertiesRestComma?_nil : ∀ properties : List PatternProperty,
    propertiesRestComma? [] properties = none
  | [] => by rw [propertiesRestComma?]
  | .field _ _ value _ :: properties => by
      rw [propertiesRestComma?, restComma?_nil value, propertiesRestComma?_nil properties]
      rfl
  | .rest _ argument :: properties => by
      rw [propertiesRestComma?, restComma?_nil argument, propertiesRestComma?_nil properties]
      rfl

end

theorem checkRestCommas_nil (pattern : Pattern) : checkRestCommas [] pattern = .ok () := by
  rw [checkRestCommas, restComma?_nil]

theorem forM_checkRestCommas_nil (patterns : List Pattern) :
    patterns.forM (checkRestCommas []) = .ok () := by
  induction patterns with
  | nil => rfl
  | cons pattern patterns induction =>
      rw [List.forM, checkRestCommas_nil]
      exact induction

end Pattern

namespace Parse

variable {β : Type} {state : ParserState} {post : β → ParserState → Prop}
  {rest : List Lexeme} {rules : Rules} {size : Nat}

/-! ## Arrow functions -/

theorem body_ne_brace {body : Expr} (holds : body.Everywhere legible)
    (noBrace : startsWith body.print '\x7b' = false)
    (facing : state.Facing (body.lexemes ++ rest)) :
    state.lookahead.kind ≠ .punctuator .leftBrace := by
  rcases body.opens holds with ⟨c, chars, lexeme, others, text, equal, -, brace, -⟩
  rw [equal] at facing
  rcases facing.kind_or with kind | ⟨-, kind | kind⟩
  · rw [kind]
    intro isBrace
    rw [startsWith, text, brace isBrace] at noBrace
    cases noBrace
  · rw [kind]
    rintro ⟨⟩
  · rw [kind]
    rintro ⟨⟩

theorem arrow_reads (hold : RulesRead rules size) {loc : Span} {params : List Pattern}
    {body : Expr} (holds : (Expr.arrow loc params body).Everywhere legible)
    (small : body.lexemes.length < size) {items : List Expr}
    (same : eraseItems items = eraseItems (params.map Pattern.cover)) (start : Position)
    (facing : state.Facing (.mark .arrow :: (body.lexemes ++ rest)))
    (stops : (nextKind rest).continues < Precedence.assignment) :
    Achieves (arrow rules start items) state fun found after =>
      found.erase = (Expr.arrow loc params body).erase ∧ state.Reaches rest False after ∧
        after.pendingInitializer = none := by
  rcases holds with ⟨⟨shape, settles, noBrace⟩, inside, bodyInside⟩
  rcases Pattern.reinterpretParameters_of_erase same inside shape with ⟨found, run, alike⟩
  have checked : found.forM (checkRestCommas state.trailingCommas) = .ok () := by
    rw [facing.noCommas, Pattern.forM_checkRestCommas_nil]
  refine ofExcept_then run (.get (ofExcept_then checked (.modify ?_)))
  have facing : Facing { state with pendingInitializer := none }
      (.mark .arrow :: (body.lexemes ++ rest)) := ⟨facing.1, facing.2, facing.3⟩
  have sameLine : state.lookahead.newlineBefore = false := facing.sameLine
  refine expect_then facing fun middle reaches => .iteFalse (by simp [sameLine]) ?_
  refine at?_false (body_ne_brace bodyInside noBrace reaches.facing) (.iteFalse (by simp) (.bind ?_))
  refine (isolated_reads hold bodyInside small settles reaches.facing stops).mono ?_
  rintro found' after ⟨same', reaches'⟩
  have whole := reaches.andThen reaches'
  refine spanFrom_then fun loc => .pure ⟨?_, ⟨whole.facing, whole.start, nofun⟩, whole.pending trivial⟩
  rw [Expr.erase, Expr.erase, alike, same']

/-! ## Parentheses -/

def withCommas : List Expr → List Lexeme
  | [] => []
  | item :: items => item.lexemes ++ .mark .comma :: withCommas items

theorem separated_concat (items : List Expr) (last : Expr) :
    separated (itemsLexemes (items ++ [last])) = withCommas items ++ last.lexemes := by
  induction items with
  | nil => rfl
  | cons first items induction =>
      have continues : continued (itemsLexemes (items ++ [last])) =
          .mark .comma :: separated (itemsLexemes (items ++ [last])) := by
        cases items <;> rfl
      rw [List.cons_append, itemsLexemes, separated_cons, continues, induction, withCommas,
        List.append_assoc]
      rfl

theorem items_ne_close {items : List Expr} {last : Expr}
    (each : ∀ item ∈ items, item.Everywhere legible) (holds : last.Everywhere legible)
    (facing : state.Facing (withCommas items ++ (last.lexemes ++ rest))) :
    state.lookahead.kind ≠ .punctuator .rightParen := by
  cases items with
  | nil => exact item_ne_mark holds rfl nofun facing
  | cons first items =>
      rw [withCommas, List.append_assoc] at facing
      exact item_ne_mark (each first (List.mem_cons_self ..)) rfl nofun facing

/-- Between parentheses, only the last item may be a spread. -/
theorem groupItems_reads (hold : RulesRead rules size) {items : List Expr} {last : Expr}
    (readable : ∀ item ∈ items, ReadableItem size item ∧ item.isSpread = false)
    (readableLast : ReadableItem size last)
    (facing : state.Facing (withCommas items ++ (last.lexemes ++ .mark .rightParen :: rest))) :
    Achieves (groupItems rules) state fun found after =>
      eraseItems found.items = eraseItems (items ++ [last]) ∧
        found.parametersOnly = last.isSpread ∧
        state.Reaches (.mark .rightParen :: rest)
          (∀ item ∈ items ++ [last], item.hasInitializer = false) after := by
  refine loop_items withCommas (fun found item => found.erase = item.erase)
    (fun item => ReadableItem size item ∧ item.isSpread = false)
    (fun item => item.hasInitializer = false) readable facing ?_ ?_
  · rintro item items reversed state ⟨readable, notSpread⟩ later facing
    rw [withCommas, List.append_assoc, List.cons_append] at facing
    refine ⟨by rw [withCommas, List.length_append, List.length_cons]; omega, ?_⟩
    have starts := Expr.mayStart_of_facing readable.legible notSpread facing
    refine at?_false (TokenKind.ne_of_mayStart starts rfl) (.iteFalse (by simp) (.bind ?_))
    refine (inherited_reads hold readable.legible readable.small ⟨notSpread, readable.tight⟩
      facing (Nat.lt_succ_self _)).mono ?_
    rintro found middle ⟨same, reaches⟩
    refine eat?_true reaches.facing fun after reaches' => .iteFalse (by simp) ?_
    refine at?_false ?_ (.iteFalse (by simp) (.pure ⟨found, rfl, same, reaches.afterwards reaches'⟩))
    exact items_ne_close (fun item member => (later item member).1.legible) readableLast.legible
      reaches'.facing
  · intro found middle alike reaches
    have facing : middle.Facing (last.lexemes ++ .mark .rightParen :: rest) := reaches.facing
    have erased : ∀ last' : Expr, last'.erase = last.erase →
        eraseItems (last' :: (found.reverse ++ [])).reverse = eraseItems (items ++ [last]) := by
      intro last' same
      rw [List.append_nil, List.reverse_cons, List.reverse_reverse]
      exact eraseItems_of_forall₂ (List.rel_append alike (.cons same .nil))
    have calm : (∀ item ∈ items ++ [last], item.hasInitializer = false) →
        (∀ item ∈ items, item.hasInitializer = false) ∧ last.hasInitializer = false := by
      simp +contextual [or_imp, forall_and]
    cases isSpread : last.isSpread with
    | true =>
        cases last with
        | spread loc argument =>
            refine at?_true (by rw [Expr.lexemes] at facing; exact facing.mark) (.iteTrue rfl ?_)
            refine .bind ((spread_reads hold readableLast (wraps_inherit argument) facing
              Nat.zero_lt_two).mono ?_)
            rintro last' after ⟨same, reaches'⟩
            refine at?_true reaches'.facing.mark (.iteFalse (by simp) (.pure ?_))
            refine ⟨erased last' same, rfl, (reaches.trans reaches').mono fun settled => ?_⟩
            simpa [Expr.hasInitializer] using calm settled
        | _ => cases isSpread
    | false =>
        have starts := Expr.mayStart_of_facing readableLast.legible isSpread facing
        refine at?_false (TokenKind.ne_of_mayStart starts rfl) (.iteFalse (by simp) (.bind ?_))
        refine (inherited_reads hold readableLast.legible readableLast.small
          ⟨isSpread, readableLast.tight⟩ facing Nat.zero_lt_two).mono ?_
        rintro last' after ⟨same, reaches'⟩
        refine eat?_false (by rw [reaches'.facing.mark]; nofun) (.iteTrue rfl (.pure ?_))
        exact ⟨erased last' same, rfl, (reaches.trans reaches').mono calm⟩

theorem groupBody_several (start : Position) {items : List Expr} (several : 2 ≤ items.length) :
    (groupBody start items).erase = .sequence {} (eraseItems items) := by
  match items with
  | first :: second :: items => rw [groupBody, Expr.erase]; nofun

/-- What stands between parentheses is a list of items, one or several. -/
theorem group_items {inner : Expr} (holds : inner.Everywhere legible)
    (settles : inner.Settles Precedence.sequence) :
    ∃ items last, inner.lexemes = withCommas items ++ last.lexemes ∧
      (∀ item ∈ items ++ [last], item.Everywhere legible ∧ item.Settles Precedence.assignment) ∧
      ∀ start found, eraseItems found = eraseItems (items ++ [last]) →
        (groupBody start found).erase = inner.erase := by
  rcases settles.sequence_or holds.1 with ⟨loc, items, rfl⟩ | binds
  · rcases holds with ⟨⟨several, each⟩, inside⟩
    rcases List.eq_nil_or_concat items with rfl | ⟨items, last, rfl⟩
    · simp at several
    · rw [List.concat_eq_append] at several each inside ⊢
      refine ⟨items, last, by rw [Expr.lexemes, separated_concat], fun item member => ?_, fun start found same => ?_⟩
      · exact ⟨(itemsInside_iff legible _).mp inside item member, each item member⟩
      · have lengths : found.length = (items ++ [last]).length := by
          simpa [eraseItems_eq_map] using congrArg List.length same
        rw [groupBody_several start (by omega), Expr.erase, same]
  · refine ⟨[], inner, rfl, ?_, fun start found same => ?_⟩
    · simpa using ⟨holds, ⟨binds, settles.settled⟩⟩
    · match found with
      | [] => simp [eraseItems] at same
      | [single] => exact (List.cons.inj same).1
      | first :: second :: found => simp [eraseItems] at same

theorem paren_reads (hold : RulesRead rules size) {loc : Span} {inner : Expr}
    (holds : (Expr.paren loc inner).Everywhere legible)
    (small : (Expr.paren loc inner).lexemes.length ≤ size)
    (stops : (nextKind rest).continues < Precedence.primary) :
    (Expr.paren loc inner).ReadBy Expr.anywhere (groupOrArrow rules) rest := by
  intro state facing _ _
  rcases holds with ⟨settles, inside⟩
  rcases group_items inside settles with ⟨items, last, equal, each, grouped⟩
  have readable : ∀ item ∈ items ++ [last], ReadableItem size item := by
    intro item member
    refine ⟨(each item member).1, ?_, (each item member).2.tight⟩
    have within : item.lexemes.length ≤ inner.lexemes.length := by
      rw [equal, ← separated_concat, itemsLexemes_eq_map]
      exact length_le_separated (List.mem_map_of_mem member)
    rw [Expr.lexemes, length_enclosed] at small
    omega
  have readableLast := readable last (List.mem_append_right _ (List.mem_singleton_self _))
  have notSpread := (each last (List.mem_append_right _ (List.mem_singleton_self _))).2.notSpread
  have facing : state.Facing (.mark .leftParen ::
      (withCommas items ++ (last.lexemes ++ .mark .rightParen :: rest))) := by
    rwa [Expr.lexemes, enclosed, List.cons_append, List.append_assoc, equal,
      List.append_assoc] at facing
  refine start_then (.get (expect_then facing fun middle reaches => ?_))
  refine at?_false ?_ (.iteFalse (by simp) (.bind ?_))
  · exact items_ne_close (fun item member => (readable item (List.mem_append_left _ member)).legible)
      readableLast.legible reaches.facing
  · refine (groupItems_reads hold (fun item member => ?_) readableLast reaches.facing).mono ?_
    · have member := List.mem_append_left [last] member
      exact ⟨readable item member, (each item member).2.notSpread⟩
    · rintro group after ⟨same, only, reaches'⟩
      refine expect_then reaches'.facing fun final reaches'' => ?_
      refine at?_false (Expr.ne_mark_of_facing reaches''.facing stops (Nat.le_refl _)) ?_
      refine .iteFalse (by simp) (.iteFalse (by simp [only, notSpread]) ?_)
      refine spanFrom_then fun loc => .pure ⟨?_, ?_⟩
      · rw [Expr.erase, Expr.erase, grouped _ _ same]
      · refine (reaches.andThen (reaches'.afterwards reaches'')).mono fun _ item member => ?_
        exact (each item member).2.settled

theorem itemsLexemes_cover (params : List Pattern) :
    itemsLexemes (params.map Pattern.cover) = patternsLexemes params := by
  rw [itemsLexemes_eq_map, patternsLexemes_eq_map, List.map_map]
  exact List.map_congr_left fun param _ => Pattern.lexemes_cover param

theorem arrowGroup_reads (hold : RulesRead rules size) {loc : Span} {params : List Pattern}
    {body : Expr} (holds : (Expr.arrow loc params body).Everywhere legible)
    (small : (Expr.arrow loc params body).lexemes.length ≤ size)
    (stops : (nextKind rest).continues < Precedence.assignment) :
    (Expr.arrow loc params body).ReadBy Expr.atStart (groupOrArrow rules) rest := by
  intro state facing clear atStart
  rw [Expr.lexemes, List.length_append, length_enclosed, List.length_cons] at small
  have bodySmall : body.lexemes.length < size := by omega
  have facing : state.Facing (.mark .leftParen :: (separated (patternsLexemes params) ++
      .mark .rightParen :: .mark .arrow :: (body.lexemes ++ rest))) := by
    simpa [Expr.lexemes, enclosed] using facing
  have mayBeArrow : (state.lookahead.span.start.offset == state.assignmentStart) = true :=
    beq_iff_eq.mpr atStart
  -- In the end nothing is pending, like in the beginning.
  have whole : ∀ {middle after : ParserState}, state.Reaches (.mark .arrow :: (body.lexemes ++ rest))
      False middle → middle.Reaches rest False after → after.pendingInitializer = none →
      state.Reaches rest ((Expr.arrow loc params body).hasInitializer = false) after :=
    fun first second none => ⟨second.facing, second.start.trans first.start, fun _ => none.trans clear.symm⟩
  refine start_then (.get (expect_then facing fun middle reaches => ?_))
  rcases List.eq_nil_or_concat params with rfl | ⟨params, last, rfl⟩
  · have facing : middle.Facing
        (.mark .rightParen :: .mark .arrow :: (body.lexemes ++ rest)) := reaches.facing
    refine at?_true facing.mark (.iteTrue rfl ?_)
    refine advance_then facing (by decide) fun second _ reaches' => ?_
    refine at?_true reaches'.facing.mark (.iteFalse (by simp [mayBeArrow]) ?_)
    refine (arrow_reads hold holds bodySmall rfl _ reaches'.facing stops).mono ?_
    rintro found after ⟨same, final, none⟩
    exact ⟨same, whole ((reaches.andThen reaches').mono False.elim) final none⟩
  · rw [List.concat_eq_append] at holds small reaches whole ⊢
    have readable : ∀ param ∈ params ++ [last], ReadableItem size param.cover := by
      intro param member
      have legible := (patternsInside_iff legible _).mp holds.2.1 param member
      refine ⟨param.legible_cover legible, ?_, param.precedence_cover⟩
      have within : param.cover.lexemes.length ≤
          (separated (patternsLexemes (params ++ [last]))).length := by
        rw [patternsLexemes_eq_map, param.lexemes_cover]
        exact length_le_separated (List.mem_map_of_mem member)
      omega
    have readableLast := readable last (List.mem_append_right _ (List.mem_singleton_self _))
    have facing := reaches.facing
    rw [← itemsLexemes_cover, List.map_append, List.map_cons, List.map_nil, separated_concat,
      List.append_assoc] at facing
    refine at?_false ?_ (.iteFalse (by simp) (.bind ?_))
    · refine items_ne_close (fun item member => ?_) readableLast.legible facing
      rcases List.mem_map.mp member with ⟨param, within, rfl⟩
      exact (readable param (List.mem_append_left _ within)).legible
    · refine (groupItems_reads hold (fun item member => ?_) readableLast facing).mono ?_
      · rcases List.mem_map.mp member with ⟨param, within, rfl⟩
        refine ⟨readable param (List.mem_append_left _ within), Pattern.isSpread_cover ?_⟩
        exact holds.1.1.rest param (by simpa using within)
      · rintro group second ⟨same, -, reaches'⟩
        refine expect_then reaches'.facing fun third reaches'' => ?_
        refine at?_true reaches''.facing.mark (.iteTrue (by simp [mayBeArrow]) ?_)
        refine (arrow_reads hold holds bodySmall ?_ _ reaches''.facing stops).mono ?_
        · rw [same, List.map_append]
          rfl
        · rintro found after ⟨same', final, none⟩
          have before := reaches.andThen (reaches'.afterwards reaches'')
          exact ⟨same', whole (before.mono False.elim) final none⟩

/-! ## Primary expressions -/

theorem name_reads {id : Ident} (holds : (Expr.ident id).Everywhere legible)
    (stops : (nextKind rest).continues < Precedence.primary) :
    (Expr.ident id).ReadBy Expr.anywhere (nameOrArrow rules) rest := by
  intro state facing _ _
  rw [Expr.lexemes] at facing
  have isName : kindOfWord id.name = .identifier := holds.1.2
  have named : Achieves (bindingName >>= fun found => return Expr.ident found) state
      fun found after => found.erase = (Expr.ident id).erase ∧
        state.Reaches rest ((Expr.ident id).hasInitializer = false) after := by
    refine bindingName_then facing isName fun found after same reaches => .pure ⟨?_, ?_⟩
    · rw [Expr.erase, Expr.erase, same]
    · exact reaches.mono fun _ => trivial
  refine start_then (.get ?_)
  split
  · refine secondKind_then facing (kindOfWord_known _) fun kind isSecond => ?_
    refine .iteFalse ?_ named
    have notArrow : kind ≠ .punctuator .arrow := by
      rcases isSecond with rfl | ⟨isRegExp, -⟩
      · exact TokenKind.ne_of_continues stops (Nat.le_refl _)
      · exact absurd isRegExp (TokenKind.notRegExp_of_continues stops)
    simpa using notArrow
  · exact named

/-- A keyword that stands for a value. -/
theorem keyword_reads {expr : Expr} (name : String) (make : Token → Expr)
    (equal : expr.lexemes = [.word name])
    (made : ∀ token, (make token).erase = expr.erase)
    (facing : state.Facing (expr.lexemes ++ rest)) :
    Achieves (advance >>= fun token => return make token) state fun found after =>
      found.erase = expr.erase ∧ state.Reaches rest (expr.hasInitializer = false) after := by
  rw [equal] at facing
  refine advance_then facing (kindOfWord_known name) fun after _ reaches => .pure ⟨made _, ?_⟩
  exact reaches.mono fun _ => trivial

theorem template_readable {quasis : List Quasi} {holes : List Expr}
    (legible : TemplateLegible quasis holes) (inside : itemsInside ExprScript.legible holes)
    (small : (templateLexemes false quasis (itemsLexemes holes)).length ≤ size) :
    ∀ hole ∈ holes, ReadableHole size hole := by
  intro hole member
  refine ⟨(itemsInside_iff _ holes).mp inside hole member, ?_, legible.holes hole member⟩
  have count : quasis.length = (itemsLexemes holes).length + 1 := by
    rw [itemsLexemes_eq_map, List.length_map, legible.count]
  refine Nat.lt_of_lt_of_le (length_lt_templateLexemes count false ?_) small
  rw [itemsLexemes_eq_map]
  exact List.mem_map_of_mem member

theorem primary_reads (hold : RulesRead rules size) {expr : Expr}
    (holds : expr.Everywhere legible) (small : expr.lexemes.length ≤ size)
    (isAtomic : expr.Atomic) (stops : (nextKind rest).continues < Precedence.primary) :
    expr.ReadBy Expr.anywhere (primary rules) rest := by
  intro state facing clear _
  refine kind_then ?_
  cases isAtomic with
  | null loc =>
      have kind : state.lookahead.kind = .keyword .nullWord := by
        rw [Expr.lexemes] at facing
        exact facing.kind nofun
      rw [kind]
      exact keyword_reads "null" (fun token => .null token.span) (by rw [Expr.lexemes])
        (fun _ => by rw [Expr.erase, Expr.erase]) facing
  | boolean loc value =>
      cases value with
      | true =>
          have kind : state.lookahead.kind = .keyword .trueWord := by
            rw [Expr.lexemes] at facing
            exact facing.kind nofun
          rw [kind]
          exact keyword_reads "true" (fun token => .boolean token.span true) (by rw [Expr.lexemes]; rfl)
            (fun _ => by rw [Expr.erase, Expr.erase]) facing
      | false =>
          have kind : state.lookahead.kind = .keyword .falseWord := by
            rw [Expr.lexemes] at facing
            exact facing.kind nofun
          rw [kind]
          exact keyword_reads "false" (fun token => .boolean token.span false)
            (by rw [Expr.lexemes]; rfl) (fun _ => by rw [Expr.erase, Expr.erase]) facing
  | this loc =>
      have kind : state.lookahead.kind = .keyword .thisWord := by
        rw [Expr.lexemes] at facing
        exact facing.kind nofun
      rw [kind]
      exact keyword_reads "this" (fun token => .this token.span) (by rw [Expr.lexemes])
        (fun _ => by rw [Expr.erase, Expr.erase]) facing
  | ident id =>
      have kind : state.lookahead.kind = .identifier := by
        rw [Expr.lexemes] at facing
        exact (facing.kind (kindOfWord_known _)).trans holds.1.2
      rw [kind]
      exact name_reads holds stops state facing clear trivial
  | number literal =>
      rw [Expr.lexemes] at facing
      have kind : state.lookahead.kind = .numericLiteral := facing.kind nofun
      rw [kind]
      refine numberLiteral_then holds.1.1 facing fun found after same reaches => .pure ⟨?_, ?_⟩
      · rw [Expr.erase, Expr.erase, same]
      · exact reaches.mono fun _ => trivial
  | string literal =>
      rw [Expr.lexemes] at facing
      have kind : state.lookahead.kind = .stringLiteral := facing.kind nofun
      rw [kind]
      refine stringLiteral_then facing fun found after same reaches => .pure ⟨?_, ?_⟩
      · rw [Expr.erase, Expr.erase, same]
      · exact reaches.mono fun _ => trivial
  | regExp loc pattern flags =>
      have slash : state.lookahead.kind = .punctuator .slash ∨
          state.lookahead.kind = .punctuator .slashEqual := by
        rw [Expr.lexemes] at facing
        cases facing.ahead with
        | token _ known => exact absurd rfl known
        | regExp slash => exact slash
      have read := regExpLiteral_reads holds.1.2 state facing clear trivial
      rcases slash with kind | kind <;> rw [kind] <;> exact read
  | template loc quasis holes =>
      rcases holds with ⟨legible, inside⟩
      rw [Expr.lexemes] at facing small
      have readable := template_readable legible inside small
      have read : Achieves (templateLiteral rules) state fun found after =>
          found.erase = (Expr.template loc quasis holes).erase ∧
            state.Reaches rest ((Expr.template loc quasis holes).hasInitializer = false) after := by
        refine .bind ((template_reads hold legible readable facing).mono ?_)
        rintro parts after ⟨same, same', reaches⟩
        refine .pure ⟨?_, reaches.mono fun _ => trivial⟩
        rw [Expr.erase, Expr.erase, same, same']
      rcases kind_template legible facing with kind | kind <;> rw [kind] <;> exact read
  | array loc elements =>
      rcases holds with ⟨tight, inside⟩
      have kind : state.lookahead.kind = .punctuator .leftBracket := by
        rw [Expr.lexemes] at facing
        exact facing.mark
      rw [kind]
      refine arrayLiteral_reads hold (fun element member => ?_) state facing clear trivial
      rintro item rfl
      refine ⟨(elementsInside_iff legible elements).mp inside item member, ?_, tight item member⟩
      rw [Expr.lexemes, length_enclosed, elementsLexemes_eq_map] at small
      have within := length_le_separatedElements (List.mem_map_of_mem (f := Option.map Expr.lexemes) member)
      omega
  | object loc properties =>
      rcases holds with ⟨shapes, inside⟩
      have kind : state.lookahead.kind = .punctuator .leftBrace := by
        rw [Expr.lexemes] at facing
        exact facing.mark
      rw [kind]
      refine objectLiteral_reads hold (fun property member => ?_) state facing clear trivial
      refine ⟨shapes property member, (propertiesInside_iff legible properties).mp inside property member, ?_⟩
      rw [Expr.lexemes, length_enclosed, propertiesLexemes_eq_map] at small
      have within := length_le_separated (List.mem_map_of_mem (f := Property.lexemes) member)
      omega
  | paren loc inner =>
      have kind : state.lookahead.kind = .punctuator .leftParen := by
        rw [Expr.lexemes] at facing
        exact facing.mark
      rw [kind]
      exact paren_reads hold holds small stops state facing clear trivial

theorem primary_ne_new {expr : Expr} (holds : expr.Everywhere legible)
    (isAtomic : expr.Atomic) (facing : state.Facing (expr.lexemes ++ rest)) :
    state.lookahead.kind ≠ .keyword .newWord := by
  have others : ∀ lexeme others, expr.lexemes = lexeme :: others → lexeme.1 ≠ .keyword .newWord →
      state.lookahead.kind ≠ .keyword .newWord := by
    intro lexeme others equal notNew
    rw [equal] at facing
    rcases facing.kind_or with kind | ⟨-, kind | kind⟩ <;> rw [kind]
    · exact notNew
    · rintro ⟨⟩
    · rintro ⟨⟩
  cases isAtomic with
  | ident id =>
      refine others _ _ (by rw [Expr.lexemes]) ?_
      change kindOfWord id.name ≠ _
      rw [show kindOfWord id.name = .identifier from holds.1.2]
      rintro ⟨⟩
  | template loc quasis holes =>
      rw [Expr.lexemes] at facing
      rcases kind_template holds.1 facing with kind | kind <;> rw [kind] <;> rintro ⟨⟩
  | null => exact others (.word "null") [] (by rw [Expr.lexemes]) (by rintro ⟨⟩)
  | boolean _ value =>
      cases value with
      | true => exact others (.word "true") [] (by rw [Expr.lexemes]; rfl) (by rintro ⟨⟩)
      | false => exact others (.word "false") [] (by rw [Expr.lexemes]; rfl) (by rintro ⟨⟩)
  | this => exact others (.word "this") [] (by rw [Expr.lexemes]) (by rintro ⟨⟩)
  | number literal => exact others (.number literal.value) [] (by rw [Expr.lexemes]) (by rintro ⟨⟩)
  | string literal => exact others (.string literal.value) [] (by rw [Expr.lexemes]) (by rintro ⟨⟩)
  | regExp _ pattern flags =>
      exact others (.regExp pattern flags) [] (by rw [Expr.lexemes]) (by rintro ⟨⟩)
  | array => exact others (.mark .leftBracket) _ (by rw [Expr.lexemes, enclosed]) (by rintro ⟨⟩)
  | object => exact others (.mark .leftBrace) _ (by rw [Expr.lexemes, enclosed]) (by rintro ⟨⟩)
  | paren => exact others (.mark .leftParen) _ (by rw [Expr.lexemes, enclosed]) (by rintro ⟨⟩)

/-- An arrow function starts like a group. -/
theorem primary_arrow (hold : RulesRead rules size) {loc : Span} {params : List Pattern}
    {body : Expr} (holds : (Expr.arrow loc params body).Everywhere legible)
    (small : (Expr.arrow loc params body).lexemes.length ≤ size)
    (stops : (nextKind rest).continues < Precedence.assignment) :
    (Expr.arrow loc params body).ReadBy Expr.atStart (primary rules) rest := by
  intro state facing clear atStart
  have kind : state.lookahead.kind = .punctuator .leftParen := by
    rw [Expr.lexemes, enclosed, List.cons_append, List.cons_append] at facing
    exact facing.mark
  refine kind_then ?_
  rw [kind]
  exact arrowGroup_reads hold holds small stops state facing clear atStart

end Parse

end ExprScript
