import ExprScript.Grammar.Chain
import ExprScript.Proofs.Comma.Literal

/-! # Commas in parentheses and chains

Between parentheses only the last item may be a spread, and the closing parenthesis follows
it, so that no comma stands behind the rest of a parameter list.
-/

namespace ExprScript

structure ParserState.TakesGroup (source : List Char) (before : ParserState) (items : List Expr)
    (after : ParserState) : Prop extends Notes source before after where
  inside : itemsInside (noted source after.trailingCommas) items
  spread : ∀ rest argument, Expr.spread rest argument ∈ items → after.previousEnd = rest.stop

namespace Parse

open ParserState

variable {source : List Char} {rules : Rules} (records : RulesRecord source rules)
  {before : ParserState}

include records

/-! ## Arrow functions -/

/-- The rests of the parameters were spreads, and a parenthesis follows each of these. -/
theorem arrow_gives (start : Position) {items : List Expr} (adjoins : before.Adjoins source)
    (inside : itemsInside (noted source before.trailingCommas) items)
    (spreads : ∀ rest argument, Expr.spread rest argument ∈ items →
      ∃ stop, FollowedBy source rest.stop.offset ')' stop) :
    Ensures (arrow rules start items) before (Gives source before) := by
  refine ofExcept_bind fun params rebuilt => .get (ofExcept_bind fun _ checked => .modify ?_)
  rcases except_bind_ok rebuilt with ⟨patterns, rebuilt, distinct⟩
  rcases except_bind_ok distinct with ⟨_, -, final⟩
  cases final
  have patterns := reinterpretItems_noted inside rebuilt (checkRestCommas_none checked)
  refine .bind ((expect_consumes .arrow (adjoins.withPending none)).mono ?_)
  intro sign opened ⟨_, opens⟩
  refine .ite (fun _ => .bind (.throw _)) fun _ => at?_bind (.ite (fun _ => ?_) fun _ => ?_)
  · exact start_bind (.bind (fail_ensures _ _))
  · refine .bind ((isolate_records (records .assignment) opened opens.adjoins).mono ?_)
    intro body after ⟨notes, noted⟩
    have leads : Notes source before after := ⟨notes.adjoins, (opens.trans notes).commas⟩
    refine spanFrom_ensures (.pure ⟨leads, rfl, ?_, ?_, noted.everywhere⟩)
    · intro rest argument member
      rcases spread_of_reinterpretItems rebuilt member with ⟨argument', member⟩
      exact spreads rest argument' member
    · exact patternsInside_join (noted_joins leads.commas) _ patterns patterns

theorem groupItems_takes (adjoins : before.Adjoins source) :
    Ensures (groupItems rules) before fun group after =>
      TakesGroup source before group.items after := by
  refine loop_ensures (fun (reversed : List Expr) state => Collects source before reversed state ∧
    ∀ rest argument, Expr.spread rest argument ∉ reversed) ?_ ⟨.nil (.refl adjoins), nofun⟩
  intro reversed state ⟨collects, noSpread⟩
  refine at?_bind (.ite (fun _ => ?_) fun _ => ?_)
  · refine .bind ((spread_takes records (fun _ => inherit_records) collects.adjoins).mono ?_)
    intro item after takes
    have whole := collects.cons takes.toNotes takes.everywhere
    refine at?_bind (.ite (fun _ => start_bind (.bind (fail_ensures _ _))) fun _ => .pure ?_)
    refine ⟨whole.toNotes, whole.inside, ?_⟩
    intro rest argument member
    rcases List.mem_cons.mp (List.mem_reverse.mp member) with equal | member
    · exact takes.spread rest argument equal.symm
    · exact absurd member (noSpread rest argument)
  · refine .bind ((inherit_records (records .assignment) state collects.adjoins).mono ?_)
    intro item middle ⟨notes, whole⟩
    have collects' := collects.cons notes whole.everywhere
    have noSpread' : ∀ rest argument, Expr.spread rest argument ∉ item :: reversed := by
      intro rest argument member
      rcases List.mem_cons.mp member with rfl | member
      · cases whole.notSpread
      · exact noSpread rest argument member
    have ends : ∀ after, Notes source middle after →
        TakesGroup source before (item :: reversed).reverse after := by
      intro after notes'
      have collects'' := collects'.goesOn notes'
      refine ⟨collects''.toNotes, collects''.inside, ?_⟩
      intro rest argument member
      exact absurd (List.mem_reverse.mp member) (noSpread' rest argument)
    refine .bind ((eat?_consumes .comma notes.adjoins).mono ?_)
    intro eaten after ⟨isEaten, notEaten⟩
    cases eaten with
    | false =>
        rw [notEaten rfl]
        exact .pure (ends middle (.refl notes.adjoins))
    | true =>
        have consumes := (isEaten rfl).toNotes
        refine at?_bind (.ite (fun _ => .pure (ends after consumes)) fun _ => .pure ?_)
        exact ⟨collects'.goesOn consumes, noSpread'⟩

omit records in
theorem groupBody_everywhere {commas : List TrailingComma} (start : Position) {items : List Expr}
    (inside : itemsInside (noted source commas) items) :
    (groupBody start items).Everywhere (noted source commas) := by
  unfold groupBody
  split
  · exact inside.1
  · exact ⟨trivial, inside⟩

theorem groupOrArrow_records : Records source (groupOrArrow rules) := by
  intro before adjoins
  refine start_bind (.get (.bind ((expect_consumes .leftParen adjoins).mono ?_)))
  intro _ opened ⟨_, opens⟩
  refine at?_bind (.ite (fun _ => ?_) fun _ => ?_)
  · refine .bind ((advance_consumes opens.adjoins).mono ?_)
    intro close middle ⟨_, closes⟩
    have leads := opens.toNotes.trans closes.toNotes
    have inside : itemsInside (noted source middle.trailingCommas) [] := trivial
    refine at?_bind (.ite (fun _ => .bind (.throw _)) fun _ => ?_)
    exact (arrow_gives records _ leads.adjoins inside nofun).mono fun _ _ => leads.gives
  · refine .bind ((groupItems_takes records opens.adjoins).mono ?_)
    intro group inner takes
    refine .bind ((expect_consumes .rightParen takes.adjoins).mono ?_)
    intro close middle ⟨isParen, closes⟩
    have leads := opens.toNotes.trans (takes.trans closes.toNotes)
    have inside := itemsInside_join (noted_joins closes.commas) _ takes.inside takes.inside
    refine at?_bind (.ite (fun _ => ?_) fun _ => .ite (fun _ => .throw _) fun _ => ?_)
    · refine (arrow_gives records _ leads.adjoins inside ?_).mono fun _ _ => leads.gives
      intro rest argument member
      have follows := closes.followedBy takes.adjoins isParen ⟨rfl⟩
      rw [takes.spread rest argument member] at follows
      exact ⟨_, follows⟩
    · exact spanFrom_ensures (.pure ⟨leads, rfl, trivial, groupBody_everywhere _ inside⟩)

theorem nameOrArrow_records : Records source (nameOrArrow rules) := by
  intro before adjoins
  have isName : Ensures (do return Expr.ident (← bindingName)) before (Gives source before) :=
    .bind ((bindingName_notes adjoins).mono fun _ _ notes => .pure ⟨notes, rfl, trivial, trivial⟩)
  refine start_bind (.get (.ite (fun _ => ?_) fun _ => isName))
  refine secondKind_bind fun _ => .ite (fun _ => ?_) fun _ => isName
  refine .bind ((bindingName_notes adjoins).mono ?_)
  intro id named notes
  have noSpread : ∀ rest argument, Expr.spread rest argument ∉ [Expr.ident id] := by
    intro rest argument member
    cases List.mem_singleton.mp member
  have inside : itemsInside (noted source named.trailingCommas) [.ident id] :=
    ⟨⟨trivial, trivial⟩, trivial⟩
  refine (arrow_gives records _ notes.adjoins inside ?_).mono fun _ _ => notes.gives
  exact fun rest argument member => absurd member (noSpread rest argument)

/-! ## Primary expressions -/

theorem templateLiteral_records : Records source (templateLiteral rules) := by
  intro before adjoins
  refine .bind ((template_notes records adjoins).mono ?_)
  intro parts after ⟨notes, inside⟩
  exact .pure ⟨notes, rfl, trivial, inside⟩

theorem primary_records : Records source (primary rules) := by
  intro before adjoins
  have word : ∀ build : Span → Expr, (∀ loc commas, (build loc).Noted source commas) →
      Ensures (do return build (← advance).span) before (Gives source before) := by
    intro build noted
    refine .bind ((advance_consumes adjoins).mono ?_)
    intro token after ⟨_, consumes⟩
    exact .pure ⟨consumes.toNotes, noted _ _⟩
  refine kind_bind ?_
  split
  · exact nameOrArrow_records records before adjoins
  · exact .bind ((numberLiteral_notes adjoins).mono fun _ _ notes =>
      .pure ⟨notes, rfl, trivial, trivial⟩)
  · exact .bind ((stringLiteral_notes adjoins).mono fun _ _ notes =>
      .pure ⟨notes, rfl, trivial, trivial⟩)
  · exact word (.boolean · true) fun _ _ => ⟨rfl, trivial, trivial⟩
  · exact word (.boolean · false) fun _ _ => ⟨rfl, trivial, trivial⟩
  · exact word .null fun _ _ => ⟨rfl, trivial, trivial⟩
  · exact word .this fun _ _ => ⟨rfl, trivial, trivial⟩
  · exact templateLiteral_records records before adjoins
  · exact templateLiteral_records records before adjoins
  · exact arrayLiteral_records records before adjoins
  · exact objectLiteral_records records before adjoins
  · exact groupOrArrow_records records before adjoins
  · next isSlash => exact regExpLiteral_records adjoins (by simp [isSlash])
  · next isSlash => exact regExpLiteral_records adjoins (by simp [isSlash])
  · exact unexpected_ensures

/-! ## Links -/

section

variable (start : Position) {owner : Expr} (adjoins : before.Adjoins source)
  (whole : owner.Everywhere (noted source before.trailingCommas)) (optional : Bool)

include adjoins whole

omit records in
theorem namedMember_gives :
    Ensures (namedMember start owner optional) before (Gives source before) := by
  refine .bind ((propertyName_notes adjoins).mono ?_)
  intro id after notes
  exact spanFrom_ensures (.pure
    ⟨notes, rfl, trivial, Expr.noted_mono notes.commas whole, trivial⟩)

theorem bracketMember_gives :
    Ensures (bracketMember rules start owner optional) before (Gives source before) := by
  refine .bind ((computedMember_notes records adjoins).mono ?_)
  intro key after ⟨notes, inside⟩
  exact spanFrom_ensures (.pure
    ⟨notes, rfl, trivial, Expr.noted_mono notes.commas whole, inside⟩)

theorem callWith_gives :
    Ensures (callWith rules start owner optional) before (Gives source before) := by
  refine .bind ((arguments_notes records adjoins).mono ?_)
  intro args after ⟨notes, inside⟩
  exact spanFrom_ensures (.pure
    ⟨notes, rfl, trivial, Expr.noted_mono notes.commas whole, inside⟩)

theorem taggedTemplate_gives :
    Ensures (taggedTemplate rules start owner) before (Gives source before) := by
  refine .bind ((template_notes records adjoins).mono ?_)
  intro parts after ⟨notes, inside⟩
  exact spanFrom_ensures (.pure
    ⟨notes, rfl, trivial, Expr.noted_mono notes.commas whole, inside⟩)

theorem optionalLink_gives :
    Ensures (optionalLink rules start owner) before (Gives source before) := by
  refine kind_bind ?_
  split
  · exact callWith_gives records start adjoins whole true
  · exact bracketMember_gives records start adjoins whole true
  · refine .ite (fun _ => start_bind (.bind (fail_ensures _ _))) fun _ => ?_
    exact namedMember_gives start adjoins whole true

end

/-! ## Constructions and chains -/

omit records in
/-- A round that goes on with the expression that has been read. -/
theorem again_gives {α : Type} {origin : ParserState} {action : Parse Expr} {value : Expr → α}
    {invariant : α → ParserState → Prop} {post : Expr → ParserState → Prop}
    (leads : Notes source origin before) (gives : Ensures action before (Gives source before))
    (holds : ∀ expr after, Gives source origin expr after → invariant (value expr) after) :
    Ensures (action >>= fun expr => pure (.again (value expr) : Round α Expr)) before
      fun outcome after => outcome.Holds (invariant · after) (post · after) :=
  .bind (gives.mono fun expr after result => .pure (holds expr after (leads.gives result)))

theorem constructor_records : Records source (constructor rules) := by
  intro before adjoins
  refine kind_bind (.iteBind ?_)
  have first : Ensures (if before.lookahead.kind == .keyword .newWord then
      rules .construction else primary rules) before (Gives source before) :=
    .ite (fun _ => records .construction before adjoins) fun _ =>
      primary_records records before adjoins
  refine first.mono fun first middle gives => ?_
  dsimp only
  refine loop_ensures (Gives source before) ?_ gives
  intro callee state gives
  have notes := gives.toNotes
  have whole := gives.noted.everywhere
  refine kind_bind ?_
  split
  · refine .bind ((advance_consumes notes.adjoins).mono ?_)
    intro _ opened ⟨_, opens⟩
    exact again_gives (notes.trans opens.toNotes)
      (namedMember_gives _ opens.adjoins (Expr.noted_mono opens.commas whole) false) fun _ _ => id
  · exact again_gives notes (bracketMember_gives records _ notes.adjoins whole false) fun _ _ => id
  · exact again_gives notes (taggedTemplate_gives records _ notes.adjoins whole) fun _ _ => id
  · exact again_gives notes (taggedTemplate_gives records _ notes.adjoins whole) fun _ _ => id
  · exact start_bind (fail_ensures _ _)
  · exact .pure gives

theorem construction_records : Records source (construction rules) := by
  intro before adjoins
  refine start_bind (.bind ((advance_consumes adjoins).mono ?_))
  intro _ opened ⟨_, opens⟩
  refine at?_bind (.ite (fun _ => .bind unexpected_ensures) fun _ => ?_)
  refine .bind ((constructor_records records opened opens.adjoins).mono ?_)
  intro callee middle ⟨notes, whole⟩
  have args : Ensures (if middle.lookahead.kind == .punctuator .leftParen then
      arguments rules else pure []) middle fun args after =>
        Notes source middle after ∧ itemsInside (noted source after.trailingCommas) args :=
    .ite (fun _ => arguments_notes records notes.adjoins) fun _ =>
      .pure ⟨.refl notes.adjoins, trivial⟩
  refine at?_bind (.iteBind (args.mono ?_))
  intro args after ⟨notes', inside⟩
  exact spanFrom_ensures (.pure ⟨opens.toNotes.trans (notes.trans notes'), rfl, trivial,
    (whole.mono notes'.commas).everywhere, inside⟩)

theorem links_gives (start : Position) {first : Expr} {origin : ParserState}
    (gives : Gives source origin first before) :
    Ensures (links rules start first) before (Gives source origin) := by
  refine loop_ensures (fun (chain : Expr × Bool) state => Gives source origin chain.1 state) ?_
    gives
  intro ⟨expr, afterOptional⟩ state gives
  have notes := gives.toNotes
  have whole := gives.noted.everywhere
  have tagged : Ensures (do
      if afterOptional then fail .taggedOptionalChain (← Parse.start)
      return Round.again (← taggedTemplate rules start expr, afterOptional)) state
      fun (outcome : Round (Expr × Bool) Expr) after => outcome.Holds
        (fun chain => Gives source origin chain.1 after) (Gives source origin · after) := by
    refine .ite (fun _ => start_bind (.bind (fail_ensures _ _))) fun _ => ?_
    exact again_gives notes (taggedTemplate_gives records _ notes.adjoins whole) fun _ _ => id
  refine kind_bind ?_
  split
  · refine .bind ((advance_consumes notes.adjoins).mono ?_)
    intro _ opened ⟨_, opens⟩
    exact again_gives (notes.trans opens.toNotes)
      (namedMember_gives _ opens.adjoins (Expr.noted_mono opens.commas whole) false) fun _ _ => id
  · exact again_gives notes (bracketMember_gives records _ notes.adjoins whole false) fun _ _ => id
  · exact again_gives notes (callWith_gives records _ notes.adjoins whole false) fun _ _ => id
  · refine .bind ((advance_consumes notes.adjoins).mono ?_)
    intro _ opened ⟨_, opens⟩
    have link := optionalLink_gives records start opens.adjoins (Expr.noted_mono opens.commas whole)
    exact again_gives (notes.trans opens.toNotes) link fun _ _ => id
  · exact tagged
  · exact tagged
  · exact .pure gives

theorem chain_records : Records source (chain rules) := by
  intro before adjoins
  have first : Ensures (if before.lookahead.kind == .keyword .newWord then
      construction rules else primary rules) before (Gives source before) :=
    .ite (fun _ => construction_records records before adjoins) fun _ =>
      primary_records records before adjoins
  refine start_bind (kind_bind (.iteBind (first.mono ?_)))
  intro expr middle gives
  dsimp only
  split
  · exact .pure gives
  · exact links_gives records _ gives

end Parse

end ExprScript
