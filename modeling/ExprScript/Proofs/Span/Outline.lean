import ExprScript.Proofs.Span.Place
import ExprScript.Proofs.Tree.Grammatical

/-! # The outline of a tree

The outline of a tree is what is left when the spans of its nodes alone are kept, with
the parts of a node in the order of the source. An expression and the pattern that it is
rebuilt as have the same outline.
-/

namespace ExprScript

/-- A span and the outlines of its parts. -/
inductive Outline where
  | node (span : Span) (parts : List Outline)

namespace Outline

def span : Outline → Span
  | node span _ => span

mutual

/-- The outline is a part of the source, and its parts lie in it one behind the other. -/
def Fits (source : List Char) : Outline → Prop
  | node span parts =>
    (span.start.Marks source ∧ span.stop.Marks source ∧ span.start.offset < span.stop.offset) ∧
      Between source span.start.offset span.stop.offset parts

def Between (source : List Char) : Nat → Nat → List Outline → Prop
  | start, stop, [] => start ≤ stop
  | start, stop, part :: parts =>
    start ≤ part.span.start.offset ∧ part.Fits source ∧
      Between source part.span.stop.offset stop parts

end

mutual

/-- The span of the outline and those of everything in it. -/
def spans : Outline → List Span
  | node span parts => span :: partSpans parts

def partSpans : List Outline → List Span
  | [] => []
  | part :: parts => part.spans ++ partSpans parts

end

variable {source : List Char}

theorem Fits.start {outline : Outline} (fits : outline.Fits source) :
    outline.span.start.Marks source := by
  cases outline
  exact fits.1.1

theorem Fits.stop {outline : Outline} (fits : outline.Fits source) :
    outline.span.stop.Marks source := by
  cases outline
  exact fits.1.2.1

theorem Fits.start_lt_stop {outline : Outline} (fits : outline.Fits source) :
    outline.span.start.offset < outline.span.stop.offset := by
  cases outline
  exact fits.1.2.2

namespace Between

variable {start middle stop : Nat} {part : Outline} {parts others : List Outline}

theorem le (between : Between source start stop parts) : start ≤ stop := by
  induction parts generalizing start with
  | nil => exact between
  | cons part parts induction =>
      have size := between.2.1.start_lt_stop
      have first := between.1
      have later := induction between.2.2
      omega

theorem lt (between : Between source start stop (part :: parts)) : start < stop := by
  have size := between.2.1.start_lt_stop
  have first := between.1
  have later := between.2.2.le
  omega

theorem later {start' : Nat} (between : Between source start stop parts) (within : start' ≤ start) :
    Between source start' stop parts := by
  cases parts with
  | nil => exact within.trans between
  | cons part parts => exact ⟨within.trans between.1, between.2⟩

theorem tail (between : Between source start stop (part :: parts)) :
    Between source start stop parts := by
  have size := between.2.1.start_lt_stop
  exact between.2.2.later (between.1.trans size.le)

theorem append (left : Between source start middle parts)
    (right : Between source middle stop others) : Between source start stop (parts ++ others) := by
  induction parts generalizing start with
  | nil => exact right.later left
  | cons part parts induction => exact ⟨left.1, left.2.1, induction left.2.2⟩

theorem mono (between : Between source start middle parts) (within : middle ≤ stop) :
    Between source start stop parts := by
  have nothing : Between source middle stop [] := within
  have whole := between.append nothing
  rwa [List.append_nil] at whole

theorem single (fits : part.Fits source) (first : start ≤ part.span.start.offset)
    (last : part.span.stop.offset ≤ stop) : Between source start stop [part] :=
  ⟨first, fits, last⟩

/-- The parts are those of a node from the start of the first one to the stop of the last
one. -/
theorem enclose (between : Between source start stop (part :: parts)) :
    Between source start stop
      [.node { start := part.span.start, stop := ((part :: parts).getLast nofun).span.stop }
        (part :: parts)] := by
  induction parts generalizing start part with
  | nil =>
      have fits := between.2.1
      have inside : Between source part.span.start.offset part.span.stop.offset [part] :=
        .single fits le_rfl le_rfl
      exact ⟨between.1, ⟨⟨fits.start, fits.stop, fits.start_lt_stop⟩, inside⟩, between.2.2⟩
  | cons second parts induction =>
      rcases induction between.2.2 with ⟨first, ⟨⟨_, stops, size⟩, inside⟩, last⟩
      have fits := between.2.1
      rw [List.getLast_cons_cons]
      refine ⟨between.1, ⟨⟨fits.start, stops, ?_⟩, le_rfl, fits, inside.later first⟩, last⟩
      exact fits.start_lt_stop.trans (lt_of_le_of_lt first size)

end Between

structure Fills (source : List Char) (start stop : Position) (outline : Outline) : Prop where
  fits : outline.Fits source
  start_eq : outline.span.start = start
  stop_eq : outline.span.stop = stop

namespace Fills

variable {start stop : Position} {outline : Outline} {parts : List Outline}

theorem node (marks : start.Marks source) (marks' : stop.Marks source)
    (size : start.offset < stop.offset) (between : Between source start.offset stop.offset parts) :
    Fills source start stop (.node { start, stop } parts) :=
  ⟨⟨⟨marks, marks', size⟩, between⟩, rfl, rfl⟩

theorem start_lt_stop (fills : Fills source start stop outline) : start.offset < stop.offset := by
  have size := fills.fits.start_lt_stop
  rwa [fills.start_eq, fills.stop_eq] at size

theorem between {first last : Nat} (fills : Fills source start stop outline)
    (before : first ≤ start.offset) (behind : stop.offset ≤ last) :
    Between source first last [outline] := by
  apply Between.single fills.fits
  · rwa [fills.start_eq]
  · rwa [fills.stop_eq]

theorem cons {first last : Nat} (fills : Fills source start stop outline)
    (before : first ≤ start.offset) (between : Between source stop.offset last parts) :
    Between source first last (outline :: parts) := by
  refine ⟨?_, fills.fits, ?_⟩
  · rwa [fills.start_eq]
  · rwa [fills.stop_eq]

/-- Two outlines, one behind the other, are the parts of a node from the start of the
first to the stop of the second. -/
theorem join {middle next : Position} {left right : Outline}
    (fills : Fills source start middle left) (apart : middle.offset ≤ next.offset)
    (fills' : Fills source next stop right) :
    Fills source start stop (.node (left.span.join right.span) [left, right]) := by
  have first := fills.start_lt_stop
  have second := fills'.start_lt_stop
  rw [Span.join, fills.start_eq, fills'.stop_eq]
  apply node
  · exact fills.start_eq ▸ fills.fits.start
  · exact fills'.stop_eq ▸ fills'.fits.stop
  · omega
  · exact fills.cons le_rfl (fills'.between apart le_rfl)

end Fills

end Outline

structure Outline.Places (source : List Char) (span : Span) : Prop where
  start : span.start.Marks source
  stop : span.stop.Marks source
  start_lt_stop : span.start.offset < span.stop.offset

mutual

theorem Outline.Fits.places {source : List Char} : ∀ outline : Outline, outline.Fits source →
    ∀ span ∈ outline.spans, Outline.Places source span
  | .node _ parts, fits => List.forall_mem_cons.mpr
      ⟨⟨fits.1.1, fits.1.2.1, fits.1.2.2⟩, Outline.Between.places parts _ _ fits.2⟩

theorem Outline.Between.places {source : List Char} : ∀ (parts : List Outline) (start stop : Nat),
    Outline.Between source start stop parts →
      ∀ span ∈ Outline.partSpans parts, Outline.Places source span
  | [], _, _, _ => nofun
  | part :: parts, _, _, between => List.forall_mem_append.mpr
      ⟨Outline.Fits.places part between.2.1, Outline.Between.places parts _ _ between.2.2⟩

end

/-! ## Trees -/

def Quasi.outline (quasi : Quasi) : Outline := .node quasi.loc []

def Expr.leadingName? : Expr → Option Ident
  | .ident id | .assign _ _ (.ident id) _ | .destructure _ _ (.ident id) _ => some id
  | _ => none

def Pattern.leadingName? : Pattern → Option Ident
  | .ident id | .withDefault _ (.ident id) _ => some id
  | _ => none

def PropertyKey.isLeading (key : PropertyKey) (name? : Option Ident) : Bool :=
  match key with
  | .name id => name? == some id
  | _ => false

theorem PropertyKey.isLeading_name (id : Ident) :
    (PropertyKey.name id).isLeading (some id) = true := beq_self_eq_true _

def templateOutlines : List Quasi → List Outline → List Outline
  | [], holes => holes
  | quasi :: quasis, [] => quasi.outline :: templateOutlines quasis []
  | quasi :: quasis, hole :: holes => quasi.outline :: hole :: templateOutlines quasis holes

mutual

def Expr.outline : Expr → Outline
  | .number literal => .node literal.loc []
  | .string literal => .node literal.loc []
  | .ident id => .node id.loc []
  | .null loc | .boolean loc _ | .regExp loc _ _ | .this loc => .node loc []
  | .template loc quasis holes => .node loc (templateOutlines quasis (itemOutlines holes))
  | .array loc elements => .node loc (elementOutlines elements)
  | .object loc properties => .node loc (propertyOutlines properties)
  | .paren loc inner => .node loc [inner.outline]
  | .arrow loc params body => .node loc (patternOutlines params ++ [body.outline])
  | .unary loc _ argument | .update loc _ _ argument | .spread loc argument =>
    .node loc [argument.outline]
  | .binary loc _ left right | .logical loc _ left right =>
    .node loc [left.outline, right.outline]
  | .conditional loc test consequent alternate =>
    .node loc [test.outline, consequent.outline, alternate.outline]
  | .assign loc _ target value => .node loc [target.outline, value.outline]
  | .destructure loc _ pattern value => .node loc [pattern.outline, value.outline]
  | .sequence loc items => .node loc (itemOutlines items)
  | .member loc owner key _ => .node loc [owner.outline, key.outline]
  | .call loc callee arguments _ => .node loc (callee.outline :: itemOutlines arguments)
  | .new loc callee arguments => .node loc (callee.outline :: itemOutlines arguments)
  | .tagged loc tag templateLoc quasis holes =>
    .node loc [tag.outline, .node templateLoc (templateOutlines quasis (itemOutlines holes))]

def itemOutlines : List Expr → List Outline
  | [] => []
  | item :: items => item.outline :: itemOutlines items

def elementOutlines : List (Option Expr) → List Outline
  | [] => []
  | none :: elements => elementOutlines elements
  | some item :: elements => item.outline :: elementOutlines elements

/-- The key of a shorthand property is a part of its value. -/
def Property.outline : Property → Outline
  | .field loc key value _ =>
    .node loc (if key.isLeading value.leadingName? then [value.outline]
      else [key.outline, value.outline])
  | .spread loc argument => .node loc [argument.outline]

def propertyOutlines : List Property → List Outline
  | [] => []
  | property :: properties => property.outline :: propertyOutlines properties

def PropertyKey.outline : PropertyKey → Outline
  | .name id => .node id.loc []
  | .string literal => .node literal.loc []
  | .number literal => .node literal.loc []
  | .computed key => key.outline

def MemberKey.outline : MemberKey → Outline
  | .name id => .node id.loc []
  | .computed key => key.outline

def Pattern.outline : Pattern → Outline
  | .ident id => .node id.loc []
  | .array loc elements => .node loc (patternElementOutlines elements)
  | .object loc properties => .node loc (patternPropertyOutlines properties)
  | .rest loc argument => .node loc [argument.outline]
  | .withDefault loc target value => .node loc [target.outline, value.outline]

def patternOutlines : List Pattern → List Outline
  | [] => []
  | pattern :: patterns => pattern.outline :: patternOutlines patterns

def patternElementOutlines : List (Option Pattern) → List Outline
  | [] => []
  | none :: elements => patternElementOutlines elements
  | some pattern :: elements => pattern.outline :: patternElementOutlines elements

def PatternProperty.outline : PatternProperty → Outline
  | .field loc key value _ =>
    .node loc (if key.isLeading value.leadingName? then [value.outline]
      else [key.outline, value.outline])
  | .rest loc argument => .node loc [argument.outline]

def patternPropertyOutlines : List PatternProperty → List Outline
  | [] => []
  | property :: properties => property.outline :: patternPropertyOutlines properties

end

theorem Outline.Fits.field_value {source : List Char} {loc : Span} {condition : Bool}
    {key value : Outline}
    (fits : Fits source (.node loc (if condition then [value] else [key, value]))) :
    value.Fits source := by
  have parts := fits.2
  cases condition with
  | true => exact parts.2.1
  | false => exact parts.2.2.2.1

@[simp] theorem Expr.span_outline (expr : Expr) : expr.outline.span = expr.loc := by
  cases expr <;> rfl

theorem itemOutlines_eq_map (items : List Expr) : itemOutlines items = items.map Expr.outline := by
  induction items with
  | nil => rfl
  | cons item items induction => exact congrArg (item.outline :: ·) induction

theorem itemOutlines_append (items others : List Expr) :
    itemOutlines (items ++ others) = itemOutlines items ++ itemOutlines others := by
  simp only [itemOutlines_eq_map, List.map_append]

theorem elementOutlines_append (elements others : List (Option Expr)) :
    elementOutlines (elements ++ others) = elementOutlines elements ++ elementOutlines others := by
  induction elements with
  | nil => rfl
  | cons element elements induction =>
      cases element with
      | none => exact induction
      | some item => exact congrArg (item.outline :: ·) induction

theorem propertyOutlines_append (properties others : List Property) :
    propertyOutlines (properties ++ others) =
      propertyOutlines properties ++ propertyOutlines others := by
  induction properties with
  | nil => rfl
  | cons property properties induction => exact congrArg (property.outline :: ·) induction

theorem templateOutlines_snoc {quasis : List Quasi} {holes : List Expr}
    (turns : quasis.length = holes.length + 1) (hole : Expr) (quasi : Quasi) :
    templateOutlines (quasis ++ [quasi]) (itemOutlines (holes ++ [hole])) =
      templateOutlines quasis (itemOutlines holes) ++ [hole.outline, quasi.outline] := by
  induction quasis generalizing holes with
  | nil => cases turns
  | cons first quasis induction =>
      cases holes with
      | nil =>
          cases quasis with
          | nil => rfl
          | cons => cases turns
      | cons other holes =>
          have later := induction (Nat.succ.inj turns)
          simp only [List.cons_append, itemOutlines, templateOutlines, later]

/-! ## Rebuilt patterns -/

theorem eq_ident_of_reinterpret {use : PatternUse} {expr : Expr} {id : Ident}
    (run : reinterpret use expr = .ok (.ident id)) : expr = .ident id := by
  cases expr with
  | ident other =>
      cases run
      rfl
  | array loc elements =>
      rw [reinterpret] at run
      rcases except_bind_ok run with ⟨patterns, -, final⟩
      cases final
  | object loc properties =>
      rw [reinterpret] at run
      rcases except_bind_ok run with ⟨patterns, -, final⟩
      cases final
  | assign loc op target value =>
      cases op with
      | plain =>
          rw [reinterpret] at run
          rcases except_bind_ok run with ⟨pattern, -, final⟩
          cases final
      | _ => cases run
  | destructure loc op pattern value => cases op <;> cases run
  | _ => cases run

theorem leadingName?_of_reinterpret {use : PatternUse} {expr : Expr} {pattern : Pattern}
    (run : reinterpret use expr = .ok pattern) : pattern.leadingName? = expr.leadingName? := by
  cases expr with
  | ident id =>
      cases run
      rfl
  | array loc elements =>
      rw [reinterpret] at run
      rcases except_bind_ok run with ⟨patterns, -, final⟩
      cases final
      rfl
  | object loc properties =>
      rw [reinterpret] at run
      rcases except_bind_ok run with ⟨patterns, -, final⟩
      cases final
      rfl
  | assign loc op target value =>
      cases op with
      | plain =>
          rw [reinterpret] at run
          rcases except_bind_ok run with ⟨inner, rebuilt, final⟩
          cases final
          cases target with
          | ident id =>
              cases rebuilt
              rfl
          | _ =>
              cases inner with
              | ident id => cases eq_ident_of_reinterpret rebuilt
              | _ => rfl
      | _ => cases run
  | destructure loc op inner value =>
      cases op with
      | plain =>
          cases run
          cases inner <;> rfl
      | _ => cases run
  | _ => cases run

mutual

/-- A pattern covers the same parts of the source as the expression did. -/
theorem reinterpret_outline (use : PatternUse) : ∀ (expr : Expr) (pattern : Pattern),
    reinterpret use expr = .ok pattern → pattern.outline = expr.outline
  | .ident id, _, run => by
      cases run
      rfl
  | .array loc elements, _, run => by
      rw [reinterpret] at run
      rcases except_bind_ok run with ⟨patterns, run', final⟩
      cases final
      rw [Pattern.outline, Expr.outline, reinterpretElements_outline use _ _ run']
  | .object loc properties, _, run => by
      rw [reinterpret] at run
      rcases except_bind_ok run with ⟨patterns, run', final⟩
      cases final
      rw [Pattern.outline, Expr.outline, reinterpretProperties_outline use _ _ run']
  | .assign loc .plain target value, _, run => by
      rw [reinterpret] at run
      rcases except_bind_ok run with ⟨pattern, run', final⟩
      cases final
      rw [Pattern.outline, Expr.outline, reinterpret_outline use _ _ run']
  | .destructure loc .plain pattern value, _, run => by
      cases run
      rfl
  | .assign _ (.arithmetic _) _ _, _, run | .assign _ (.logical _) _ _, _, run
  | .destructure _ (.arithmetic _) _ _, _, run | .destructure _ (.logical _) _ _, _, run
  | .null _, _, run
  | .boolean _ _, _, run | .number _, _, run | .string _, _, run | .regExp _ _ _, _, run
  | .template _ _ _, _, run | .this _, _, run | .paren _ _, _, run | .arrow _ _ _, _, run
  | .unary _ _ _, _, run | .update _ _ _ _, _, run | .binary _ _ _ _, _, run
  | .logical _ _ _ _, _, run | .conditional _ _ _ _, _, run | .sequence _ _, _, run
  | .member _ _ _ _, _, run | .call _ _ _ _, _, run | .new _ _ _, _, run
  | .tagged _ _ _ _ _, _, run | .spread _ _, _, run => by cases run

theorem reinterpretElements_outline (use : PatternUse) :
    ∀ (elements : List (Option Expr)) (patterns : List (Option Pattern)),
      reinterpretElements use elements = .ok patterns →
        patternElementOutlines patterns = elementOutlines elements
  | [], _, run => by
      cases run
      rfl
  | none :: elements, _, run => by
      rw [reinterpretElements] at run
      rcases except_bind_ok run with ⟨patterns, run', final⟩
      cases final
      exact reinterpretElements_outline use elements patterns run'
  | some element :: elements, patterns, run => by
      have later := reinterpretElements_outline use elements
      have whole := reinterpret_outline use element
      cases element with
      | spread loc argument =>
          have inner := reinterpret_outline use argument
          rw [reinterpretElements] at run
          rcases rest_run (fun _ wrong => by cases wrong) run with
            ⟨isLast, -, pattern, first, final⟩
          cases final
          have nothing : elements = [] := by simpa using isLast
          rw [nothing]
          simp only [patternElementOutlines, elementOutlines, Pattern.outline, Expr.outline,
            inner pattern first]
      | _ =>
          rw [reinterpretElements] at run
          · rcases except_bind_ok run with ⟨pattern, first, run⟩
            rcases except_bind_ok run with ⟨others, rest, final⟩
            cases final
            rw [patternElementOutlines, elementOutlines, whole pattern first, later others rest]
          · simp

theorem reinterpretProperties_outline (use : PatternUse) :
    ∀ (properties : List Property) (patterns : List PatternProperty),
      reinterpretProperties use properties = .ok patterns →
        patternPropertyOutlines patterns = propertyOutlines properties
  | [], _, run => by
      cases run
      rfl
  | .spread loc argument :: properties, patterns, run => by
      cases last : !properties.isEmpty with
      | true =>
          rw [reinterpretProperties.eq_def] at run
          simp only [last] at run
          cases run
      | false =>
          have nothing : properties = [] := by simpa using last
          rw [nothing] at run ⊢
          cases argument with
          | ident id =>
              rw [reinterpretProperties] at run
              cases run
              rfl
          | _ =>
              rw [reinterpretProperties] at run
              · cases run
              · simp
  | .field loc key value shorthand :: properties, _, run => by
      rw [reinterpretProperties] at run
      rcases except_bind_ok run with ⟨pattern, first, run⟩
      rcases except_bind_ok run with ⟨others, rest, final⟩
      cases final
      simp only [patternPropertyOutlines, propertyOutlines, PatternProperty.outline,
        Property.outline, reinterpret_outline use value pattern first,
        leadingName?_of_reinterpret first, reinterpretProperties_outline use properties others rest]

end

theorem reinterpretItems_outline (items : List Expr) (patterns : List Pattern)
    (run : reinterpretItems items = .ok patterns) :
    patternOutlines patterns = itemOutlines items := by
  induction items generalizing patterns with
  | nil =>
      cases run
      rfl
  | cons item items induction =>
      cases item with
      | spread loc argument =>
          rw [reinterpretItems] at run
          rcases rest_run (fun _ wrong => by cases wrong) run with
            ⟨isLast, -, pattern, first, final⟩
          cases final
          have nothing : items = [] := by simpa using isLast
          rw [nothing]
          simp only [patternOutlines, itemOutlines, Pattern.outline, Expr.outline,
            reinterpret_outline _ argument pattern first]
      | _ =>
          rw [reinterpretItems] at run
          · rcases except_bind_ok run with ⟨pattern, first, run⟩
            rcases except_bind_ok run with ⟨others, rest, final⟩
            cases final
            rw [patternOutlines, itemOutlines, reinterpret_outline _ _ pattern first,
              induction others rest]
          · simp

theorem reinterpretParameters_outline {items : List Expr} {params : List Pattern}
    (run : reinterpretParameters items = .ok params) :
    patternOutlines params = itemOutlines items := by
  rcases except_bind_ok run with ⟨patterns, rebuilt, run⟩
  rcases except_bind_ok run with ⟨-, -, final⟩
  cases final
  exact reinterpretItems_outline items _ rebuilt

/-! ## Where an expression is no pattern -/

def ErrsWithin (source : List Char) {α : Type} (result : Except Error α) : Prop :=
  ∀ error, result = .error error → error.Rejects source

namespace ErrsWithin

variable {source : List Char} {α β : Type}

theorem ok (value : α) : ErrsWithin source (.ok value) := nofun

theorem error {error : Error} (rejects : error.Rejects source) :
    ErrsWithin source (.error error : Except Error α) := by
  intro other equal
  cases equal
  exact rejects

theorem bind {result : Except Error α} {next : α → Except Error β}
    (marks : ErrsWithin source result)
    (rest : ∀ value, result = .ok value → ErrsWithin source (next value)) :
    ErrsWithin source (result >>= next) := by
  cases result with
  | ok value => exact rest value rfl
  | error failure => exact error (marks failure rfl)

theorem ite {condition : Prop} [Decidable condition] {first second : Except Error α}
    (whenTrue : ErrsWithin source first) (whenFalse : ErrsWithin source second) :
    ErrsWithin source (if condition then first else second) := by
  split
  · exact whenTrue
  · exact whenFalse

theorem forM {check : β → Except Error Unit} (marks : ∀ value, ErrsWithin source (check value))
    (values : List β) : ErrsWithin source (values.forM check) := by
  induction values with
  | nil => exact ok _
  | cons value values induction => exact bind (marks value) fun _ _ => induction

end ErrsWithin

section

variable {source : List Char}

theorem refuse_marks {α : Type} (use : PatternUse) {expr : Expr} (fits : expr.outline.Fits source) :
    ErrsWithin source (use.refuse expr : Except Error α) := by
  have start := fits.start
  rw [Expr.span_outline] at start
  refine .error ⟨start, ?_⟩
  cases use <;> rfl

/-- A rest that is not the last one, or one with a default, is refused where it starts. -/
theorem rest_marks {α : Type} (use : PatternUse) {argument : Expr} {notLast : Bool}
    {refused : Except Error Unit} {next : Pattern → α} (refuses : ErrsWithin source refused)
    (fits : argument.outline.Fits source)
    (inner : ErrsWithin source (reinterpret use argument)) :
    ErrsWithin source (do
      if notLast then refused
      if argument.isAssignment then use.refuse argument
      return next (← reinterpret use argument)) := by
  have rebuilt : ErrsWithin source (do
      if argument.isAssignment then use.refuse argument
      return next (← reinterpret use argument)) := by
    apply ErrsWithin.ite
    · exact .bind (refuse_marks use fits) fun _ _ => .bind inner fun _ _ => .ok _
    · exact .bind inner fun _ _ => .ok _
  exact .ite (.bind refuses fun _ _ => rebuilt) rebuilt

mutual

theorem reinterpret_marks (use : PatternUse) : ∀ expr : Expr, expr.outline.Fits source →
    ErrsWithin source (reinterpret use expr)
  | .ident id, _ => .ok _
  | .array loc elements, fits => by
      rw [reinterpret]
      exact .bind (reinterpretElements_marks use elements _ _ fits.2) fun _ _ => .ok _
  | .object loc properties, fits => by
      rw [reinterpret]
      exact .bind (reinterpretProperties_marks use properties _ _ fits.2) fun _ _ => .ok _
  | .assign loc .plain target value, fits => by
      rw [reinterpret]
      exact .bind (reinterpret_marks use target fits.2.2.1) fun _ _ => .ok _
  | .destructure loc .plain pattern value, _ => .ok _
  | .assign _ (.arithmetic _) _ _, fits | .assign _ (.logical _) _ _, fits
  | .destructure _ (.arithmetic _) _ _, fits | .destructure _ (.logical _) _ _, fits
  | .null _, fits
  | .boolean _ _, fits | .number _, fits | .string _, fits | .regExp _ _ _, fits
  | .template _ _ _, fits | .this _, fits | .paren _ _, fits | .arrow _ _ _, fits
  | .unary _ _ _, fits | .update _ _ _ _, fits | .binary _ _ _ _, fits
  | .logical _ _ _ _, fits | .conditional _ _ _ _, fits | .sequence _ _, fits
  | .member _ _ _ _, fits | .call _ _ _ _, fits | .new _ _ _, fits
  | .tagged _ _ _ _ _, fits | .spread _ _, fits => refuse_marks use fits

theorem reinterpretElements_marks (use : PatternUse) :
    ∀ (elements : List (Option Expr)) (start stop : Nat),
      Outline.Between source start stop (elementOutlines elements) →
        ErrsWithin source (reinterpretElements use elements)
  | [], _, _, _ => .ok _
  | none :: elements, _, _, between => by
      rw [reinterpretElements]
      exact .bind (reinterpretElements_marks use elements _ _ between) fun _ _ => .ok _
  | some element :: elements, _, _, between => by
      have later := reinterpretElements_marks use elements _ _ between.2.2
      have whole := reinterpret_marks use element between.2.1
      cases element with
      | spread loc argument =>
          have fits : argument.outline.Fits source := between.2.1.2.2.1
          rw [reinterpretElements]
          exact rest_marks use (.error ⟨between.2.1.start, rfl⟩) fits
            (reinterpret_marks use argument fits)
      | _ =>
          rw [reinterpretElements]
          · exact .bind whole fun _ _ => .bind later fun _ _ => .ok _
          · simp

theorem reinterpretProperties_marks (use : PatternUse) :
    ∀ (properties : List Property) (start stop : Nat),
      Outline.Between source start stop (propertyOutlines properties) →
        ErrsWithin source (reinterpretProperties use properties)
  | [], _, _, _ => .ok _
  | .spread loc argument :: properties, _, _, between => by
      have fits : argument.outline.Fits source := between.2.1.2.2.1
      have target : ErrsWithin source (match argument with
          | .ident id => .ok [PatternProperty.rest loc (.ident id)]
          | _ => use.refuse argument) := by
        split
        · exact .ok _
        · exact refuse_marks use fits
      rw [reinterpretProperties.eq_def]
      exact .ite (.bind (.error ⟨between.2.1.start, rfl⟩) fun _ _ => target) target
  | .field loc key value shorthand :: properties, _, _, between => by
      have fits := between.2.1.field_value
      rw [reinterpretProperties]
      exact .bind (reinterpret_marks use value fits) fun _ _ =>
        .bind (reinterpretProperties_marks use properties _ _ between.2.2) fun _ _ => .ok _

end

theorem reinterpretItems_marks (items : List Expr) {start stop : Nat}
    (between : Outline.Between source start stop (itemOutlines items)) :
    ErrsWithin source (reinterpretItems items) := by
  induction items generalizing start with
  | nil => exact .ok _
  | cons item items induction =>
      have later := induction between.2.2
      have whole := reinterpret_marks .parameter item between.2.1
      cases item with
      | spread loc argument =>
          have fits : argument.outline.Fits source := between.2.1.2.2.1
          rw [reinterpretItems]
          exact rest_marks _ (.error ⟨between.2.1.start, rfl⟩) fits
            (reinterpret_marks _ argument fits)
      | _ =>
          rw [reinterpretItems]
          · exact .bind whole fun _ _ => .bind later fun _ _ => .ok _
          · simp

mutual

/-- The names that a pattern binds are parts of it. -/
theorem Pattern.boundNames_marks : ∀ pattern : Pattern, pattern.outline.Fits source →
    ∀ id ∈ pattern.boundNames, id.loc.start.Marks source
  | .ident id, fits => by
      intro other member
      rw [Pattern.boundNames, List.mem_singleton] at member
      rw [member]
      exact fits.start
  | .array _ elements, fits => elementNames_marks elements _ _ fits.2
  | .object _ properties, fits => propertyNames_marks properties _ _ fits.2
  | .rest _ argument, fits => argument.boundNames_marks fits.2.2.1
  | .withDefault _ target _, fits => target.boundNames_marks fits.2.2.1

theorem elementNames_marks : ∀ (elements : List (Option Pattern)) (start stop : Nat),
    Outline.Between source start stop (patternElementOutlines elements) →
      ∀ id ∈ Pattern.elementNames elements, id.loc.start.Marks source
  | [], _, _, _ => nofun
  | none :: elements, _, _, between => elementNames_marks elements _ _ between
  | some pattern :: elements, _, _, between => List.forall_mem_append.mpr
      ⟨pattern.boundNames_marks between.2.1, elementNames_marks elements _ _ between.2.2⟩

theorem propertyNames_marks : ∀ (properties : List PatternProperty) (start stop : Nat),
    Outline.Between source start stop (patternPropertyOutlines properties) →
      ∀ id ∈ Pattern.propertyNames properties, id.loc.start.Marks source
  | [], _, _, _ => nofun
  | .field _ _ value _ :: properties, _, _, between => List.forall_mem_append.mpr
      ⟨value.boundNames_marks between.2.1.field_value,
        propertyNames_marks properties _ _ between.2.2⟩
  | .rest _ argument :: properties, _, _, between => List.forall_mem_append.mpr
      ⟨argument.boundNames_marks between.2.1.2.2.1,
        propertyNames_marks properties _ _ between.2.2⟩

end

theorem firstRepeated_mem {seen : List String} {ids : List Ident} {id : Ident}
    (found : firstRepeated seen ids = some id) : id ∈ ids := by
  induction ids generalizing seen with
  | nil => cases found
  | cons first ids induction =>
      rw [firstRepeated] at found
      split at found
      · cases found
        exact List.mem_cons_self ..
      · exact List.mem_cons_of_mem _ (induction found)

theorem boundNames_marks_of_between (params : List Pattern) {start stop : Nat}
    (between : Outline.Between source start stop (patternOutlines params)) :
    ∀ id ∈ params.flatMap Pattern.boundNames, id.loc.start.Marks source := by
  induction params generalizing start with
  | nil => exact nofun
  | cons param params induction =>
      exact List.forall_mem_append.mpr
        ⟨param.boundNames_marks between.2.1, induction between.2.2⟩

theorem reinterpretParameters_marks (items : List Expr) {start stop : Nat}
    (between : Outline.Between source start stop (itemOutlines items)) :
    ErrsWithin source (reinterpretParameters items) := by
  apply ErrsWithin.bind (reinterpretItems_marks items between)
  intro params rebuilt
  have names := boundNames_marks_of_between params
    ((reinterpretItems_outline items params rebuilt).symm ▸ between)
  apply ErrsWithin.bind _ fun _ _ => .ok _
  unfold checkDistinctParameters
  split
  · next id repeated => exact .error ⟨names id (firstRepeated_mem repeated), rfl⟩
  · exact .ok _

/-! ## Commas after a rest -/

mutual

theorem Pattern.restComma?_mem (commas : List TrailingComma) : ∀ (pattern : Pattern)
    (comma : Position), pattern.restComma? commas = some comma →
      ∃ start, (start, comma) ∈ commas
  | .ident _, _, found => nomatch found
  | .withDefault _ target _, comma, found => target.restComma?_mem commas comma found
  | .rest loc argument, comma, found => by
      rw [Pattern.restComma?] at found
      split at found
      · next start other first =>
          cases found
          exact ⟨start, List.mem_of_find?_eq_some first⟩
      · exact argument.restComma?_mem commas comma found
  | .array _ elements, comma, found => elementsRestComma?_mem commas elements comma found
  | .object _ properties, comma, found => propertiesRestComma?_mem commas properties comma found

theorem elementsRestComma?_mem (commas : List TrailingComma) :
    ∀ (elements : List (Option Pattern)) (comma : Position),
      elementsRestComma? commas elements = some comma → ∃ start, (start, comma) ∈ commas
  | [], _, found => nomatch found
  | none :: elements, comma, found => elementsRestComma?_mem commas elements comma found
  | some pattern :: elements, comma, found => by
      rw [elementsRestComma?] at found
      rcases Option.or_eq_some_iff.mp found with found | ⟨-, found⟩
      · exact pattern.restComma?_mem commas comma found
      · exact elementsRestComma?_mem commas elements comma found

theorem propertiesRestComma?_mem (commas : List TrailingComma) :
    ∀ (properties : List PatternProperty) (comma : Position),
      propertiesRestComma? commas properties = some comma → ∃ start, (start, comma) ∈ commas
  | [], _, found => nomatch found
  | .field _ _ value _ :: properties, comma, found => by
      rw [propertiesRestComma?] at found
      rcases Option.or_eq_some_iff.mp found with found | ⟨-, found⟩
      · exact value.restComma?_mem commas comma found
      · exact propertiesRestComma?_mem commas properties comma found
  | .rest _ argument :: properties, comma, found => by
      rw [propertiesRestComma?] at found
      rcases Option.or_eq_some_iff.mp found with found | ⟨-, found⟩
      · exact argument.restComma?_mem commas comma found
      · exact propertiesRestComma?_mem commas properties comma found

end

theorem checkRestCommas_marks {commas : List TrailingComma}
    (marks : ∀ comma ∈ commas, comma.1.Marks source ∧ comma.2.Marks source) (pattern : Pattern) :
    ErrsWithin source (checkRestCommas commas pattern) := by
  unfold checkRestCommas
  split
  · next comma found =>
      rcases pattern.restComma?_mem commas comma found with ⟨start, member⟩
      exact .error ⟨(marks _ member).2, rfl⟩
  · exact .ok _

end

end ExprScript
