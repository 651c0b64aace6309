import ExprScript.Proofs.Build.Words
import ExprScript.Proofs.Number.Shortest
import ExprScript.Proofs.Tree.RoundTrip

/-! # Built trees

The trees that are built from literals and names, and what is kept of such a tree when
it is printed and read again: its parts have the parentheses that the printer would
give them, except for the bodies of some functions.
-/

namespace ExprScript

/-! ## Patterns without expressions -/

def plainPatterns : Condition where
  expr _ := False
  pattern pattern := pattern.keyNumbers = []

theorem Pattern.Grammatical.writable {pattern : Pattern} (grammatical : pattern.Grammatical)
    (plain : pattern.Everywhere plainPatterns) : pattern.Everywhere writable := by
  have joins : ExprScript.grammatical.Joins plainPatterns ExprScript.writable := by
    constructor
    · intro expr _ noExpr
      exact noExpr.elim
    · intro pattern read plain
      have noNumber : ∀ number, number ∉ pattern.keyNumbers := by
        rw [show pattern.keyNumbers = [] from plain]
        exact nofun
      refine ⟨read.1, Pattern.words_of_lexical read.2 ?_⟩
      exact fun number member => absurd member (noNumber number)
  exact ⟨joins.pattern _ grammatical.1 plain.1, pattern.inside_join joins grammatical.2 plain.2⟩

mutual

/-- Where there is no expression, no parentheses are added. -/
theorem Pattern.canonical_of_plain : ∀ pattern : Pattern, pattern.Everywhere plainPatterns →
    pattern.canonical = pattern
  | .ident _, _ => rfl
  | .array _ elements, ⟨_, inside⟩ => by
      rw [Pattern.canonical, canonicalPatternElements_of_plain elements inside]
  | .object _ properties, ⟨plain, inside⟩ => by
      rw [Pattern.canonical, canonicalPatternProperties_of_plain properties plain inside]
  | .rest _ argument, ⟨_, inside⟩ => by
      rw [Pattern.canonical, argument.canonical_of_plain inside]
  | .withDefault _ _ _, ⟨_, _, noValue, _⟩ => noValue.elim

theorem canonicalPatternElements_of_plain : ∀ elements : List (Option Pattern),
    patternElementsInside plainPatterns elements → canonicalPatternElements elements = elements
  | [], _ => rfl
  | none :: elements, inside => by
      rw [canonicalPatternElements, canonicalPatternElements_of_plain elements inside]
  | some pattern :: elements, ⟨inside, inside'⟩ => by
      rw [canonicalPatternElements, pattern.canonical_of_plain inside,
        canonicalPatternElements_of_plain elements inside']

theorem canonicalPatternProperties_of_plain : ∀ properties : List PatternProperty,
    properties.flatMap PatternProperty.keyNumbers = [] →
      patternPropertiesInside plainPatterns properties →
        canonicalPatternProperties properties = properties
  | [], _, _ => rfl
  | .rest _ argument :: properties, plain, ⟨inside, inside'⟩ => by
      rw [canonicalPatternProperties, argument.canonical_of_plain inside,
        canonicalPatternProperties_of_plain properties plain inside']
  | .field _ (.name _) value _ :: properties, plain, ⟨⟨_, inside⟩, inside'⟩ => by
      rw [canonicalPatternProperties, PropertyKey.canonical, value.canonical_of_plain inside,
        canonicalPatternProperties_of_plain properties plain inside']
  | .field _ (.string _) value _ :: properties, plain, ⟨⟨_, inside⟩, inside'⟩ => by
      rw [canonicalPatternProperties, PropertyKey.canonical, value.canonical_of_plain inside,
        canonicalPatternProperties_of_plain properties plain inside']
  | .field _ (.number _) _ _ :: _, plain, _ => nomatch plain
  | .field _ (.computed _) _ _ :: _, _, ⟨⟨⟨noKey, _⟩, _⟩, _⟩ => noKey.elim

end

/-- A pattern that the grammar builds, without expressions and numbers in it. -/
structure Pattern.Plain (pattern : Pattern) : Prop where
  grammatical : pattern.Grammatical
  plain : pattern.Everywhere plainPatterns

/-! ## Bodies that are enclosed -/

mutual

/-- The tree with parentheses around every body of a function that is printed with a
brace at the start, as it would be read as a block. -/
def Expr.enclosed : Expr → Expr
  | .template loc quasis holes => .template loc quasis (enclosedItems holes)
  | .array loc elements => .array loc (enclosedElements elements)
  | .object loc properties => .object loc (enclosedProperties properties)
  | .paren loc inner => .paren loc inner.enclosed
  | .arrow loc params body =>
    .arrow loc params (body.enclosed.grouped (startsWith body.print '\x7b'))
  | .unary loc op argument => .unary loc op argument.enclosed
  | .update loc op fixity argument => .update loc op fixity argument.enclosed
  | .binary loc op left right => .binary loc op left.enclosed right.enclosed
  | .logical loc op left right => .logical loc op left.enclosed right.enclosed
  | .conditional loc test consequent alternate =>
    .conditional loc test.enclosed consequent.enclosed alternate.enclosed
  | .assign loc op target value => .assign loc op target.enclosed value.enclosed
  | .destructure loc op pattern value => .destructure loc op pattern value.enclosed
  | .sequence loc items => .sequence loc (enclosedItems items)
  | .member loc owner (.name id) optional => .member loc owner.enclosed (.name id) optional
  | .member loc owner (.computed key) optional =>
    .member loc owner.enclosed (.computed key.enclosed) optional
  | .call loc callee arguments optional =>
    .call loc callee.enclosed (enclosedItems arguments) optional
  | .new loc callee arguments => .new loc callee.enclosed (enclosedItems arguments)
  | .tagged loc tag templateLoc quasis holes =>
    .tagged loc tag.enclosed templateLoc quasis (enclosedItems holes)
  | .spread loc argument => .spread loc argument.enclosed
  | expr => expr

def enclosedItems : List Expr → List Expr
  | [] => []
  | item :: items => item.enclosed :: enclosedItems items

def enclosedElements : List (Option Expr) → List (Option Expr)
  | [] => []
  | none :: elements => none :: enclosedElements elements
  | some item :: elements => some item.enclosed :: enclosedElements elements

def enclosedProperties : List Property → List Property
  | [] => []
  | .spread loc argument :: properties =>
    .spread loc argument.enclosed :: enclosedProperties properties
  | .field loc key value shorthand :: properties =>
    .field loc key value.enclosed shorthand :: enclosedProperties properties

end

theorem enclosedItems_eq_map (items : List Expr) :
    enclosedItems items = items.map Expr.enclosed := by
  induction items with
  | nil => rfl
  | cons item items induction => rw [enclosedItems, induction, List.map_cons]

theorem enclosedElements_eq_map (elements : List (Option Expr)) :
    enclosedElements elements = elements.map (Option.map Expr.enclosed) := by
  induction elements with
  | nil => rfl
  | cons element elements induction =>
      cases element <;> rw [enclosedElements, induction] <;> rfl

namespace Build

/-! ## What can be built -/

/-- Where a tree may stand: as an operand, or as an element of an array or an argument,
where a spread may stand, too. -/
inductive Place where
  | operand
  | element

/-- The trees that are built from literals and names that need no escapes. A signed
zero is a negative number. -/
inductive Built : Place → Expr → Prop
  | null : Built .operand null
  | boolean (value : Bool) : Built .operand (boolean value)
  | number {value : Float} (finite : value.isFinite = true)
      (positive : Number.hasSign value = false) : Built .operand (number value)
  | string (value : String) : Built .operand (string value)
  | this : Built .operand this
  | identifier {name : String} {expr : Expr} (plain : '\\' ∉ name.toList)
      (built : identifier name = .ok expr) : Built .operand expr
  | parenthesized {inner : Expr} (holds : Built .operand inner) :
      Built .operand (parenthesized inner)
  | template {pieces : List String} {holes : List Expr} {expr : Expr}
      (holds : ∀ hole ∈ holes, Built .operand hole) (built : template pieces holes = .ok expr) :
      Built .operand expr
  | binary {op : BinaryOp} {left right : Expr} (first : Built .operand left)
      (second : Built .operand right) : Built .operand (binary op left right)
  | logical {op : LogicalOp} {left right : Expr} (first : Built .operand left)
      (second : Built .operand right) : Built .operand (logical op left right)
  | unary {op : UnaryOp} {argument : Expr} (holds : Built .operand argument) :
      Built .operand (unary op argument)
  | update {op : UpdateOp} {fixity : Fixity} {argument expr : Expr}
      (holds : Built .operand argument) (built : update op fixity argument = .ok expr) :
      Built .operand expr
  | conditional {test consequent alternate : Expr} (first : Built .operand test)
      (second : Built .operand consequent) (third : Built .operand alternate) :
      Built .operand (conditional test consequent alternate)
  | assign {op : AssignOp} {target value expr : Expr} (first : Built .operand target)
      (second : Built .operand value) (built : assign op target value = .ok expr) :
      Built .operand expr
  | destructure {pattern : Pattern} {value : Expr} (plain : pattern.Plain)
      (composite : pattern.isComposite = true) (holds : Built .operand value) :
      Built .operand (destructure pattern value)
  | sequence {items : List Expr} {expr : Expr} (holds : ∀ item ∈ items, Built .operand item)
      (built : sequence items = .ok expr) : Built .operand expr
  | member {owner : Expr} {name : String} {optional : Bool} {expr : Expr}
      (holds : Built .operand owner) (plain : '\\' ∉ name.toList)
      (built : member owner name optional = .ok expr) : Built .operand expr
  | computedMember {owner key : Expr} {optional : Bool} (first : Built .operand owner)
      (second : Built .operand key) : Built .operand (computedMember owner key optional)
  | call {callee : Expr} {arguments : List Expr} {optional : Bool}
      (first : Built .operand callee) (second : ∀ argument ∈ arguments, Built .element argument) :
      Built .operand (call callee arguments optional)
  | new {callee : Expr} {arguments : List Expr} {expr : Expr} (first : Built .operand callee)
      (second : ∀ argument ∈ arguments, Built .element argument)
      (built : new callee arguments = .ok expr) : Built .operand expr
  | taggedTemplate {tag : Expr} {pieces : List String} {holes : List Expr} {expr : Expr}
      (first : Built .operand tag) (second : ∀ hole ∈ holes, Built .operand hole)
      (built : taggedTemplate tag pieces holes = .ok expr) : Built .operand expr
  | array {elements : List (Option Expr)}
      (holds : ∀ item, some item ∈ elements → Built .element item) :
      Built .operand (array elements)
  | object {fields : List (String × Expr)} (plain : ∀ field ∈ fields, '\\' ∉ field.1.toList)
      (holds : ∀ field ∈ fields, Built .operand field.2) : Built .operand (object fields)
  | arrow {params : List Pattern} {body expr : Expr} (plain : ∀ param ∈ params, param.Plain)
      (holds : Built .operand body) (built : arrow params body = .ok expr) : Built .operand expr
  | spread {argument : Expr} (holds : Built .operand argument) : Built .element (spread argument)
  | element {expr : Expr} (holds : Built .operand expr) : Built .element expr

/-! ## Operands -/

/-- The tree is written in a form that is read again. -/
structure Written (place : Place) (expr : Expr) : Prop where
  writable : expr.Everywhere writable
  notSpread : place = .operand → expr.isSpread = false

structure Fitting (place : Place) (level : Nat) (expr : Expr) : Prop
    extends Written place expr where
  tight : level ≤ expr.precedence

namespace Fitting

variable {place : Place} {level : Nat} {expr : Expr}

theorem operand (fitting : Fitting .operand level expr) : expr.Operand level :=
  ⟨fitting.notSpread rfl, .inl fitting.tight⟩

theorem powerBase (fitting : Fitting .operand Precedence.postfixed expr) : expr.PowerBase := by
  have operand := fitting.operand
  have tight := fitting.tight
  cases expr with
  | unary => exact absurd tight (by decide : ¬ Precedence.postfixed ≤ Precedence.unary)
  | update loc op fixity argument =>
      cases fixity with
      | before => trivial
      | after => exact operand
  | _ => exact operand

end Fitting

namespace Written

variable {place : Place} {level : Nat} {expr : Expr} {needed : Bool}

theorem enclose (written : Written place expr) (bound : level ≤ Precedence.primary)
    (notSpread : needed = true → expr.isSpread = false)
    (tight : needed = false → level ≤ expr.precedence) :
    Fitting place level (Build.operand needed expr) := by
  cases needed with
  | false => exact ⟨written, tight rfl⟩
  | true =>
      have inner : expr.Operand Precedence.sequence :=
        ⟨notSpread rfl, .inl expr.sequence_le_precedence⟩
      exact ⟨⟨⟨⟨inner, trivial⟩, written.writable⟩, fun _ => rfl⟩, bound⟩

theorem operand (written : Written .operand expr) (bound : level ≤ Precedence.primary)
    (tight : needed = false → level ≤ expr.precedence) :
    Fitting .operand level (Build.operand needed expr) :=
  written.enclose bound (fun _ => written.notSpread rfl) tight

theorem below (written : Written .operand expr) (bound : level ≤ Precedence.primary) :
    Fitting .operand level (Build.operand (expr.precedence < level) expr) :=
  written.operand bound fun strong => Nat.not_lt.mp (of_decide_eq_false strong)

theorem upTo (written : Written .operand expr) (bound : level < Precedence.primary) :
    Fitting .operand (level + 1) (Build.operand (expr.precedence ≤ level) expr) :=
  written.operand bound fun strong => Nat.not_le.mp (of_decide_eq_false strong)

theorem item (written : Written place expr) :
    Fitting place Precedence.assignment (Build.item expr) := by
  apply written.enclose (by decide)
  · intro weak
    cases expr with
    | spread => simp [Expr.precedence] at weak
    | _ => rfl
  · intro strong
    exact Nat.not_lt.mp (of_decide_eq_false strong)

end Written

/-- The tree is written in a form that is read again, and parentheses are missing from
it only around bodies of functions. -/
structure Faithful (place : Place) (expr : Expr) : Prop where
  writable : expr.Everywhere writable
  canonical : expr.canonical = expr.enclosed
  notSpread : place = .operand → expr.isSpread = false

structure Settled (place : Place) (level : Nat) (expr : Expr) : Prop
    extends Faithful place expr where
  tight : level ≤ expr.precedence

namespace Faithful

variable {place : Place} {level : Nat} {expr : Expr} {needed : Bool}

theorem written (faithful : Faithful place expr) : Written place expr :=
  ⟨faithful.writable, faithful.notSpread⟩

theorem enclose (faithful : Faithful place expr)
    (fitting : Fitting place level (Build.operand needed expr)) :
    Settled place level (Build.operand needed expr) := by
  refine ⟨⟨fitting.writable, ?_, fitting.notSpread⟩, fitting.tight⟩
  cases needed with
  | false => exact faithful.canonical
  | true =>
      change (Expr.paren {} expr).canonical = (Expr.paren {} expr).enclosed
      rw [Expr.canonical, faithful.canonical]
      rfl

theorem operand (faithful : Faithful .operand expr) (bound : level ≤ Precedence.primary)
    (tight : needed = false → level ≤ expr.precedence) :
    Settled .operand level (Build.operand needed expr) :=
  faithful.enclose (faithful.written.operand bound tight)

theorem below (faithful : Faithful .operand expr) (bound : level ≤ Precedence.primary) :
    Settled .operand level (Build.operand (expr.precedence < level) expr) :=
  faithful.enclose (faithful.written.below bound)

theorem upTo (faithful : Faithful .operand expr) (bound : level < Precedence.primary) :
    Settled .operand (level + 1) (Build.operand (expr.precedence ≤ level) expr) :=
  faithful.enclose (faithful.written.upTo bound)

theorem item (faithful : Faithful place expr) :
    Settled place Precedence.assignment (Build.item expr) :=
  faithful.enclose faithful.written.item

end Faithful

namespace Settled

variable {place : Place} {level : Nat} {expr : Expr}

theorem ungrouped (settled : Settled place level expr) :
    expr.canonical.grouped (expr.precedence < level) = expr.enclosed := by
  rw [Expr.grouped, if_neg (by simpa using settled.tight), settled.canonical]

theorem operand (settled : Settled .operand level expr) : expr.Operand level :=
  ⟨settled.notSpread rfl, .inl settled.tight⟩

theorem item (settled : Settled place Precedence.assignment expr) : expr.Item := .inl settled.tight

end Settled

end Build

end ExprScript
