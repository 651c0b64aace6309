import ExprScript.Grammar.Basic
import ExprScript.Proofs.Grammar.Operator
import ExprScript.Proofs.Token.Uniform
import ExprScript.Proofs.Tree.Grammatical

/-! # What strict mode looks at

Strict mode refuses some tokens: numbers and strings that the scanner has marked, and
words that are reserved. The tree tells which tokens the parser has used as what, in
the order of the source text. Rebuilding an expression as a pattern and reducing
operators do not change that order.
-/

namespace ExprScript

/-- A token that strict mode looks at. The names are those that refer to a variable or
bind one; names of properties are left out. -/
inductive Leaf where
  | name (id : Ident)
  | number (literal : NumberLiteral)
  | string (literal : StringLiteral)

namespace Leaf

def isMarked (text : List Char) (position : Position) : Bool :=
  (Scanner.tokenAt text position).any (·.octal)

/-- Why strict mode refuses the token, if it does. The error is blamed on the start of
the token. -/
def offence? (text : List Char) : Leaf → Option Error
  | .name id =>
    if Parse.strictReservedWords.contains id.name then
      some { cause := .strictReservedWord, position := id.loc.start }
    else none
  | .number literal =>
    if isMarked text literal.loc.start then
      some
        { cause :=
            if literal.raw.toList.any fun c => c == '8' || c == '9' then .leadingZeroDecimal
            else .octalLiteral
          position := literal.loc.start }
    else none
  | .string literal =>
    if isMarked text literal.loc.start then
      some { cause := .octalEscape, position := literal.loc.start }
    else none

end Leaf

mutual

/-- The tokens of an expression that strict mode looks at, from left to right. -/
def Expr.leaves : Expr → List Leaf
  | .null _ | .boolean _ _ | .regExp _ _ _ | .this _ => []
  | .number literal => [.number literal]
  | .string literal => [.string literal]
  | .ident id => [.name id]
  | .template _ _ holes => itemsLeaves holes
  | .array _ elements => elementsLeaves elements
  | .object _ properties => propertiesLeaves properties
  | .paren _ inner => inner.leaves
  | .arrow _ params body => patternsLeaves params ++ body.leaves
  | .unary _ _ argument => argument.leaves
  | .update _ _ _ argument => argument.leaves
  | .binary _ _ left right => left.leaves ++ right.leaves
  | .logical _ _ left right => left.leaves ++ right.leaves
  | .conditional _ test consequent alternate =>
    test.leaves ++ consequent.leaves ++ alternate.leaves
  | .assign _ _ target value => target.leaves ++ value.leaves
  | .destructure _ _ pattern value => pattern.leaves ++ value.leaves
  | .sequence _ items => itemsLeaves items
  | .member _ owner key _ => owner.leaves ++ key.leaves
  | .call _ callee args _ => callee.leaves ++ itemsLeaves args
  | .new _ callee args => callee.leaves ++ itemsLeaves args
  | .tagged _ tag _ _ holes => tag.leaves ++ itemsLeaves holes
  | .spread _ argument => argument.leaves

def itemsLeaves : List Expr → List Leaf
  | [] => []
  | item :: items => item.leaves ++ itemsLeaves items

def elementsLeaves : List (Option Expr) → List Leaf
  | [] => []
  | none :: elements => elementsLeaves elements
  | some element :: elements => element.leaves ++ elementsLeaves elements

def Property.leaves : Property → List Leaf
  | .field _ key value _ => key.leaves ++ value.leaves
  | .spread _ argument => argument.leaves

def propertiesLeaves : List Property → List Leaf
  | [] => []
  | property :: properties => property.leaves ++ propertiesLeaves properties

def PropertyKey.leaves : PropertyKey → List Leaf
  | .name _ => []
  | .string literal => [.string literal]
  | .number literal => [.number literal]
  | .computed key => key.leaves

def MemberKey.leaves : MemberKey → List Leaf
  | .name _ => []
  | .computed key => key.leaves

def Pattern.leaves : Pattern → List Leaf
  | .ident id => [.name id]
  | .array _ elements => patternElementsLeaves elements
  | .object _ properties => patternPropertiesLeaves properties
  | .rest _ argument => argument.leaves
  | .withDefault _ target value => target.leaves ++ value.leaves

def patternsLeaves : List Pattern → List Leaf
  | [] => []
  | pattern :: patterns => pattern.leaves ++ patternsLeaves patterns

def patternElementsLeaves : List (Option Pattern) → List Leaf
  | [] => []
  | none :: elements => patternElementsLeaves elements
  | some element :: elements => element.leaves ++ patternElementsLeaves elements

def PatternProperty.leaves : PatternProperty → List Leaf
  | .field _ key value _ => key.leaves ++ value.leaves
  | .rest _ argument => argument.leaves

def patternPropertiesLeaves : List PatternProperty → List Leaf
  | [] => []
  | property :: properties => property.leaves ++ patternPropertiesLeaves properties

end

/-! ## Lists that grow at their end -/

theorem itemsLeaves_append (items others : List Expr) :
    itemsLeaves (items ++ others) = itemsLeaves items ++ itemsLeaves others := by
  induction items with
  | nil => rfl
  | cons item items induction =>
      rw [List.cons_append, itemsLeaves, itemsLeaves, induction, List.append_assoc]

theorem elementsLeaves_append (elements others : List (Option Expr)) :
    elementsLeaves (elements ++ others) = elementsLeaves elements ++ elementsLeaves others := by
  induction elements with
  | nil => rfl
  | cons element elements induction =>
      cases element with
      | none => rw [List.cons_append, elementsLeaves, elementsLeaves, induction]
      | some element =>
          rw [List.cons_append, elementsLeaves, elementsLeaves, induction, List.append_assoc]

theorem propertiesLeaves_append (properties others : List Property) :
    propertiesLeaves (properties ++ others) =
      propertiesLeaves properties ++ propertiesLeaves others := by
  induction properties with
  | nil => rfl
  | cons property properties induction =>
      rw [List.cons_append, propertiesLeaves, propertiesLeaves, induction, List.append_assoc]

def collectedItems (reversed : List Expr) : List Leaf := itemsLeaves reversed.reverse

def collectedElements (reversed : List (Option Expr)) : List Leaf :=
  elementsLeaves reversed.reverse

def collectedProperties (reversed : List Property) : List Leaf :=
  propertiesLeaves reversed.reverse

theorem collectedItems_cons (item : Expr) (reversed : List Expr) :
    collectedItems (item :: reversed) = collectedItems reversed ++ item.leaves := by
  rw [collectedItems, List.reverse_cons, itemsLeaves_append, collectedItems]
  simp only [itemsLeaves, List.append_nil]

theorem collectedElements_none (reversed : List (Option Expr)) :
    collectedElements (none :: reversed) = collectedElements reversed := by
  rw [collectedElements, List.reverse_cons, elementsLeaves_append, collectedElements]
  simp only [elementsLeaves, List.append_nil]

theorem collectedElements_some (element : Expr) (reversed : List (Option Expr)) :
    collectedElements (some element :: reversed) =
      collectedElements reversed ++ element.leaves := by
  rw [collectedElements, List.reverse_cons, elementsLeaves_append, collectedElements]
  simp only [elementsLeaves, List.append_nil]

theorem collectedProperties_cons (property : Property) (reversed : List Property) :
    collectedProperties (property :: reversed) =
      collectedProperties reversed ++ property.leaves := by
  rw [collectedProperties, List.reverse_cons, propertiesLeaves_append, collectedProperties]
  simp only [propertiesLeaves, List.append_nil]

/-! ## Expressions as patterns -/

mutual

theorem reinterpret_leaves (use : PatternUse) :
    ∀ (expr : Expr) (pattern : Pattern), reinterpret use expr = .ok pattern →
      pattern.leaves = expr.leaves
  | .ident id, pattern, run => by
      rw [reinterpret] at run
      cases run
      rfl
  | .array loc elements, pattern, run => by
      rw [reinterpret] at run
      rcases except_bind_ok run with ⟨patterns, rebuilt, final⟩
      cases final
      exact reinterpretElements_leaves use elements patterns rebuilt
  | .object loc properties, pattern, run => by
      rw [reinterpret] at run
      rcases except_bind_ok run with ⟨patterns, rebuilt, final⟩
      cases final
      exact reinterpretProperties_leaves use properties patterns rebuilt
  | .assign loc .plain target value, pattern, run => by
      rw [reinterpret] at run
      rcases except_bind_ok run with ⟨inner, rebuilt, final⟩
      cases final
      rw [Pattern.leaves, Expr.leaves, reinterpret_leaves use target inner rebuilt]
  | .destructure loc .plain inner value, pattern, run => by
      cases run
      rfl
  | .assign _ (.logical _) _ _, _, run | .assign _ (.arithmetic _) _ _, _, run
  | .destructure _ (.logical _) _ _, _, run | .destructure _ (.arithmetic _) _ _, _, run
  | .null _, _, run
  | .boolean _ _, _, run | .number _, _, run | .string _, _, run | .regExp _ _ _, _, run
  | .template _ _ _, _, run | .this _, _, run | .paren _ _, _, run | .arrow _ _ _, _, run
  | .unary _ _ _, _, run | .update _ _ _ _, _, run | .binary _ _ _ _, _, run
  | .logical _ _ _ _, _, run | .conditional _ _ _ _, _, run | .sequence _ _, _, run
  | .member _ _ _ _, _, run | .call _ _ _ _, _, run | .new _ _ _, _, run
  | .tagged _ _ _ _ _, _, run | .spread _ _, _, run => by
      cases run

theorem reinterpretElements_leaves (use : PatternUse) :
    ∀ (elements : List (Option Expr)) (patterns : List (Option Pattern)),
      reinterpretElements use elements = .ok patterns →
      patternElementsLeaves patterns = elementsLeaves elements
  | [], patterns, run => by
      rw [reinterpretElements] at run
      cases run
      rfl
  | none :: elements, patterns, run => by
      rw [reinterpretElements] at run
      rcases except_bind_ok run with ⟨others, rest, final⟩
      cases final
      exact reinterpretElements_leaves use elements others rest
  | some element :: elements, patterns, run => by
      have later := reinterpretElements_leaves use elements
      have whole := reinterpret_leaves use element
      cases element with
      | spread loc argument =>
          have inner := reinterpret_leaves use argument
          rw [reinterpretElements] at run
          rcases rest_run (fun _ wrong => by cases wrong) run with ⟨isLast, -, pattern, first, final⟩
          cases final
          have nothing : elements = [] := by simpa using isLast
          rw [nothing]
          simp only [patternElementsLeaves, elementsLeaves, Pattern.leaves, Expr.leaves,
            inner pattern first]
      | _ =>
          rw [reinterpretElements] at run
          · rcases except_bind_ok run with ⟨pattern, first, run⟩
            rcases except_bind_ok run with ⟨others, rest, final⟩
            cases final
            rw [patternElementsLeaves, elementsLeaves, whole pattern first, later others rest]
          · simp

theorem reinterpretProperties_leaves (use : PatternUse) :
    ∀ (properties : List Property) (patterns : List PatternProperty),
      reinterpretProperties use properties = .ok patterns →
      patternPropertiesLeaves patterns = propertiesLeaves properties
  | [], patterns, run => by
      rw [reinterpretProperties] at run
      cases run
      rfl
  | .spread loc argument :: properties, patterns, run => by
      cases last : !properties.isEmpty with
      | true =>
          rw [reinterpretProperties.eq_def] at run
          simp only [last] at run
          cases run
      | false =>
          have nothing : properties = [] := by simpa using last
          rw [nothing] at run ⊢
          cases argument with
          | ident id =>
              rw [reinterpretProperties] at run
              cases run
              rfl
          | _ =>
              rw [reinterpretProperties] at run
              · cases run
              · simp
  | .field loc key value shorthand :: properties, patterns, run => by
      rw [reinterpretProperties] at run
      rcases except_bind_ok run with ⟨pattern, first, run⟩
      rcases except_bind_ok run with ⟨others, rest, final⟩
      cases final
      simp only [patternPropertiesLeaves, propertiesLeaves, PatternProperty.leaves,
        Property.leaves, reinterpret_leaves use value pattern first,
        reinterpretProperties_leaves use properties others rest]

end

theorem reinterpretItems_leaves (items : List Expr) (patterns : List Pattern)
    (run : reinterpretItems items = .ok patterns) : patternsLeaves patterns = itemsLeaves items := by
  induction items generalizing patterns with
  | nil =>
      rw [reinterpretItems] at run
      cases run
      rfl
  | cons item items induction =>
      cases item with
      | spread loc argument =>
          rw [reinterpretItems] at run
          rcases rest_run (fun _ wrong => by cases wrong) run with ⟨isLast, -, pattern, first, final⟩
          cases final
          have nothing : items = [] := by simpa using isLast
          rw [nothing]
          simp only [patternsLeaves, itemsLeaves, Pattern.leaves, Expr.leaves,
            reinterpret_leaves _ argument pattern first]
      | _ =>
          rw [reinterpretItems] at run
          · rcases except_bind_ok run with ⟨pattern, first, run⟩
            rcases except_bind_ok run with ⟨others, rest, final⟩
            cases final
            rw [patternsLeaves, itemsLeaves, reinterpret_leaves _ _ pattern first,
              induction others rest]
          · simp

theorem reinterpretParameters_leaves {items : List Expr} {params : List Pattern}
    (run : reinterpretParameters items = .ok params) : patternsLeaves params = itemsLeaves items := by
  rcases except_bind_ok run with ⟨patterns, rebuilt, run⟩
  rcases except_bind_ok run with ⟨_, -, final⟩
  cases final
  exact reinterpretItems_leaves items _ rebuilt

/-! ## Operators -/

namespace Climb

theorem leaves_join {pending : PendingOperator} {left right joined : Expr}
    (run : pending.join left right = .ok joined) : joined.leaves = left.leaves ++ right.leaves := by
  rcases PendingOperator.join_ok run with ⟨op, rfl⟩ | ⟨op, rfl⟩ <;> rfl

def Balanced (climb : Climb) : Prop := climb.operands.length = climb.operators.length + 1

theorem reduceTop_keeps {operands reduced : List Expr} {pending : PendingOperator}
    (run : reduceTop operands pending = .ok reduced) :
    collectedItems reduced = collectedItems operands ∧ operands.length = reduced.length + 1 := by
  unfold reduceTop at run
  split at run
  · rcases except_bind_ok run with ⟨joined, join, final⟩
    cases final
    simp only [collectedItems_cons, leaves_join join, List.append_assoc, List.length_cons, and_self]
  · cases run

theorem reduceFrom_keeps {precedence : Nat} {operators : List PendingOperator}
    {operands : List Expr} {climb : Climb}
    (run : reduceFrom precedence operators operands = .ok climb) :
    collectedItems climb.operands = collectedItems operands ∧
      (Balanced { operands, operators } → climb.Balanced) ∧
      (precedence = 0 → climb.operators = []) := by
  induction operators generalizing operands with
  | nil =>
      cases run
      exact ⟨rfl, id, fun _ => rfl⟩
  | cons top operators induction =>
      rw [reduceFrom] at run
      split at run
      · next tighter =>
          cases run
          refine ⟨rfl, id, fun isZero => ?_⟩
          rw [isZero] at tighter
          exact absurd tighter (Nat.not_lt_zero _)
      · rcases except_bind_ok run with ⟨reduced, reduces, rest⟩
        rcases reduceTop_keeps reduces with ⟨leaves, shorter⟩
        rcases induction rest with ⟨leaves', balanced, noneLeft⟩
        refine ⟨leaves'.trans leaves, fun balance => balanced ?_, noneLeft⟩
        unfold Balanced at balance ⊢
        simp only [List.length_cons] at balance
        dsimp only
        omega

theorem leaves_shift {climb shifted : Climb} {pending : PendingOperator}
    (run : climb.shift pending = .ok shifted) (operand : Expr) :
    collectedItems (shifted.push operand).operands =
      collectedItems climb.operands ++ operand.leaves := by
  rcases except_bind_ok run with ⟨reduced, reduces, final⟩
  cases final
  change collectedItems (operand :: reduced.operands) = _
  rw [collectedItems_cons, (reduceFrom_keeps reduces).1]

theorem Balanced.shift {climb shifted : Climb} {pending : PendingOperator}
    (balanced : climb.Balanced) (run : climb.shift pending = .ok shifted) (operand : Expr) :
    (shifted.push operand).Balanced := by
  rcases except_bind_ok run with ⟨reduced, reduces, final⟩
  cases final
  have balance := (reduceFrom_keeps reduces).2.1 balanced
  unfold Balanced at balance ⊢
  simp only [push, List.length_cons]
  omega

theorem leaves_finish {climb : Climb} {position : Position} {result : Expr}
    (balanced : climb.Balanced) (run : climb.finish position = .ok result) :
    result.leaves = collectedItems climb.operands := by
  rcases except_bind_ok run with ⟨reduced, reduces, final⟩
  rcases reduceFrom_keeps reduces with ⟨leaves, balanced', noneLeft⟩
  have balance := balanced' balanced
  unfold Balanced at balance
  rw [noneLeft rfl] at balance
  rcases List.length_eq_one_iff.mp balance with ⟨only, single⟩
  rw [single] at final leaves
  cases final
  rw [← leaves, collectedItems_cons]
  rfl

end Climb

end ExprScript
