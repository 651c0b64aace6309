import ExprScript.Grammar.Expression
import ExprScript.Proofs.Comma.Chain
import ExprScript.Proofs.Grammar.Operator
import ExprScript.Proofs.Span.Expression

/-! # Rests are last

Every rule notes the commas behind the spreads of arrays if the rules inside of it do, so all
of them do, at every depth. When a literal becomes a pattern, a noted comma is an error. In a
tree that is parsed from a text, a rest of an array or of a parameter list is therefore
followed by the closing mark. A comma behind the rest of an object is not noted.
-/

namespace ExprScript

open ParserState

/-! ## Operands on the stack -/

namespace Climb

variable {source : List Char} {commas : List TrailingComma}

theorem join_noted {waiting : PendingOperator} {left right joined : Expr}
    (leftNoted : left.Noted source commas) (rightNoted : right.Noted source commas)
    (run : waiting.join left right = .ok joined) : joined.Noted source commas := by
  rcases PendingOperator.join_ok run with ⟨op, rfl⟩ | ⟨op, rfl⟩ <;>
    exact ⟨rfl, trivial, leftNoted.everywhere, rightNoted.everywhere⟩

theorem reduceFrom_noted {precedence : Nat} {operators : List PendingOperator}
    {operands : List Expr} {climb : Climb}
    (noted : ∀ operand ∈ operands, operand.Noted source commas)
    (run : reduceFrom precedence operators operands = .ok climb) :
    ∀ operand ∈ climb.operands, operand.Noted source commas := by
  induction operators generalizing operands with
  | nil =>
      cases run
      exact noted
  | cons waiting operators induction =>
      rw [reduceFrom] at run
      split at run
      · cases run
        exact noted
      · rcases except_bind_ok run with ⟨reduced, reduce, run⟩
        unfold reduceTop at reduce
        split at reduce
        · next right left others =>
            rcases except_bind_ok reduce with ⟨joined, join, final⟩
            cases final
            rcases List.forall_mem_cons.mp noted with ⟨rightNoted, noted⟩
            rcases List.forall_mem_cons.mp noted with ⟨leftNoted, noted⟩
            refine induction (List.forall_mem_cons.mpr ⟨?_, noted⟩) run
            exact join_noted leftNoted rightNoted join
        · cases reduce

theorem shift_noted {climb shifted : Climb} {waiting : PendingOperator}
    (noted : ∀ operand ∈ climb.operands, operand.Noted source commas)
    (run : climb.shift waiting = .ok shifted) :
    ∀ operand ∈ shifted.operands, operand.Noted source commas := by
  rcases except_bind_ok run with ⟨reduced, reduce, final⟩
  have noted' := reduceFrom_noted noted reduce
  cases final
  exact noted'

theorem finish_noted {climb : Climb} {position : Position} {result : Expr}
    (noted : ∀ operand ∈ climb.operands, operand.Noted source commas)
    (run : climb.finish position = .ok result) : result.Noted source commas := by
  rcases except_bind_ok run with ⟨reduced, reduce, run⟩
  have noted := reduceFrom_noted noted reduce
  split at run
  · next found =>
      cases run
      rw [found] at noted
      exact noted _ (List.mem_cons_self ..)
  · cases run

end Climb

namespace Parse

variable {source : List Char} {rules : Rules} (records : RulesRecord source rules)

include records

/-! ## Operators -/

theorem postfixed_records : Records source (postfixed rules) := by
  intro before adjoins
  refine start_bind (.bind ((inherit_records (chain_records records) before adjoins).mono ?_))
  intro expr middle gives
  refine lookahead_bind ?_
  split
  · exact .pure gives
  · refine .ite (fun _ => .pure gives) fun _ => .ite (fun _ => .bind (fail_ensures _ _)) fun _ => ?_
    refine .bind ((advance_consumes gives.adjoins).mono ?_)
    intro _ after ⟨_, consumes⟩
    exact spanFrom_ensures (.pure ⟨gives.trans consumes.toNotes, rfl, trivial,
      (gives.noted.mono consumes.commas).everywhere⟩)

theorem unary_records : Records source (unary rules) := by
  intro before adjoins
  have operand : Ensures advance before fun _ opened =>
      Ensures (isolate (rules .unary)) opened (Gives source before) := by
    refine (advance_consumes adjoins).mono ?_
    intro _ opened ⟨_, opens⟩
    exact (isolate_records (records .unary) opened opens.adjoins).mono fun _ _ => opens.gives
  refine start_bind (kind_bind ?_)
  split
  · refine .bind (operand.mono fun _ _ argument => .bind (argument.mono ?_))
    intro argument after gives
    exact spanFrom_ensures (.pure ⟨gives.toNotes, rfl, trivial, gives.noted.everywhere⟩)
  · refine .bind (operand.mono fun _ _ argument => .bind (argument.mono ?_))
    intro argument after gives
    refine .ite (fun _ => .bind (fail_ensures _ _)) fun _ => ?_
    exact spanFrom_ensures (.pure ⟨gives.toNotes, rfl, trivial, gives.noted.everywhere⟩)
  · exact postfixed_records records before adjoins

theorem exponent_records : Records source (exponent rules) := by
  intro before adjoins
  refine .bind ((inherit_records (unary_records records) before adjoins).mono ?_)
  intro base middle ⟨notes, base'⟩
  refine at?_bind (.ite (fun _ => .pure ⟨notes, base'⟩) fun _ => .ite (fun _ => ?_) fun _ => ?_)
  · exact start_bind (.bind (fail_ensures _ _))
  · refine .bind ((advance_consumes notes.adjoins).mono ?_)
    intro _ opened ⟨_, opens⟩
    refine .bind ((isolate_records (records .exponent) opened opens.adjoins).mono ?_)
    intro power after ⟨notes', power'⟩
    have later := opens.toNotes.trans notes'
    exact .pure ⟨notes.trans later, rfl, trivial, (base'.mono later.commas).everywhere,
      power'.everywhere⟩

theorem binary_records : Records source (binary rules) := by
  intro before adjoins
  refine .bind ((inherit_records (exponent_records records) before adjoins).mono ?_)
  intro first opened ⟨notes, first'⟩
  refine .bind (loop_ensures (fun (climb : Climb) state => Notes source before state ∧
    ∀ operand ∈ climb.operands, operand.Noted source state.trailingCommas) ?_
    ⟨notes, List.forall_mem_singleton.mpr first'⟩)
  intro climb state ⟨notes, operands⟩
  refine kind_bind ?_
  split
  · refine .pure (.get (ofExcept_ensures fun result run => ?_))
    exact ⟨notes, Climb.finish_noted operands run⟩
  · refine start_bind (ofExcept_bind fun shifted shift => ?_)
    refine .bind ((advance_consumes notes.adjoins).mono ?_)
    intro _ middle ⟨_, steps⟩
    refine .bind ((isolate_records (exponent_records records) middle steps.adjoins).mono ?_)
    intro operand after ⟨notes', operand'⟩
    have later := steps.toNotes.trans notes'
    refine .pure ⟨notes.trans later, List.forall_mem_cons.mpr ⟨operand', ?_⟩⟩
    intro other member
    exact (Climb.shift_noted operands shift other member).mono later.commas

theorem conditional_records : Records source (conditional rules) := by
  intro before adjoins
  refine start_bind (.bind ((inherit_records (binary_records records) before adjoins).mono ?_))
  intro test middle ⟨notes, test'⟩
  refine at?_bind (.ite (fun _ => .pure ⟨notes, test'⟩) fun _ => ?_)
  refine .bind ((advance_consumes notes.adjoins).mono ?_)
  intro _ opened ⟨_, opens⟩
  refine .bind ((isolate_records (records .assignment) opened opens.adjoins).mono ?_)
  intro consequent divided ⟨notes', consequent'⟩
  refine .bind ((expect_consumes .colon notes'.adjoins).mono ?_)
  intro _ behind ⟨_, steps⟩
  refine .bind ((isolate_records (records .assignment) behind steps.adjoins).mono ?_)
  intro alternate after ⟨notes'', alternate'⟩
  have second := steps.toNotes.trans notes''
  have first := opens.toNotes.trans (notes'.trans second)
  exact spanFrom_ensures (.pure ⟨notes.trans first, rfl, trivial,
    (test'.mono first.commas).everywhere, (consequent'.mono second.commas).everywhere,
    alternate'.everywhere⟩)

/-! ## Assignments -/

theorem assignedValue_records : Records source (assignedValue rules) := by
  intro before adjoins
  refine .bind ((advance_consumes adjoins).mono ?_)
  intro _ opened ⟨_, opens⟩
  exact (isolate_records (records .assignment) opened opens.adjoins).mono fun _ _ => opens.gives

variable {origin before : ParserState}

theorem destructuring_gives (start : Position) (op : AssignOp) {literal : Expr}
    (gives : Gives source origin literal before) :
    Ensures (destructuring rules start op literal) before (Gives source origin) := by
  refine ofExcept_bind fun pattern rebuilt => .get (ofExcept_bind fun _ checked => .modify ?_)
  have noComma : pattern.restComma? before.trailingCommas = none :=
    checkRestCommas_none (by rw [List.forM, checked]; rfl) pattern (List.mem_singleton_self _)
  have pattern' :=
    reinterpret_noted .assignment literal pattern gives.noted.everywhere rebuilt noComma
  refine .bind ((assignedValue_records records _ (gives.adjoins.withPending none)).mono ?_)
  intro value after ⟨notes, value'⟩
  have leads : Notes source before after := ⟨notes.adjoins, notes.commas⟩
  refine spanFrom_ensures (.pure ⟨gives.trans leads, rfl, trivial, ⟨pattern'.1, ?_⟩,
    value'.everywhere⟩)
  exact pattern.inside_join (noted_joins leads.commas) pattern'.2 pattern'.2

theorem assignmentTail_gives (start : Position) {expr : Expr}
    (gives : Gives source origin expr before) :
    Ensures (assignmentTail rules start expr) before (Gives source origin) := by
  refine .ite (fun _ => .pure gives) fun _ => kind_bind ?_
  split
  · exact .pure gives
  · refine .ite (fun _ => destructuring_gives records start _ gives) fun _ => ?_
    refine .ite (fun _ => ?_) fun _ => fail_ensures _ _
    refine .bind ((assignedValue_records records before gives.adjoins).mono ?_)
    intro value after ⟨notes, value'⟩
    exact spanFrom_ensures (.pure ⟨gives.trans notes, rfl, trivial,
      (gives.noted.mono notes.commas).everywhere, value'.everywhere⟩)

theorem assignment_records : Records source (assignment rules) := by
  intro before adjoins
  refine start_bind (.get (.modify ?_))
  let begun : ParserState := { before with assignmentStart := before.offset }
  have adjoins' : begun.Adjoins source := ⟨adjoins.read, adjoins.next⟩
  refine .bind ((inherit_records (conditional_records records) begun adjoins').mono ?_)
  intro expr middle gives
  refine .bind ((assignmentTail_gives records _ gives).mono ?_)
  intro result after ⟨notes, result'⟩
  exact .modify (.pure ⟨⟨⟨notes.adjoins.read, notes.adjoins.next⟩, notes.commas⟩, result'⟩)

/-! ## The whole grammar -/

omit records in
theorem rules_record (source : List Char) (depth : Nat) :
    RulesRecord source (Parse.rules depth) := by
  induction depth with
  | zero => exact fun _ _ _ => start_bind (fail_ensures _ _)
  | succ depth induction =>
      intro rule
      cases rule with
      | assignment => exact assignment_records induction
      | exponent => exact exponent_records induction
      | unary => exact unary_records induction
      | construction => exact construction_records induction

omit records in
theorem program_records (depth : Nat) : Records source (program depth) := by
  intro before adjoins
  refine .bind ((expression_records (rules_record source depth) before adjoins).mono ?_)
  exact fun _ _ gives => kind_bind (.ite (fun _ => .bind unexpected_ensures) fun _ => .pure gives)

end Parse

theorem ParserState.Adjoins.first {source : String} {lookahead : Token} {scanner : Scanner}
    (run : Scanner.next (.ofString source) = .ok lookahead scanner) (strict : Bool) :
    Adjoins source.toList { scanner, lookahead, previousEnd := lookahead.span.start, strict } := by
  have placed := Scanner.placed_ofString source
  refine ⟨⟨_, placed, rfl, run⟩, ?_⟩
  intro mark c isMark spelled
  exact ((Scanner.next_finds _ placed _ _ run).2.2.2 mark c isMark spelled).2

/-- Every text is refused with a syntax error, or parsed to a tree in which no comma follows the
rest of an array pattern or of a parameter list. The rest of an object pattern is followed by the
closing brace, with or without a comma before it. -/
theorem parse_rests_last (source : String) (strict : Bool) :
    match parse source strict with
    | .ok expr => expr.Everywhere (restsLast source.toList)
    | .error error => error.kind = .syntaxError := by
  have rejects := parse_rejects source strict
  cases parsed : parse source strict with
  | error error =>
      rw [parsed] at rejects
      exact rejects.kind
  | ok expr =>
      rcases runs_of_parse parsed with ⟨lookahead, scanner, after, run, program⟩
      have gives := Parse.program_records _ _ (.first run strict) _ _ program
      exact Expr.restsLast_of_noted gives.noted.everywhere

example : (parse "([a, ...[b, ...c,]] = d)").isOk = false := by decide +kernel

/-- No comma follows a rest, whichever list it is in. -/
def restsBare (source : List Char) : Condition where
  expr := fun
    | .arrow _ params _ => ∀ rest argument, Pattern.rest rest argument ∈ params →
        ∀ stop, ¬ Next source rest.stop.offset ',' stop
    | _ => True
  pattern := fun
    | .array _ elements => ∀ rest argument, some (Pattern.rest rest argument) ∈ elements →
        ∀ stop, ¬ Next source rest.stop.offset ',' stop
    | .object _ properties => ∀ rest argument, PatternProperty.rest rest argument ∈ properties →
        ∀ stop, ¬ Next source rest.stop.offset ',' stop
    | _ => True

def Expr.bindsRestUpTo (offset : Nat) : Expr → Bool
  | .paren _ (.destructure _ _ (.object _ [.rest rest _]) _) => rest.stop.offset == offset
  | _ => false

/-- A comma behind the rest of an object is accepted. -/
theorem not_parse_object_restsBare : ∃ expr, parse "({...a,} = b)" = .ok expr ∧
    ¬ expr.Everywhere (restsBare "({...a,} = b)".toList) := by
  have parses : (parse "({...a,} = b)").toOption.any (·.bindsRestUpTo 6) = true := by
    decide +kernel
  rcases exists_ok_of_any parses with ⟨expr, parsed, binds⟩
  unfold Expr.bindsRestUpTo at binds
  split at binds
  · next =>
      refine ⟨_, parsed, ?_⟩
      intro everywhere
      apply everywhere.2.2.1.1 _ _ (List.mem_singleton_self _) 7
      rw [eq_of_beq binds]
      refine ⟨"(\x7b...a".toList, [], "\x7d = b)".toList, rfl, rfl, rfl, .none, ?_⟩
      intro c starts
      cases starts
      exact ⟨rfl, by decide⟩
  · cases binds

end ExprScript
