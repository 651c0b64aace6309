import ExprScript.Proofs.Build.Words
import ExprScript.Proofs.Grammar.Expression
import ExprScript.Proofs.Tree.KeyNames

/-! # Templates and regular expressions that are read back

The text between the holes of a template is escaped when the template is built, and it is
read back as it was before. Nothing in a regular expression can be escaped: its flags are
checked, and its pattern may not start like a comment. The text is read back exactly if the
pattern has no slash of its own and can stand on one line: it is the body of a literal.
-/

namespace ExprScript.Build

/-! ## Templates -/

section

variable {pieces : List String} {holes : List Expr}

theorem erase_quasis (pieces : List String) :
    (quasis pieces).map Quasi.erase = quasis pieces := by
  induction pieces with
  | nil => rfl
  | cons cooked pieces induction =>
      rw [quasis, List.map_cons, induction]
      rfl

/-- The text of the tree is parsed, and what is parsed has no infinite key and is printed as
the same text again. -/
def Reprints (expr : Expr) : Prop :=
  ∃ found, parse expr.print = .ok found ∧ found.Everywhere finiteKeys ∧ found.print = expr.print

theorem exists_writable (reprint : ∀ hole ∈ holes, Reprints hole) : ∃ trees : List Expr,
    printHoles trees = printHoles holes ∧ trees.length = holes.length ∧
      ∀ tree ∈ trees, tree.Everywhere writable ∧ tree.Operand Precedence.sequence := by
  induction holes with
  | nil => exact ⟨[], rfl, rfl, nofun⟩
  | cons hole holes induction =>
      rcases List.forall_mem_cons.mp reprint with ⟨⟨tree, parsed, finite, text⟩, reprint⟩
      rcases induction reprint with ⟨trees, texts, length, holds⟩
      rcases parse_grammatical parsed with ⟨grammatical, operand⟩
      have written := grammatical.writable finite
      refine ⟨tree :: trees, ?_, congrArg Nat.succ length,
        List.forall_mem_cons.mpr ⟨⟨written, operand⟩, holds⟩⟩
      rw [printHoles, printHoles, text, texts]

/-- A template of trees that can be written is read back with the same text between its
holes. -/
theorem parse_written_template (length : pieces.length = holes.length + 1)
    (holds : ∀ hole ∈ holes, hole.Everywhere writable ∧ hole.Operand Precedence.sequence) :
    ∃ loc quasis' holes',
      parse (Expr.template {} (quasis pieces) holes).print = .ok (.template loc quasis' holes') ∧
      quasis'.map Quasi.erase = quasis pieces := by
  have shape : TemplateShape (quasis pieces) holes :=
    ⟨tails_quasis length, fun hole member => (holds hole member).2⟩
  have everywhere : (Expr.template {} (quasis pieces) holes).Everywhere writable :=
    ⟨⟨shape, fun _ => templateText_of_quasis⟩,
      (itemsInside_iff _ _).mpr fun hole member => (holds hole member).1⟩
  have operand : (Expr.template {} (quasis pieces) holes).Operand Precedence.sequence :=
    ⟨rfl, .inl (Expr.sequence_le_precedence _)⟩
  rcases parse_print everywhere operand with ⟨found, parsed, same, -⟩
  cases found with
  | template loc quasis' holes' =>
      rw [Expr.canonical, Expr.erase, Expr.erase] at same
      refine ⟨loc, quasis', holes', parsed, ?_⟩
      injection same with _ same _
      exact same.trans (erase_quasis pieces)
  | _ =>
    rw [Expr.canonical, Expr.erase, Expr.erase] at same
    cases same

/-- A template is read back with the same text between its holes, if the text of each hole
is read as a tree with that text. -/
theorem parse_template (length : pieces.length = holes.length + 1)
    (reprint : ∀ hole ∈ holes, Reprints hole) :
    ∃ expr loc quasis' holes', template pieces holes = .ok expr ∧
      parse expr.print = .ok (.template loc quasis' holes') ∧
      quasis'.map Quasi.erase = quasis pieces := by
  have built : template pieces holes = .ok (.template {} (quasis pieces) holes) := by
    rw [template, templateQuasis, if_pos length]
    rfl
  rcases exists_writable reprint with ⟨trees, texts, length', holds⟩
  have text : (Expr.template {} (quasis pieces) trees).print =
      (Expr.template {} (quasis pieces) holes).print := by
    rw [Expr.print, Expr.print, texts]
  rcases parse_written_template (length.trans (congrArg Nat.succ length'.symm)) holds with
    ⟨loc, quasis', holes', parsed, same⟩
  exact ⟨_, loc, quasis', holes', built, text ▸ parsed, same⟩

/-- The negative zero is printed without its sign. -/
theorem parse_template_sample :
    ["a", "$\x7b"].length = [number (-0.0)].length + 1 ∧
      (∀ hole ∈ [number (-0.0)], Reprints hole) ∧
      ∃ expr loc quasis' holes', template ["a", "$\x7b"] [number (-0.0)] = .ok expr ∧
        parse expr.print = .ok (.template loc quasis' holes') ∧
        quasis'.map Quasi.erase = quasis ["a", "$\x7b"] := by
  have reprint : ∀ hole ∈ [number (-0.0)], Reprints hole := by
    have reads : (parse (number (-0.0)).print).toOption.any (fun found =>
        decide (found.Everywhere finiteKeys) && found.print == (number (-0.0)).print) = true := by
      decide +kernel
    rcases exists_ok_of_any reads with ⟨found, parsed, same⟩
    rw [Bool.and_eq_true, decide_eq_true_eq, beq_iff_eq] at same
    exact List.forall_mem_singleton.mpr ⟨found, parsed, same⟩
  exact ⟨rfl, reprint, parse_template rfl reprint⟩

/-- The comment in the hole swallows the brace behind it, up to the next line. -/
theorem not_parse_template_comment : ∃ slash expr,
    regExp "a/ //" "" = .ok slash ∧ (parse slash.print).toBool = true ∧
      template ["", "\n\x7d"] [slash] = .ok expr ∧
      (match parse expr.print with
        | .ok (.template _ quasis' _) => decide (quasis'.map (·.cooked) = ["", ""])
        | _ => false) = true := by
  refine ⟨_, _, rfl, ?_, rfl, ?_⟩ <;> decide +kernel

end

/-! ## Regular expressions -/

section

open Scanner

variable {pattern flags : String} {expr : Expr}

theorem regExp_eq_ok (built : regExp pattern flags = .ok expr) :
    expr = .regExp {} pattern flags ∧ Parse.validRegExpFlags flags.toList = true ∧
      pattern.toList ≠ [] ∧ pattern.toList.head? ≠ some '*' := by
  unfold regExp at built
  split at built
  · cases built
  · cases built
  · next notEmpty noStar =>
      rcases except_bind_ok built with ⟨⟨⟩, checked, result⟩
      cases result
      unfold Parse.checkRegExpFlags at checked
      split at checked
      · next valid =>
          refine ⟨rfl, valid, notEmpty, fun star => ?_⟩
          rcases List.head?_eq_some_iff.mp star with ⟨tail, text⟩
          exact noStar tail text
      · cases checked

theorem regExpText_of_body (built : regExp pattern flags = .ok expr)
    (body : RegExpBody false pattern.toList) : RegExpText pattern.toList flags.toList := by
  rcases regExp_eq_ok built with ⟨-, valid, notEmpty, noComment⟩
  exact ⟨body, notEmpty, noComment, validRegExpFlags_parts valid⟩

theorem body_of_parse {source : String} {strict : Bool} {loc : Span}
    (parsed : parse source strict = .ok (.regExp loc pattern flags)) :
    RegExpBody false pattern.toList :=
  have read : RegExpRead pattern flags := (parse_grammatical parsed).1.1.2
  read.regExpText.1.body

theorem parse_of_body (built : regExp pattern flags = .ok expr)
    (body : RegExpBody false pattern.toList) :
    ∃ loc, parse expr.print = .ok (.regExp loc pattern flags) := by
  have text := regExpText_of_body built body
  rcases regExp_eq_ok built with ⟨rfl, valid, -⟩
  have everywhere : (Expr.regExp {} pattern flags).Everywhere writable :=
    ⟨⟨trivial, text, valid⟩, trivial⟩
  have operand : (Expr.regExp {} pattern flags).Operand Precedence.sequence :=
    ⟨rfl, .inl (Expr.sequence_le_precedence _)⟩
  rcases parse_print everywhere operand with ⟨found, parsed, same, -⟩
  cases found with
  | regExp loc pattern' flags' =>
      rw [Expr.canonical, Expr.erase, Expr.erase] at same
      cases same
      exact ⟨loc, parsed⟩
  | _ =>
      rw [Expr.canonical, Expr.erase, Expr.erase] at same
      cases same

/-- A regular expression that is built is read back with its pattern and its flags exactly
if the pattern is the body of a literal. -/
theorem parse_regExp_iff (built : regExp pattern flags = .ok expr) :
    (∃ loc, parse expr.print = .ok (.regExp loc pattern flags)) ↔
      RegExpBody false pattern.toList :=
  ⟨fun ⟨_, parsed⟩ => body_of_parse parsed, parse_of_body built⟩

/-- The slash in the brackets and the one behind a backslash belong to the body. -/
theorem parse_regExp_iff_class : ∃ expr, regExp "[/]\\/=" "gi" = .ok expr ∧
    ((∃ loc, parse expr.print = .ok (.regExp loc "[/]\\/=" "gi")) ↔
      RegExpBody false "[/]\\/=".toList) ∧ RegExpBody false "[/]\\/=".toList := by
  have body : RegExpBody false "[/]\\/=".toList := by
    refine .opens (.plain (by decide) (by decide) (fun _ => rfl) (by decide) (.closes ?_))
    exact .escape (by decide) (.plain (by decide) (by decide) (by decide) (by decide) .nil)
  exact ⟨_, rfl, parse_regExp_iff rfl, body⟩

/-- The pattern of `/a/b/` would end at its own slash. -/
theorem not_parse_regExp_slash : ∃ expr, regExp "a/b" "" = .ok expr ∧
    ¬ ∃ loc, parse expr.print = .ok (.regExp loc "a/b" "") := by
  refine ⟨_, rfl, ?_⟩
  rintro ⟨loc, parsed⟩
  have fails : (parse (Expr.regExp {} "a/b" "").print).isOk = false := by decide +kernel
  rw [parsed] at fails
  cases fails

end

end ExprScript.Build
