import ExprScript.Proofs.Reading.Level
import ExprScript.Proofs.Reading.State

/-! # Rules that read what is printed

What it means that a rule reads an expression. `RulesRead` is the hypothesis under
which the grammar is read bottom up: the rules read all legible expressions that are
small enough.
-/

namespace ExprScript

open Scanner

namespace Expr

open ParserState

variable {state : ParserState} {rest : List Lexeme}

theorem length_pos {expr : Expr} (holds : expr.Everywhere legible) :
    0 < expr.lexemes.length := by
  rcases expr.opens holds with ⟨-, -, lexeme, others, -, equal, -⟩
  rw [equal]
  exact Nat.succ_pos _

theorem mayStart_of_facing {expr : Expr} (holds : expr.Everywhere legible)
    (notSpread : expr.isSpread = false) (facing : state.Facing (expr.lexemes ++ rest)) :
    state.lookahead.kind.mayStart = true := by
  rcases expr.opens holds with ⟨-, -, lexeme, others, -, equal, -, -, begins⟩
  rw [equal] at facing
  have starts := begins.operand notSpread
  rcases facing.kind_or with kind | ⟨-, kind | kind⟩
  · rw [kind]
    change lexeme.1.mayStart = true
    simp [TokenKind.mayStart, starts]
  · rw [kind]
    rfl
  · rw [kind]
    rfl

theorem ne_mark_of_facing {mark : Punctuator} {level : Nat} (facing : state.Facing rest)
    (stops : (nextKind rest).continues < level)
    (high : level ≤ (TokenKind.punctuator mark).continues) :
    state.lookahead.kind ≠ .punctuator mark := by
  have known := Nat.lt_of_lt_of_le stops (Nat.le_trans high (TokenKind.continues_le_primary _))
  rw [facing.kind (TokenKind.notRegExp_of_continues known)]
  exact TokenKind.ne_of_continues stops high

/-! ## Reading an expression -/

def ReadBy (expr : Expr) (pre : ParserState → Prop) (action : Parse Expr)
    (rest : List Lexeme) : Prop :=
  ∀ state : ParserState, state.Facing (expr.lexemes ++ rest) → state.pendingInitializer = none →
    pre state → Achieves action state fun found after => found.erase = expr.erase ∧
      state.Reaches rest (expr.hasInitializer = false) after

def anywhere : ParserState → Prop := fun _ => True

def atStart : ParserState → Prop := fun state =>
  state.lookahead.span.start.offset = state.assignmentStart

variable {expr : Expr} {action : Parse Expr}

theorem ReadBy.inherit (read : expr.ReadBy anywhere action rest)
    (facing : state.Facing (expr.lexemes ++ rest)) :
    Achieves (Parse.inherit action) state fun found after => found.erase = expr.erase ∧
      state.Reaches rest (expr.hasInitializer = false) after := by
  apply Parse.inherit_achieves
  rintro start rfl
  exact read { state with pendingInitializer := none } ⟨facing.1, facing.2, facing.3⟩ rfl trivial

theorem ReadBy.isolate (read : expr.ReadBy anywhere action rest)
    (settled : expr.hasInitializer = false) (facing : state.Facing (expr.lexemes ++ rest)) :
    Achieves (Parse.isolate action) state fun found after => found.erase = expr.erase ∧
      state.Reaches rest True after := by
  apply Parse.isolate_achieves
  rintro start rfl
  refine (read { state with pendingInitializer := none } ⟨facing.1, facing.2, facing.3⟩ rfl
    trivial).mono ?_
  rintro found after ⟨same, reaches⟩
  exact ⟨same, reaches.mono fun _ => settled⟩

theorem ReadBy.inherited {pre : ParserState → Prop} (read : expr.ReadBy pre action rest) :
    expr.ReadBy pre (Parse.inherit action) rest := by
  intro state facing clear holds
  apply Parse.inherit_achieves
  rintro start rfl
  have same : { state with pendingInitializer := none } = state := by rw [← clear]
  rw [same]
  exact read state facing clear holds

end Expr

/-- The rules read all legible expressions with fewer tokens than a bound. -/
structure RulesRead (rules : Rules) (size : Nat) : Prop where
  assignment : ∀ {expr : Expr} {rest : List Lexeme}, expr.Everywhere legible →
    expr.lexemes.length < size → expr.Binds Precedence.assignment →
    (nextKind rest).continues < Precedence.assignment →
    expr.ReadBy Expr.anywhere (rules .assignment) rest
  exponent : ∀ {expr : Expr} {rest : List Lexeme}, expr.Everywhere legible →
    expr.lexemes.length < size → expr.Binds Precedence.exponent →
    (nextKind rest).continues < Precedence.exponent →
    expr.ReadBy Expr.anywhere (rules .exponent) rest
  unary : ∀ {expr : Expr} {rest : List Lexeme}, expr.Everywhere legible →
    expr.lexemes.length < size → expr.Binds Precedence.unary →
    (nextKind rest).continues < Precedence.unary →
    expr.ReadBy Expr.anywhere (rules .unary) rest
  construction : ∀ {loc : Span} {callee : Expr} {arguments : List Expr} {rest : List Lexeme},
    (Expr.new loc callee arguments).Everywhere legible →
    (Expr.new loc callee arguments).lexemes.length < size →
    (Expr.new loc callee arguments).ReadBy Expr.anywhere (rules .construction) rest

/-! ## Loops over lists -/

section Lists

variable {ι γ β : Type} {round : List γ → Parse (Round (List γ) β)} {tokens : List ι → List Lexeme}
  {related : γ → ι → Prop} {holds calm : ι → Prop} {rest : List Lexeme}

/-- A round reads the first item that is left, and adds it to the results. The tokens
ahead are those of the items that are left. -/
def ReadsItems (round : List γ → Parse (Round (List γ) β)) (tokens : List ι → List Lexeme)
    (related : γ → ι → Prop) (holds calm : ι → Prop) (rest : List Lexeme) : Prop :=
  ∀ item items reversed (state : ParserState), holds item → (∀ item ∈ items, holds item) →
    state.Facing (tokens (item :: items) ++ rest) →
    (tokens items).length < (tokens (item :: items)).length ∧
    Achieves (round reversed) state fun outcome after => ∃ found,
      outcome = .again (found :: reversed) ∧ related found item ∧
        state.Reaches (tokens items ++ rest) (calm item) after

theorem ReadsItems.rounds (reads : ReadsItems round tokens related holds calm rest) :
    ∀ items reversed (state : ParserState), (∀ item ∈ items, holds item) →
      state.Facing (tokens items ++ rest) →
      ∃ found after, Rounds round items.length reversed state (found.reverse ++ reversed) after ∧
        List.Forall₂ related found items ∧ items.length ≤ (tokens items).length ∧
        state.Reaches (tokens [] ++ rest) (∀ item ∈ items, calm item) after := by
  intro items
  induction items with
  | nil =>
      intro reversed state _ facing
      exact ⟨[], state, .none, .nil, Nat.zero_le _, facing.reaches⟩
  | cons item items induction =>
      intro reversed state all facing
      have later : ∀ item ∈ items, holds item :=
        fun item member => all item (List.mem_cons_of_mem _ member)
      rcases reads item items reversed state (all item (List.mem_cons_self ..)) later facing with
        ⟨shorter, outcome, middle, run, first, rfl, isItem, reaches⟩
      rcases induction (first :: reversed) middle later reaches.facing with
        ⟨found, after, rounds, each, room, reaches'⟩
      refine ⟨first :: found, after, ?_, .cons isItem each, Nat.lt_of_le_of_lt room shorter,
        (reaches.trans reaches').mono ?_⟩
      · rw [List.reverse_cons, List.append_assoc]
        exact .one run rounds
      · exact fun calm => ⟨calm item (List.mem_cons_self ..),
          fun item member => calm item (List.mem_cons_of_mem _ member)⟩

/-- A loop that collects one result for each item of a list. -/
theorem Parse.loop_items (tokens : List ι → List Lexeme) (related : γ → ι → Prop)
    (holds calm : ι → Prop) {items : List ι} {reversed : List γ} {state : ParserState}
    {post : β → ParserState → Prop} (all : ∀ item ∈ items, holds item)
    (facing : state.Facing (tokens items ++ rest))
    (reads : ReadsItems round tokens related holds calm rest)
    (done : ∀ found after, List.Forall₂ related found items →
      state.Reaches (tokens [] ++ rest) (∀ item ∈ items, calm item) after →
      Achieves (round (found.reverse ++ reversed)) after fun outcome final =>
        outcome.Holds (fun _ => False) (post · final)) :
    Achieves (Parse.loop round reversed) state post := by
  rcases reads.rounds items reversed state all facing with
    ⟨found, after, rounds, each, room, reaches⟩
  refine Parse.loop_achieves facing ?_ rounds (done found after each reaches)
  rw [List.length_append]
  exact Nat.le_add_right_of_le room

end Lists

theorem eraseItems_of_forall₂ {found items : List Expr}
    (each : List.Forall₂ (fun found item => found.erase = item.erase) found items) :
    eraseItems found = eraseItems items := by
  induction each with
  | nil => rfl
  | cons same _ induction => rw [eraseItems, eraseItems, same, induction]

theorem eraseElements_of_forall₂ {found elements : List (Option Expr)}
    (each : List.Forall₂ (fun found element => found.map Expr.erase = element.map Expr.erase)
      found elements) : eraseElements found = eraseElements elements := by
  induction each with
  | nil => rfl
  | @cons found element _ _ same _ induction =>
      match found, element with
      | none, none => rw [eraseElements, eraseElements, induction]
      | some found, some item =>
          rw [eraseElements, eraseElements, Option.some.inj same, induction]

end ExprScript
