import ExprScript.Grammar.Chain
import ExprScript.Proofs.Reading.Primary

/-! # Reading chains

A chain is read from its start, one link in each round. The induction is on the
chain: its last link is read after the rounds for the links before it.
-/

namespace ExprScript

open Reader Scanner ParserState

namespace Parse

variable {β : Type} {state : ParserState} {post : β → ParserState → Prop}
  {rest : List Lexeme} {rules : Rules} {size : Nat}

/-! ## Links -/

section Links

variable {owner found : Expr} {loc : Span} {optional : Bool}

theorem namedMember_reads (same : found.erase = owner.erase) (start : Position) (loc : Span)
    (optional : Bool) {id : Ident} (facing : state.Facing (.word id.name :: rest)) :
    Achieves (namedMember start found optional) state fun result after =>
      result.erase = (Expr.member loc owner (.name id) optional).erase ∧
        state.Reaches rest True after := by
  refine propertyName_then facing fun id' after same' reaches => ?_
  refine spanFrom_then fun loc => .pure ⟨?_, reaches⟩
  rw [Expr.erase, Expr.erase, MemberKey.erase, MemberKey.erase, same, same']

theorem bracketMember_reads (hold : RulesRead rules size) (same : found.erase = owner.erase)
    (start : Position) (loc : Span) (optional : Bool) {key : Expr}
    (holds : key.Everywhere legible) (settles : key.Settles Precedence.sequence)
    (small : key.lexemes.length < size)
    (facing : state.Facing (enclosed .leftBracket .rightBracket key.lexemes ++ rest)) :
    Achieves (bracketMember rules start found optional) state fun result after =>
      result.erase = (Expr.member loc owner (.computed key) optional).erase ∧
        state.Reaches rest True after := by
  have facing : state.Facing
      (.mark .leftBracket :: (key.lexemes ++ .mark .rightBracket :: rest)) := by
    rwa [enclosed, List.cons_append, List.append_assoc] at facing
  refine .bind (expect_then facing fun first reaches => .bind ?_)
  refine (isolatedExpression_reads hold holds small settles reaches.facing Nat.zero_lt_one).mono ?_
  rintro found' second ⟨same', reaches'⟩
  refine expect_then reaches'.facing fun after reaches'' => .pure ?_
  refine spanFrom_then fun loc => .pure ⟨?_, (reaches.andThen reaches').andThen reaches''⟩
  rw [Expr.erase, Expr.erase, MemberKey.erase, MemberKey.erase, same, same']

theorem callWith_reads (hold : RulesRead rules size) (same : found.erase = owner.erase)
    (start : Position) (loc : Span) (optional : Bool) {arguments : List Expr}
    (readable : ∀ argument ∈ arguments, ReadableItem size argument)
    (settled : ∀ argument ∈ arguments, argument.hasInitializer = false)
    (facing : state.Facing
      (enclosed .leftParen .rightParen (separated (itemsLexemes arguments)) ++ rest)) :
    Achieves (callWith rules start found optional) state fun result after =>
      result.erase = (Expr.call loc owner arguments optional).erase ∧
        state.Reaches rest True after := by
  refine .bind ((arguments_reads hold readable settled facing).mono ?_)
  rintro found after ⟨same', reaches⟩
  refine spanFrom_then fun loc => .pure ⟨?_, reaches⟩
  rw [Expr.erase, Expr.erase, same, same']

theorem taggedTemplate_reads (hold : RulesRead rules size) (same : found.erase = owner.erase)
    (start : Position) (loc templateLoc : Span) {quasis : List Quasi} {holes : List Expr}
    (legible : TemplateLegible quasis holes) (readable : ∀ hole ∈ holes, ReadableHole size hole)
    (facing : state.Facing (templateLexemes false quasis (itemsLexemes holes) ++ rest)) :
    Achieves (taggedTemplate rules start found) state fun result after =>
      result.erase = (Expr.tagged loc owner templateLoc quasis holes).erase ∧
        state.Reaches rest True after := by
  refine .bind ((template_reads hold legible readable facing).mono ?_)
  rintro parts after ⟨same', same'', reaches⟩
  refine spanFrom_then fun loc => .pure ⟨?_, reaches⟩
  rw [Expr.erase, Expr.erase, same, same', same'']

end Links

/-! ## Rounds

A round reads a link after the expression that was read before. Beside it, the loop
over a chain remembers whether there was an optional link. -/

section Rounds

variable {σ : Type}

def ReadsLink (round : Position → σ → Parse (Round σ Expr)) (value : Expr → Bool → σ)
    (owner expr : Expr) (tokens rest : List Lexeme) : Prop :=
  ∀ (start : Position) (found : Expr) (state : ParserState), found.erase = owner.erase →
    state.Facing (tokens ++ rest) →
    Achieves (round start (value found owner.isOptionalChain)) state fun outcome after =>
      ∃ result, outcome = .again (value result expr.isOptionalChain) ∧
        result.erase = expr.erase ∧ state.Reaches rest True after

/-- The chain is read from its head and by the rounds for its links, which leave the
rest. -/
def Linked (opening : Parse Expr) (round : Position → σ → Parse (Round σ Expr))
    (value : Expr → Bool → σ) (expr : Expr) (rest : List Lexeme) : Prop :=
  ∀ state : ParserState, state.Facing (expr.lexemes ++ rest) → state.pendingInitializer = none →
    ∃ first middle tokens count, opening state = .ok first middle ∧
      first.kind ≠ .arrowFunctionExpression ∧ middle.Facing tokens ∧
      count + rest.length ≤ tokens.length ∧ ∀ start, ∃ found after,
        Rounds (round start) count (value first false) middle (value found expr.isOptionalChain)
          after ∧ found.erase = expr.erase ∧
        state.Reaches rest (expr.hasInitializer = false) after

variable {opening : Parse Expr} {round : Position → σ → Parse (Round σ Expr)}
  {value : Expr → Bool → σ} {expr : Expr}

theorem Linked.link {owner : Expr} {tokens : List Lexeme}
    (linked : Linked opening round value owner (tokens ++ rest))
    (settled : owner.hasInitializer = false)
    (reads : ReadsLink round value owner expr tokens rest)
    (equal : expr.lexemes = owner.lexemes ++ tokens) (notEmpty : 0 < tokens.length) :
    Linked opening round value expr rest := by
  intro state facing clear
  rw [equal, List.append_assoc] at facing
  rcases linked state facing clear with
    ⟨first, middle, ahead, count, run, notArrow, facing', room, later⟩
  refine ⟨first, middle, ahead, count + 1, run, notArrow, facing', ?_, fun start => ?_⟩
  · rw [List.length_append] at room
    omega
  · rcases later start with ⟨found, last, rounds, same, reaches⟩
    rcases reads start found last same reaches.facing with
      ⟨outcome, after, run', result, rfl, same', reaches'⟩
    refine ⟨result, after, rounds.trans (.single run'), same', ?_⟩
    exact (reaches.mono fun _ => settled).afterwards reaches'

theorem Linked.head (read : expr.ReadBy Expr.anywhere opening rest)
    (notArrow : expr.kind ≠ .arrowFunctionExpression) (notOptional : expr.isOptionalChain = false) :
    Linked opening round value expr rest := by
  intro state facing clear
  rcases read state facing clear trivial with ⟨first, middle, run, same, reaches⟩
  have kind : first.kind = expr.kind := by rw [← first.kind_erase, same, expr.kind_erase]
  refine ⟨first, middle, rest, 0, run, by rwa [kind], reaches.facing, by rw [Nat.zero_add],
    fun start => ⟨first, middle, ?_, same, reaches⟩⟩
  rw [notOptional]
  exact .none

/-- The loop over the links reads the chain if the last round is done. -/
theorem Linked.reads (linked : Linked opening round value expr rest)
    (facing : state.Facing (expr.lexemes ++ rest)) (clear : state.pendingInitializer = none) :
    ∃ first middle, opening state = .ok first middle ∧ first.kind ≠ .arrowFunctionExpression ∧
      ∀ start, (∀ (found : Expr) (after : ParserState), after.Facing rest →
        Achieves (round start (value found expr.isOptionalChain)) after fun outcome final =>
          outcome = .done found ∧ final = after) →
        Achieves (loop (round start) (value first false)) middle fun found after =>
          found.erase = expr.erase ∧ state.Reaches rest (expr.hasInitializer = false) after := by
  rcases linked state facing clear with
    ⟨first, middle, ahead, count, run, notArrow, facing', room, later⟩
  refine ⟨first, middle, run, notArrow, fun start done => ?_⟩
  rcases later start with ⟨found, last, rounds, same, reaches⟩
  refine loop_achieves facing' (by omega) rounds ((done found last reaches.facing).mono ?_)
  rintro outcome after ⟨rfl, rfl⟩
  exact ⟨same, reaches⟩

end Rounds

/-! ## Links of a chain -/

def linkRound (rules : Rules) (start : Position) :
    Expr × Bool → Parse (Round (Expr × Bool) Expr) :=
  fun (expr, afterOptional) => do
    match ← kind with
    | .punctuator .dot =>
      let _ ← advance
      return .again (← namedMember start expr false, afterOptional)
    | .punctuator .leftBracket =>
      return .again (← bracketMember rules start expr false, afterOptional)
    | .punctuator .leftParen => return .again (← callWith rules start expr false, afterOptional)
    | .punctuator .questionDot =>
      let _ ← advance
      return .again (← optionalLink rules start expr, true)
    | .noSubstitutionTemplate | .templateHead =>
      if afterOptional then fail .taggedOptionalChain (← Parse.start)
      return .again (← taggedTemplate rules start expr, afterOptional)
    | _ => return .done expr

/-- A link after a question mark and a point. -/
theorem linkRound_optional {start : Position} {found expr : Expr} {tokens : List Lexeme}
    (afterOptional : Bool) (facing : state.Facing (.mark .questionDot :: tokens))
    (inner : ∀ middle : ParserState, middle.Facing tokens →
      Achieves (optionalLink rules start found) middle fun result after =>
        result.erase = expr.erase ∧ middle.Reaches rest True after) :
    Achieves (linkRound rules start (found, afterOptional)) state fun outcome after =>
      ∃ result, outcome = .again (result, true) ∧ result.erase = expr.erase ∧
        state.Reaches rest True after := by
  refine kind_then ?_
  rw [facing.mark]
  refine advance_then facing nofun fun middle _ reaches => .bind ?_
  refine (inner middle reaches.facing).mono ?_
  rintro result after ⟨same, reaches'⟩
  exact .pure ⟨result, rfl, same, reaches.andThen reaches'⟩

def ReadableKey (size : Nat) : MemberKey → Prop
  | .name _ => True
  | .computed key =>
    key.Everywhere legible ∧ key.Settles Precedence.sequence ∧ key.lexemes.length < size

theorem readsLink_member (hold : RulesRead rules size) {loc : Span} {owner : Expr}
    {key : MemberKey} {optional : Bool} (readable : ReadableKey size key) :
    ReadsLink (linkRound rules) Prod.mk owner (.member loc owner key optional) (key.lexemes optional) rest := by
  intro start found state same facing
  rw [Expr.isOptionalChain]
  cases key with
  | name id =>
      rw [MemberKey.lexemes] at facing
      cases optional with
      | false =>
          have kind : state.lookahead.kind = .punctuator .dot := facing.mark
          refine kind_then ?_
          rw [kind]
          refine advance_then facing (by decide) fun middle _ reaches => .bind ?_
          refine (namedMember_reads same start loc false reaches.facing).mono ?_
          rintro result after ⟨same', reaches'⟩
          exact .pure ⟨result, by rw [Bool.false_or], same', reaches.andThen reaches'⟩
      | true =>
          refine linkRound_optional _ facing fun middle facing => kind_then ?_
          have read := namedMember_reads same start loc true facing
          have kind : middle.lookahead.kind = kindOfWord id.name :=
            facing.kind (kindOfWord_known _)
          rcases kindOfWord_cases id.name with isName | ⟨word, isWord⟩
          · rw [kind, isName]
            exact read
          · rw [kind, isWord]
            exact read
  | computed key =>
      rcases readable with ⟨holds, settles, small⟩
      cases optional with
      | false =>
          rw [MemberKey.lexemes, optionalLexemes, if_neg Bool.false_ne_true, List.nil_append] at facing
          have kind : state.lookahead.kind = .punctuator .leftBracket := facing.mark
          refine kind_then ?_
          rw [kind]
          refine .bind ((bracketMember_reads hold same start loc false holds settles small
            facing).mono ?_)
          rintro result after ⟨same', reaches⟩
          exact .pure ⟨result, by rw [Bool.false_or], same', reaches⟩
      | true =>
          rw [MemberKey.lexemes, optionalLexemes, if_pos rfl] at facing
          refine linkRound_optional _ facing fun middle facing => kind_then ?_
          have kind : middle.lookahead.kind = .punctuator .leftBracket := facing.mark
          rw [kind]
          exact bracketMember_reads hold same start loc true holds settles small facing

theorem readsLink_call (hold : RulesRead rules size) {loc : Span} {callee : Expr}
    {arguments : List Expr} {optional : Bool}
    (readable : ∀ argument ∈ arguments, ReadableItem size argument)
    (settled : ∀ argument ∈ arguments, argument.hasInitializer = false) :
    ReadsLink (linkRound rules) Prod.mk callee (.call loc callee arguments optional) (optionalLexemes optional ++
      enclosed .leftParen .rightParen (separated (itemsLexemes arguments))) rest := by
  intro start found state same facing
  rw [Expr.isOptionalChain]
  cases optional with
  | false =>
      have kind : state.lookahead.kind = .punctuator .leftParen := facing.mark
      refine kind_then ?_
      rw [kind]
      refine .bind ((callWith_reads hold same start loc false readable settled facing).mono ?_)
      rintro result after ⟨same', reaches⟩
      exact .pure ⟨result, by rw [Bool.false_or], same', reaches⟩
  | true =>
      refine linkRound_optional _ facing fun middle facing => kind_then ?_
      have kind : middle.lookahead.kind = .punctuator .leftParen := facing.mark
      rw [kind]
      exact callWith_reads hold same start loc true readable settled facing

theorem readsLink_tagged (hold : RulesRead rules size) {loc templateLoc : Span} {tag : Expr}
    {quasis : List Quasi} {holes : List Expr} (notOptional : tag.isOptionalChain = false)
    (legible : TemplateLegible quasis holes) (readable : ∀ hole ∈ holes, ReadableHole size hole) :
    ReadsLink (linkRound rules) Prod.mk tag (.tagged loc tag templateLoc quasis holes)
      (templateLexemes false quasis (itemsLexemes holes)) rest := by
  intro start found state same facing
  rw [notOptional]
  have read : Achieves (taggedTemplate rules start found >>= fun result =>
      return Round.again (result, false)) state fun outcome after => ∃ result,
        outcome = (.again (result, false) : Round (Expr × Bool) Expr) ∧
          result.erase = (Expr.tagged loc tag templateLoc quasis holes).erase ∧
          state.Reaches rest True after := by
    refine .bind ((taggedTemplate_reads hold same start loc templateLoc legible readable
      facing).mono ?_)
    rintro result after ⟨same', reaches⟩
    exact .pure ⟨result, rfl, same', reaches⟩
  refine kind_then ?_
  rcases kind_template legible facing with kind | kind
  · rw [kind]
    exact read
  · rw [kind]
    exact read

/-! ## Constructors -/

def constructorRound (rules : Rules) (start : Position) : Expr → Parse (Round Expr Expr) :=
  fun callee => do
    match ← kind with
    | .punctuator .dot =>
      let _ ← advance
      return .again (← namedMember start callee false)
    | .punctuator .leftBracket => return .again (← bracketMember rules start callee false)
    | .noSubstitutionTemplate | .templateHead =>
      return .again (← taggedTemplate rules start callee)
    | .punctuator .questionDot => fail .optionalChainFromNew (← Parse.start)
    | _ => return .done callee

def constructorHead (rules : Rules) : Parse Expr := do
  if (← kind) == .keyword .newWord then rules .construction else primary rules

theorem readsLink_constructor (hold : RulesRead rules size) {loc : Span} {owner : Expr}
    {key : MemberKey} (readable : ReadableKey size key) :
    ReadsLink (constructorRound rules) (fun expr _ => expr) owner (.member loc owner key false)
      (key.lexemes false) rest := by
  intro start found state same facing
  refine kind_then ?_
  cases key with
  | name id =>
      rw [MemberKey.lexemes] at facing
      have kind : state.lookahead.kind = .punctuator .dot := facing.mark
      rw [kind]
      refine advance_then facing nofun fun middle _ reaches => .bind ?_
      refine (namedMember_reads same start loc false reaches.facing).mono ?_
      rintro result after ⟨same', reaches'⟩
      exact .pure ⟨result, rfl, same', reaches.andThen reaches'⟩
  | computed key =>
      rcases readable with ⟨holds, settles, small⟩
      rw [MemberKey.lexemes, optionalLexemes, if_neg nofun, List.nil_append] at facing
      have kind : state.lookahead.kind = .punctuator .leftBracket := facing.mark
      rw [kind]
      refine .bind ((bracketMember_reads hold same start loc false holds settles small
        facing).mono ?_)
      rintro result after ⟨same', reaches⟩
      exact .pure ⟨result, rfl, same', reaches⟩

theorem constructorHead_primary (hold : RulesRead rules size) {callee : Expr}
    (holds : callee.Everywhere legible) (small : callee.lexemes.length < size)
    (isAtomic : callee.Atomic) (stops : (nextKind rest).continues < Precedence.primary) :
    callee.ReadBy Expr.anywhere (constructorHead rules) rest := by
  intro state facing clear _
  have notNew := primary_ne_new holds isAtomic facing
  refine kind_then (.iteFalse (by simpa using notNew) ?_)
  exact primary_reads hold holds (Nat.le_of_lt small) isAtomic stops state facing clear trivial

theorem constructorHead_new (hold : RulesRead rules size) {loc : Span} {callee : Expr}
    {arguments : List Expr} (holds : (Expr.new loc callee arguments).Everywhere legible)
    (small : (Expr.new loc callee arguments).lexemes.length < size) :
    (Expr.new loc callee arguments).ReadBy Expr.anywhere (constructorHead rules) rest := by
  intro state facing clear _
  have kind : state.lookahead.kind = .keyword .newWord := by
    rw [Expr.lexemes] at facing
    exact facing.kind nofun
  refine kind_then (.iteTrue (by simp [kind]) ?_)
  exact hold.construction holds small state facing clear trivial

theorem readableKey {loc : Span} {owner : Expr} {key : MemberKey} {optional : Bool}
    (holds : (Expr.member loc owner key optional).Everywhere legible)
    (small : (Expr.member loc owner key optional).lexemes.length ≤ size) : ReadableKey size key := by
  rcases holds with ⟨⟨-, keyShape⟩, -, keyInside⟩
  cases key with
  | name id => trivial
  | computed key =>
      refine ⟨keyInside, keyShape, ?_⟩
      rw [Expr.lexemes, List.length_append, MemberKey.lexemes, List.length_append,
        length_enclosed] at small
      omega

theorem length_keyLexemes_pos (key : MemberKey) (optional : Bool) :
    0 < (key.lexemes optional).length := by
  cases key with
  | name id => rw [MemberKey.lexemes]; exact Nat.succ_pos _
  | computed key =>
      rw [MemberKey.lexemes, List.length_append, length_enclosed]
      omega

theorem continues_key (key : MemberKey) (optional : Bool) (rest : List Lexeme) :
    (nextKind (key.lexemes optional ++ rest)).continues = Precedence.call := by
  cases key <;> cases optional <;> rw [MemberKey.lexemes] <;> rfl

/-- The callee of a `new` has only members for links. -/
theorem linked_constructor (hold : RulesRead rules size) {callee : Expr}
    (holds : callee.Everywhere legible) (small : callee.lexemes.length < size)
    (binds : callee.Binds Precedence.call) (noCalls : callee.callsBeforeNew = false)
    (stops : (nextKind rest).continues < Precedence.primary) :
    Linked (constructorHead rules) (constructorRound rules) (fun expr _ => expr) callee rest := by
  induction length : callee.lexemes.length using Nat.strong_induction_on
    generalizing callee rest with
  | h length induction =>
  rcases binds.call_or with ⟨loc, owner, key, optional, rfl⟩ | ⟨loc, callee, arguments, optional, rfl⟩ |
    ⟨loc, callee, arguments, rfl⟩ | ⟨loc, tag, templateLoc, quasis, holes, rfl⟩ | isAtomic
  · rw [Expr.callsBeforeNew, Bool.or_eq_false_iff] at noCalls
    rcases noCalls with ⟨rfl, noCalls⟩
    have readable := readableKey holds (Nat.le_of_lt small)
    rcases holds with ⟨⟨settles, -⟩, inside, -⟩
    have notEmpty := length_keyLexemes_pos key false
    rw [Expr.lexemes, List.length_append] at small length
    refine Linked.link ?_ settles.settled (readsLink_constructor hold readable)
      (by rw [Expr.lexemes]) notEmpty
    refine induction owner.lexemes.length (by omega) inside (by omega) settles.toBinds noCalls ?_ rfl
    rw [continues_key]
    exact Nat.lt_succ_self _
  · cases noCalls
  · exact .head (constructorHead_new hold holds small) (by rintro ⟨⟩) rfl
  · cases noCalls
  · exact .head (constructorHead_primary hold holds small isAtomic stops) isAtomic.kind_ne_arrow
      isAtomic.isOptionalChain

theorem constructor_eq : constructor rules = constructorHead rules >>= fun first =>
    loop (constructorRound rules first.loc.start) first := by
  unfold constructor constructorHead
  rw [bind_assoc]
  congr 1
  funext kind
  split <;> rfl

theorem constructor_reads (hold : RulesRead rules size) {callee : Expr}
    (holds : callee.Everywhere legible) (small : callee.lexemes.length < size)
    (settles : callee.Settles Precedence.call) (noCalls : callee.callsBeforeNew = false)
    (clear : state.pendingInitializer = none)
    (facing : state.Facing (callee.lexemes ++ .mark .leftParen :: rest)) :
    Achieves (constructor rules) state fun found after =>
      found.erase = callee.erase ∧ state.Reaches (.mark .leftParen :: rest) True after := by
  have linked := linked_constructor hold holds small settles.toBinds noCalls
    (show (nextKind (.mark .leftParen :: rest)).continues < Precedence.primary from
      Nat.lt_succ_self _)
  rcases linked.reads facing clear with ⟨first, middle, run, -, read⟩
  rw [constructor_eq]
  refine .bind ⟨first, middle, run, (read first.loc.start fun found after facing => ?_).mono ?_⟩
  · refine kind_then ?_
    rw [facing.mark]
    exact .pure ⟨rfl, rfl⟩
  · intro found after holds
    exact ⟨holds.1, holds.2.mono fun _ => settles.settled⟩

theorem readableArguments {arguments : List Expr} (inside : itemsInside legible arguments)
    (each : ∀ argument ∈ arguments, argument.LegibleArgument)
    (small : (separated (itemsLexemes arguments)).length < size) :
    ∀ argument ∈ arguments, ReadableItem size argument := by
  intro argument member
  refine ⟨(itemsInside_iff legible arguments).mp inside argument member, ?_,
    (each argument member).tight⟩
  refine Nat.lt_of_le_of_lt (length_le_separated ?_) small
  rw [itemsLexemes_eq_map]
  exact List.mem_map_of_mem member

theorem construction_reads (hold : RulesRead rules size) {loc : Span} {callee : Expr}
    {arguments : List Expr} (holds : (Expr.new loc callee arguments).Everywhere legible)
    (small : (Expr.new loc callee arguments).lexemes.length ≤ size) :
    (Expr.new loc callee arguments).ReadBy Expr.anywhere (construction rules) rest := by
  intro state facing clear _
  rcases holds with ⟨⟨⟨settles, noCalls⟩, each⟩, inside, insideArguments⟩
  rw [Expr.lexemes, List.length_cons, List.length_append, length_enclosed] at small
  rw [Expr.lexemes, List.cons_append, List.append_assoc] at facing
  refine start_then (advance_then facing nofun fun first _ reaches => ?_)
  have starts := Expr.mayStart_of_facing inside settles.notSpread reaches.facing
  refine at?_false (TokenKind.ne_of_mayStart starts rfl) (.iteFalse (by simp) (.bind ?_))
  have clear' := (reaches.pending trivial).trans clear
  refine (constructor_reads hold inside (by omega) settles noCalls clear' reaches.facing).mono ?_
  intro found second holds
  rcases holds with ⟨same, reaches'⟩
  have readable : ∀ argument ∈ arguments, ReadableItem size argument :=
    readableArguments insideArguments each (by omega)
  refine at?_true reaches'.facing.mark (.iteTrue rfl (.bind ?_))
  refine (arguments_reads hold readable (fun argument member => (each argument member).settled)
    reaches'.facing).mono ?_
  intro found' after holds
  rcases holds with ⟨same', reaches''⟩
  refine spanFrom_then fun loc => .pure ⟨?_, ?_⟩
  · rw [Expr.erase, Expr.erase, same, same']
  · exact (reaches.andThen (reaches'.andThen reaches'')).mono fun _ => trivial

/-! ## Chains -/

def chainHead (rules : Rules) : Parse Expr := do
  if (← kind) == .keyword .newWord then construction rules else primary rules

def chainLinks (rules : Rules) (start : Position) (first : Expr) : Parse Expr :=
  match first with
  | .arrow .. => return first
  | _ => links rules start first

theorem chain_eq : chain rules = start >>= fun start =>
    chainHead rules >>= chainLinks rules start := by
  unfold chain chainHead
  congr 1
  funext start
  rw [bind_assoc]
  congr 1
  funext kind
  split <;> rfl

theorem chainHead_primary (hold : RulesRead rules size) {expr : Expr}
    (holds : expr.Everywhere legible) (small : expr.lexemes.length ≤ size)
    (isAtomic : expr.Atomic) (stops : (nextKind rest).continues < Precedence.primary) :
    expr.ReadBy Expr.anywhere (chainHead rules) rest := by
  intro state facing clear _
  have notNew := primary_ne_new holds isAtomic facing
  refine kind_then (.iteFalse (by simpa using notNew) ?_)
  exact primary_reads hold holds small isAtomic stops state facing clear trivial

theorem chainHead_new (hold : RulesRead rules size) {loc : Span} {callee : Expr}
    {arguments : List Expr} (holds : (Expr.new loc callee arguments).Everywhere legible)
    (small : (Expr.new loc callee arguments).lexemes.length ≤ size) :
    (Expr.new loc callee arguments).ReadBy Expr.anywhere (chainHead rules) rest := by
  intro state facing clear _
  have kind : state.lookahead.kind = .keyword .newWord := by
    rw [Expr.lexemes] at facing
    exact facing.kind nofun
  refine kind_then (.iteTrue (by simp [kind]) ?_)
  exact construction_reads hold holds small state facing clear trivial

theorem continues_call (optional : Bool) (tokens rest : List Lexeme) :
    (nextKind ((optionalLexemes optional ++ enclosed .leftParen .rightParen tokens) ++
      rest)).continues = Precedence.call := by
  cases optional <;> rfl

theorem continues_template {quasis : List Quasi} {holes : List Expr}
    (legible : TemplateLegible quasis holes) (rest : List Lexeme) :
    (nextKind (templateLexemes false quasis (itemsLexemes holes) ++ rest)).continues =
      Precedence.call := by
  match quasis, legible.tails with
  | [], tails => simp at tails
  | quasi :: quasis, _ => cases holes <;> rfl

theorem linked_chain (hold : RulesRead rules size) {expr : Expr}
    (holds : expr.Everywhere legible) (small : expr.lexemes.length ≤ size)
    (binds : expr.Binds Precedence.call) (stops : (nextKind rest).continues < Precedence.primary) :
    Linked (chainHead rules) (linkRound rules) Prod.mk expr rest := by
  induction length : expr.lexemes.length using Nat.strong_induction_on generalizing expr rest with
  | h length induction =>
  rcases binds.call_or with ⟨loc, owner, key, optional, rfl⟩ | ⟨loc, callee, arguments, optional, rfl⟩ |
    ⟨loc, callee, arguments, rfl⟩ | ⟨loc, tag, templateLoc, quasis, holes, rfl⟩ | isAtomic
  · have readable := readableKey holds small
    rcases holds with ⟨⟨settles, -⟩, inside, -⟩
    have notEmpty := length_keyLexemes_pos key optional
    rw [Expr.lexemes, List.length_append] at small length
    refine Linked.link ?_ settles.settled (readsLink_member hold readable)
      (by rw [Expr.lexemes]) notEmpty
    refine induction owner.lexemes.length (by omega) inside (by omega) settles.toBinds ?_ rfl
    rw [continues_key]
    exact Nat.lt_succ_self _
  · rcases holds with ⟨⟨settles, each⟩, inside, insideArguments⟩
    rw [Expr.lexemes, List.length_append, List.length_append, length_enclosed] at small length
    have readable : ∀ argument ∈ arguments, ReadableItem size argument :=
    readableArguments insideArguments each (by omega)
    refine Linked.link ?_ settles.settled (readsLink_call hold readable
      fun argument member => (each argument member).settled) (by rw [Expr.lexemes]) ?_
    · refine induction callee.lexemes.length (by omega) inside (by omega) settles.toBinds ?_ rfl
      rw [continues_call]
      exact Nat.lt_succ_self _
    · rw [List.length_append, length_enclosed]
      omega
  · exact .head (chainHead_new hold holds small) nofun rfl
  · rcases holds with ⟨⟨⟨settles, notOptional⟩, legible⟩, inside, insideHoles⟩
    rw [Expr.lexemes, List.length_append] at small length
    have some : 0 < quasis.length := by
      rw [legible.count]
      exact Nat.succ_pos _
    have notEmpty := length_templateLexemes_pos some false (itemsLexemes holes)
    have readable : ∀ hole ∈ holes, ReadableHole size hole :=
      template_readable legible insideHoles (by omega)
    refine Linked.link ?_ settles.settled (readsLink_tagged hold notOptional legible readable)
      (by rw [Expr.lexemes]) notEmpty
    refine induction tag.lexemes.length (by omega) inside (by omega) settles.toBinds ?_ rfl
    rw [continues_template legible]
    exact Nat.lt_succ_self _
  · exact .head (chainHead_primary hold holds small isAtomic stops) isAtomic.kind_ne_arrow
      isAtomic.isOptionalChain

theorem linkRound_done (start : Position) (found : Expr) (afterOptional : Bool)
    (facing : state.Facing rest) (stops : (nextKind rest).continues < Precedence.call) :
    Achieves (linkRound rules start (found, afterOptional)) state fun outcome after =>
      outcome = .done found ∧ after = state := by
  have kind : state.lookahead.kind = nextKind rest :=
    facing.kind (TokenKind.notRegExp_of_continues (Nat.lt_succ_of_lt stops))
  refine kind_then ?_
  rw [kind]
  split
  · next isDot => exact absurd isDot (TokenKind.ne_of_continues stops (Nat.le_refl _))
  · next isBracket => exact absurd isBracket (TokenKind.ne_of_continues stops (Nat.le_refl _))
  · next isParen => exact absurd isParen (TokenKind.ne_of_continues stops (Nat.le_refl _))
  · next isMark => exact absurd isMark (TokenKind.ne_of_continues stops (Nat.le_refl _))
  · next isPiece => exact absurd isPiece (TokenKind.ne_of_continues stops (Nat.le_refl _))
  · next isPiece => exact absurd isPiece (TokenKind.ne_of_continues stops (Nat.le_refl _))
  · exact .pure ⟨rfl, rfl⟩

theorem chain_reads (hold : RulesRead rules size) {expr : Expr}
    (holds : expr.Everywhere legible) (small : expr.lexemes.length ≤ size)
    (binds : expr.Binds Precedence.call) (stops : (nextKind rest).continues < Precedence.call) :
    expr.ReadBy Expr.anywhere (chain rules) rest := by
  intro state facing clear _
  have linked := linked_chain hold holds small binds (Nat.lt_succ_of_lt stops)
  rcases linked.reads facing clear with ⟨first, middle, run, notArrow, read⟩
  have links := read state.lookahead.span.start fun found after facing =>
    linkRound_done _ found expr.isOptionalChain facing stops
  rw [chain_eq]
  refine start_then (.bind ⟨first, middle, run, ?_⟩)
  cases first with
  | arrow => exact absurd rfl notArrow
  | _ => exact links

/-- An arrow function has no links. -/
theorem chain_arrow (hold : RulesRead rules size) {loc : Span} {params : List Pattern}
    {body : Expr} (holds : (Expr.arrow loc params body).Everywhere legible)
    (small : (Expr.arrow loc params body).lexemes.length ≤ size)
    (stops : (nextKind rest).continues < Precedence.assignment) :
    (Expr.arrow loc params body).ReadBy Expr.atStart (chain rules) rest := by
  intro state facing clear atStart
  have kind : state.lookahead.kind = .punctuator .leftParen := by
    rw [Expr.lexemes, enclosed, List.cons_append, List.cons_append] at facing
    exact facing.mark
  rw [chain_eq]
  refine start_then (.bind (kind_then (.iteFalse (by simp [kind]) ?_)))
  refine (primary_arrow hold holds small stops state facing clear atStart).mono ?_
  intro found after holds
  have isArrow : found.kind = .arrowFunctionExpression := by
    rw [← found.kind_erase, holds.1, Expr.kind_erase]
    rfl
  cases found with
  | arrow loc params body => exact .pure holds
  | _ => cases isArrow

end Parse

end ExprScript
