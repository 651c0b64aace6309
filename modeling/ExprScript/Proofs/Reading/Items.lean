import ExprScript.Proofs.Reading.Rules

/-! # Reading lists

Sequences, arguments and arrays are read back if the rules read what is inside of
them.
-/

namespace ExprScript

open Scanner ParserState

/-! ## Lists with commas -/

def continued : List (List Lexeme) → List Lexeme
  | [] => []
  | lists => .mark .comma :: separated lists

theorem separated_cons (first : List Lexeme) (lists : List (List Lexeme)) :
    separated (first :: lists) = first ++ continued lists := by
  cases lists with
  | nil => rw [separated, continued, List.append_nil]
  | cons second lists => rw [separated, continued]; nofun

theorem length_continued_lt (first : List Lexeme) (lists : List (List Lexeme)) :
    (continued lists).length < (continued (first :: lists)).length := by
  have longer : (continued (first :: lists)).length =
      first.length + (continued lists).length + 1 := by
    change (separated (first :: lists)).length + 1 = _
    rw [separated_cons, List.length_append]
  omega

theorem length_separated_lt {first : List Lexeme} (some : 0 < first.length)
    (lists : List (List Lexeme)) :
    (separated lists).length < (separated (first :: lists)).length := by
  have longer : (separated lists).length ≤ (continued lists).length := by
    cases lists with
    | nil => exact Nat.le_refl _
    | cons second lists => exact Nat.le_succ _
  rw [separated_cons, List.length_append]
  omega

theorem continues_continued {lists : List (List Lexeme)} {rest : List Lexeme}
    (stops : (nextKind rest).continues < Precedence.assignment) :
    (nextKind (continued lists ++ rest)).continues < Precedence.assignment := by
  cases lists with
  | nil => exact stops
  | cons first lists => exact Nat.lt_succ_self _

namespace Parse

variable {β : Type} {state : ParserState} {post : β → ParserState → Prop}
  {rest : List Lexeme} {rules : Rules} {size : Nat}

/-- A comma stands between two items, but not behind the last one. -/
theorem comma_then {close : Punctuator} {lists : List (List Lexeme)} {next : Parse β}
    (facing : state.Facing (continued lists ++ .mark close :: rest)) (notComma : close ≠ .comma)
    (achieves : ∀ after, state.Reaches (separated lists ++ .mark close :: rest) True after →
      Achieves next after post) :
    Achieves (at? close >>= fun closes => if !closes then expect .comma >>= fun _ => next else next)
      state post := by
  cases lists with
  | nil => exact at?_true facing.mark (.iteFalse (by simp) (achieves state facing.reaches))
  | cons first lists =>
      have facing : state.Facing
          (.mark .comma :: (separated (first :: lists) ++ .mark close :: rest)) := facing
      refine at?_false ?_ (.iteTrue rfl (expect_then facing fun after reaches => ?_))
      · rw [facing.mark]
        rintro equal
        cases equal
        exact notComma rfl
      · exact achieves after reaches

/-! ## Expressions -/

theorem isolated_reads (hold : RulesRead rules size) {expr : Expr}
    (holds : expr.Everywhere legible) (small : expr.lexemes.length < size)
    (settles : expr.Settles Precedence.assignment) (facing : state.Facing (expr.lexemes ++ rest))
    (stops : (nextKind rest).continues < Precedence.assignment) :
    Achieves (isolate (rules .assignment)) state fun found after =>
      found.erase = expr.erase ∧ state.Reaches rest True after :=
  (hold.assignment holds small settles.toBinds stops).isolate settles.settled facing

theorem inherited_reads (hold : RulesRead rules size) {expr : Expr}
    (holds : expr.Everywhere legible) (small : expr.lexemes.length < size)
    (binds : expr.Binds Precedence.assignment) (facing : state.Facing (expr.lexemes ++ rest))
    (stops : (nextKind rest).continues < Precedence.assignment) :
    Achieves (inherit (rules .assignment)) state fun found after =>
      found.erase = expr.erase ∧ state.Reaches rest (expr.hasInitializer = false) after :=
  (hold.assignment holds small binds stops).inherit facing

structure Readable (size : Nat) (item : Expr) : Prop where
  legible : item.Everywhere legible
  small : item.lexemes.length < size
  settles : item.Settles Precedence.assignment

theorem expression_reads (hold : RulesRead rules size) {expr : Expr}
    (holds : expr.Everywhere legible) (small : expr.lexemes.length < size)
    (settles : expr.Settles Precedence.sequence) (facing : state.Facing (expr.lexemes ++ rest))
    (stops : (nextKind rest).continues < Precedence.sequence) :
    Achieves (expression rules) state fun found after =>
      found.erase = expr.erase ∧ state.Reaches rest True after := by
  have stops' := Nat.lt_succ_of_lt stops
  refine start_then (.bind ?_)
  rcases settles.sequence_or holds.1 with ⟨loc, items, rfl⟩ | binds
  · rcases holds with ⟨⟨several, each⟩, inside⟩
    have readable : ∀ item ∈ items, Readable size item := by
      intro item member
      refine ⟨(itemsInside_iff legible items).mp inside item member,
        Nat.lt_of_le_of_lt ?_ small, each item member⟩
      rw [Expr.lexemes, itemsLexemes_eq_map]
      exact length_le_separated (List.mem_map_of_mem member)
    match items with
    | first :: items =>
    rw [Expr.lexemes, itemsLexemes, separated_cons, List.append_assoc] at facing
    have isFirst := readable first (List.mem_cons_self ..)
    refine (isolated_reads hold isFirst.legible isFirst.small isFirst.settles
      facing (continues_continued stops')).mono ?_
    rintro found middle ⟨same, reaches⟩
    match items with
    | second :: items =>
    refine at?_true reaches.facing.mark (.iteFalse (by simp) (.bind ?_))
    refine loop_items (fun items => continued (itemsLexemes items))
      (fun found item => found.erase = item.erase) (Readable size) (fun _ => True)
      (fun item member => readable item (List.mem_cons_of_mem _ member)) reaches.facing ?_ ?_
    · intro item items reversed state readable _ facing
      have facing : state.Facing
          (.mark .comma :: (separated (item.lexemes :: itemsLexemes items) ++ rest)) := facing
      rw [separated_cons, List.append_assoc] at facing
      refine ⟨length_continued_lt item.lexemes _, ?_⟩
      refine eat?_true facing fun middle reaches => .iteTrue rfl (.bind ?_)
      refine (isolated_reads hold readable.legible readable.small readable.settles
        reaches.facing (continues_continued stops')).mono ?_
      rintro found after ⟨same, reaches'⟩
      exact .pure ⟨found, rfl, same, reaches.andThen reaches'⟩
    rintro others after alike reaches'
    refine eat?_false (Expr.ne_mark_of_facing reaches'.facing stops (Nat.le_refl _)) ?_
    refine .iteFalse (by simp) (.pure (spanFrom_then fun loc => .pure ⟨?_, ?_⟩))
    · rw [List.reverse_append, List.reverse_reverse, Expr.erase, Expr.erase]
      exact congrArg _ (eraseItems_of_forall₂ (.cons same alike))
    · exact reaches.andThen (reaches'.mono fun _ _ _ => trivial)
  · refine (isolated_reads hold holds small ⟨binds, settles.settled⟩ facing stops').mono ?_
    rintro found after ⟨same, reaches⟩
    refine at?_false ?_ (.iteTrue rfl (.pure ⟨same, reaches⟩))
    exact Expr.ne_mark_of_facing reaches.facing stops (Nat.le_refl _)

theorem isolatedExpression_reads (hold : RulesRead rules size) {expr : Expr}
    (holds : expr.Everywhere legible) (small : expr.lexemes.length < size)
    (settles : expr.Settles Precedence.sequence) (facing : state.Facing (expr.lexemes ++ rest))
    (stops : (nextKind rest).continues < Precedence.sequence) :
    Achieves (isolate (expression rules)) state fun found after =>
      found.erase = expr.erase ∧ state.Reaches rest True after := by
  refine isolate_achieves ?_
  rintro start rfl
  exact expression_reads hold holds small settles ⟨facing.1, facing.2, facing.3⟩ stops

/-! ## Items that may be spreads -/

def Wraps (wrap : Parse Expr → Parse Expr) (expr : Expr) : Prop :=
  ∀ (action : Parse Expr) (rest : List Lexeme) (state : ParserState),
    expr.ReadBy Expr.anywhere action rest → state.Facing (expr.lexemes ++ rest) →
    Achieves (wrap action) state fun found after =>
      found.erase = expr.erase ∧ state.Reaches rest (expr.hasInitializer = false) after

theorem wraps_inherit (expr : Expr) : Wraps inherit expr :=
  fun _ _ _ read facing => read.inherit facing

theorem wraps_isolate {expr : Expr} (settled : expr.hasInitializer = false) :
    Wraps isolate expr := by
  intro action rest state read facing
  refine (read.isolate settled facing).mono ?_
  rintro found after ⟨same, reaches⟩
  exact ⟨same, reaches.mono fun _ => trivial⟩

structure ReadableItem (size : Nat) (item : Expr) : Prop where
  legible : item.Everywhere legible
  small : item.lexemes.length < size
  tight : Precedence.assignment ≤ item.precedence

theorem spread_reads (hold : RulesRead rules size) {wrap : Parse Expr → Parse Expr} {loc : Span}
    {argument : Expr} (readable : ReadableItem size (.spread loc argument))
    (wraps : Wraps wrap argument) (facing : state.Facing ((Expr.spread loc argument).lexemes ++ rest))
    (stops : (nextKind rest).continues < Precedence.assignment) :
    Achieves (spread rules wrap) state fun found after =>
      found.erase = (Expr.spread loc argument).erase ∧
        state.Reaches rest (argument.hasInitializer = false) after := by
  rcases readable with ⟨⟨binds, inside⟩, small, -⟩
  rw [Expr.lexemes] at facing small
  refine start_then (advance_then facing nofun fun middle _ reaches => .bind ?_)
  refine (wraps _ _ _ (hold.assignment inside (Nat.lt_of_succ_lt small) binds stops)
    reaches.facing).mono ?_
  rintro found after ⟨same, reaches'⟩
  refine spanFrom_then fun loc => .pure ⟨?_, reaches.andThen reaches'⟩
  rw [Expr.erase, Expr.erase, same]

/-- An item is read, and a spread as such. -/
theorem item_then (hold : RulesRead rules size) {wrap : Parse Expr → Parse Expr} {item : Expr}
    (readable : ReadableItem size item)
    (wraps : ∀ part : Expr, part.hasInitializer = item.hasInitializer → Wraps wrap part)
    {next : Expr → Parse β} (facing : state.Facing (item.lexemes ++ rest))
    (stops : (nextKind rest).continues < Precedence.assignment)
    (achieves : ∀ found after, found.erase = item.erase →
      state.Reaches rest (item.hasInitializer = false) after → Achieves (next found) after post) :
    Achieves (at? .dotDotDot >>= fun dots =>
      if dots = true then spread rules wrap >>= next else wrap (rules .assignment) >>= next)
      state post := by
  cases isSpread : item.isSpread with
  | true =>
      cases item with
      | spread loc argument =>
          have argumentWraps := wraps argument (by rw [Expr.hasInitializer])
          refine at?_true (by rw [Expr.lexemes] at facing; exact facing.mark) (.iteTrue rfl ?_)
          refine .bind ((spread_reads hold readable argumentWraps facing stops).mono ?_)
          rintro found after ⟨same, reaches⟩
          exact achieves found after same (by rwa [Expr.hasInitializer])
      | _ => cases isSpread
  | false =>
      have starts := Expr.mayStart_of_facing readable.legible isSpread facing
      refine at?_false (TokenKind.ne_of_mayStart starts rfl) (.iteFalse (by simp) (.bind ?_))
      refine (wraps item rfl _ _ _ (hold.assignment readable.legible readable.small
        ⟨isSpread, readable.tight⟩ stops) facing).mono ?_
      rintro found after ⟨same, reaches⟩
      exact achieves found after same reaches

theorem item_ne_mark {item : Expr} {mark : Punctuator} (holds : item.Everywhere legible)
    (notStart : (TokenKind.punctuator mark).mayStart = false) (notDots : mark ≠ .dotDotDot)
    (facing : state.Facing (item.lexemes ++ rest)) :
    state.lookahead.kind ≠ .punctuator mark := by
  cases isSpread : item.isSpread with
  | true =>
      cases item with
      | spread loc argument =>
          rw [Expr.lexemes] at facing
          rw [facing.mark]
          rintro equal
          cases equal
          exact notDots rfl
      | _ => cases isSpread
  | false => exact TokenKind.ne_of_mayStart (Expr.mayStart_of_facing holds isSpread facing) notStart

/-! ## Arguments -/

theorem arguments_reads (hold : RulesRead rules size) {arguments : List Expr}
    (readable : ∀ argument ∈ arguments, ReadableItem size argument)
    (settled : ∀ argument ∈ arguments, argument.hasInitializer = false)
    (facing : state.Facing
      (enclosed .leftParen .rightParen (separated (itemsLexemes arguments)) ++ rest)) :
    Achieves (Parse.arguments rules) state fun found after =>
      eraseItems found = eraseItems arguments ∧ state.Reaches rest True after := by
  have facing : state.Facing (.mark .leftParen ::
      (separated (itemsLexemes arguments) ++ .mark .rightParen :: rest)) := by
    rwa [enclosed, List.cons_append, List.append_assoc] at facing
  refine expect_then facing fun middle reaches => .bind ?_
  refine loop_items (fun items => separated (itemsLexemes items))
    (fun found item => found.erase = item.erase)
    (fun item => ReadableItem size item ∧ item.hasInitializer = false) (fun _ => True)
    (fun item member => ⟨readable item member, settled item member⟩) reaches.facing ?_ ?_
  · rintro item items reversed state ⟨readable, settled⟩ - facing
    have facing : state.Facing
        (separated (item.lexemes :: itemsLexemes items) ++ .mark .rightParen :: rest) := facing
    rw [separated_cons, List.append_assoc] at facing
    refine ⟨length_separated_lt (Expr.length_pos readable.legible) _, ?_⟩
    refine at?_false (item_ne_mark readable.legible rfl (by decide) facing) (.iteFalse (by simp) ?_)
    refine item_then hold readable (fun part equal => wraps_isolate (equal.trans settled))
      facing (continues_continued Nat.zero_lt_two) fun found middle same reaches => ?_
    refine comma_then reaches.facing (by decide) fun after reaches' => .pure ⟨found, rfl, same, ?_⟩
    exact (reaches.mono fun _ => settled).andThen reaches'
  · rintro found after alike reaches'
    refine at?_true reaches'.facing.mark (.iteTrue rfl (.pure ?_))
    refine expect_then reaches'.facing fun final reaches'' => .pure ⟨?_, ?_⟩
    · rw [List.append_nil, List.reverse_reverse]
      exact eraseItems_of_forall₂ alike
    · exact reaches.andThen ((reaches'.mono fun _ _ _ => trivial).andThen reaches'')

/-! ## Arrays -/

theorem noteTrailingComma_then {element : Expr} {comma : Token} {next : Unit → Parse β}
    (notClosed : state.lookahead.kind ≠ .punctuator .rightBracket)
    (achieves : Achieves (next ()) state post) :
    Achieves (noteTrailingComma element comma >>= next) state post := by
  apply Achieves.bind
  cases element with
  | spread loc argument => exact at?_false notClosed (.iteFalse (by simp) (.pure achieves))
  | _ => exact .pure achieves

def continuedElements : List (Option (List Lexeme)) → List Lexeme
  | [] => []
  | elements => .mark .comma :: separatedElements elements

theorem separatedElements_some (first : List Lexeme) (elements : List (Option (List Lexeme))) :
    separatedElements (some first :: elements) = first ++ continuedElements elements := by
  cases elements with
  | nil => rw [separatedElements, continuedElements, List.append_nil]
  | cons second elements => rw [separatedElements, continuedElements]; rintro ⟨⟩

theorem length_separatedElements_lt {first : List Lexeme} (notEmpty : 0 < first.length)
    (elements : List (Option (List Lexeme))) :
    (separatedElements elements).length <
      (separatedElements (some first :: elements)).length := by
  have longer : (separatedElements elements).length ≤ (continuedElements elements).length := by
    cases elements with
    | nil => exact Nat.le_refl _
    | cons second elements => exact Nat.le_succ _
  rw [separatedElements_some, List.length_append]
  omega

def ReadableElement (size : Nat) (element : Option Expr) : Prop :=
  ∀ item, element = some item → ReadableItem size item

theorem elements_ne_close {first : Option Expr} {elements : List (Option Expr)}
    (readable : ReadableElement size first)
    (facing : state.Facing (separatedElements (elementsLexemes (first :: elements)) ++ rest)) :
    state.lookahead.kind ≠ .punctuator .rightBracket := by
  cases first with
  | none =>
      rw [elementsLexemes, separatedElements] at facing
      rw [facing.mark]
      rintro ⟨⟩
  | some item =>
      rw [elementsLexemes, separatedElements_some, List.append_assoc] at facing
      exact item_ne_mark (readable item rfl).legible rfl (by decide) facing

theorem settled_of_elements {elements : List (Option Expr)}
    (settled : elementsHaveInitializer elements = false) {item : Expr}
    (member : some item ∈ elements) : item.hasInitializer = false := by
  induction elements with
  | nil => cases member
  | cons element elements induction =>
      cases element with
      | none =>
          rw [elementsHaveInitializer] at settled
          exact induction settled (by simpa using member)
      | some first =>
          rw [elementsHaveInitializer, Bool.or_eq_false_iff] at settled
          rcases List.mem_cons.mp member with equal | member
          · cases equal
            exact settled.1
          · exact induction settled.2 member

theorem arrayLiteral_reads (hold : RulesRead rules size) {loc : Span}
    {elements : List (Option Expr)}
    (readable : ∀ element ∈ elements, ReadableElement size element) :
    (Expr.array loc elements).ReadBy Expr.anywhere (arrayLiteral rules) rest := by
  intro state facing _ _
  have facing : state.Facing (.mark .leftBracket ::
      (separatedElements (elementsLexemes elements) ++ .mark .rightBracket :: rest)) := by
    rwa [Expr.lexemes, enclosed, List.cons_append, List.append_assoc] at facing
  refine start_then (expect_then facing fun middle reaches => .bind ?_)
  refine loop_items (fun elements => separatedElements (elementsLexemes elements))
    (fun found element => found.map Expr.erase = element.map Expr.erase) (ReadableElement size)
    (fun element => ∀ item, element = some item → item.hasInitializer = false) readable
    reaches.facing ?_ ?_
  · intro element elements reversed state readable later facing
    cases element with
    | none =>
        have facing : state.Facing (.mark .comma ::
          (separatedElements (elementsLexemes elements) ++ .mark .rightBracket :: rest)) := facing
        refine ⟨Nat.lt_succ_self _, ?_⟩
        refine at?_false (by rw [facing.mark]; rintro ⟨⟩) (.iteFalse (by simp) ?_)
        refine eat?_true facing fun after reaches => .iteTrue rfl ?_
        exact .pure ⟨none, rfl, rfl, reaches.mono fun _ => trivial⟩
    | some item =>
        have readable := readable item rfl
        have facing : state.Facing (separatedElements (some item.lexemes :: elementsLexemes elements) ++
          .mark .rightBracket :: rest) := facing
        refine ⟨length_separatedElements_lt (Expr.length_pos readable.legible) _, ?_⟩
        rw [separatedElements_some, List.append_assoc] at facing
        have notClose : state.lookahead.kind ≠ .punctuator .rightBracket :=
          item_ne_mark readable.legible rfl (by decide) facing
        have notComma : state.lookahead.kind ≠ .punctuator .comma :=
          item_ne_mark readable.legible rfl (by decide) facing
        refine at?_false notClose (.iteFalse (by simp) ?_)
        refine eat?_false notComma (.iteFalse (by simp) ?_)
        refine item_then hold readable (fun part _ => wraps_inherit part) facing ?_ ?_
        · cases elements with
          | nil => exact Nat.zero_lt_two
          | cons second elements => cases second <;> exact Nat.lt_succ_self _
        · intro found middle same reaches
          have related : Option.map Expr.erase (some found) = Option.map Expr.erase (some item) :=
            congrArg some same
          have quiet : state.Reaches _
              (∀ part, some item = some part → part.hasInitializer = false) middle :=
            reaches.mono fun calm => calm item rfl
          cases elements with
          | nil =>
              refine at?_true reaches.facing.mark (.iteFalse (by simp) ?_)
              exact .pure ⟨some found, rfl, related, quiet⟩
          | cons second elements =>
              have facing : middle.Facing (.mark .comma ::
                  (separatedElements (elementsLexemes (second :: elements)) ++
                    .mark .rightBracket :: rest)) := by
                cases second <;> exact reaches.facing
              refine at?_false (by rw [facing.mark]; rintro ⟨⟩) (.iteTrue rfl ?_)
              refine expect_then facing fun after reaches' => noteTrailingComma_then ?_ ?_
              · exact elements_ne_close (later second (List.mem_cons_self ..)) reaches'.facing
              · exact .pure ⟨some found, rfl, related, quiet.afterwards reaches'⟩
  · rintro found after alike reaches'
    refine at?_true reaches'.facing.mark (.iteTrue rfl (.pure ?_))
    refine expect_then reaches'.facing fun final reaches'' => spanFrom_then fun loc => .pure ⟨?_, ?_⟩
    · rw [List.append_nil, List.reverse_reverse, Expr.erase, Expr.erase,
        eraseElements_of_forall₂ alike]
    · refine reaches.andThen ((reaches'.mono ?_).afterwards reaches'')
      rw [Expr.hasInitializer]
      rintro calm element member item rfl
      exact settled_of_elements calm member

end Parse

end ExprScript
