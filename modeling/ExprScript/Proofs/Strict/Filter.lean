import ExprScript.Proofs.Grammar.State
import ExprScript.Proofs.Strict.Leaf

/-! # Two runs of the parser

The same action is run twice, the second time in strict mode. As long as strict mode
refuses none of the tokens that are used, both runs go through the same states; the
first token that it refuses ends the second run with its error.
-/

namespace ExprScript

namespace ParserState

def strictly (state : ParserState) : ParserState := { state with strict := true }

/-- What holds between two tokens of the text, outside of strict mode. -/
structure Within (text : List Char) (state : ParserState) : Prop where
  read : ∃ before : Scanner, before.Placed ∧
    Scanner.next before = .ok state.lookahead state.scanner
  source : state.scanner.source = text
  loose : state.strict = false

variable {text : List Char} {state : ParserState}

theorem Within.placed (within : state.Within text) : state.scanner.Placed := by
  rcases within.read with ⟨before, placed, run⟩
  exact placed.of_leads (Scanner.next_ensures before _ _ run).1

theorem Within.isMarked (within : state.Within text)
    (literal : state.lookahead.kind = .stringLiteral ∨ state.lookahead.kind = .numericLiteral) :
    Leaf.isMarked text state.lookahead.span.start = state.lookahead.octal := by
  rcases within.read with ⟨before, placed, run⟩
  have source : before.source = text :=
    (Scanner.next_ensures before _ _ run).1.source.symm.trans within.source
  have found := Scanner.tokenAt_of_next placed _ _ run literal
  rw [source] at found
  unfold Leaf.isMarked
  cases token : Scanner.tokenAt text state.lookahead.span.start with
  | none =>
      rw [token] at found
      cases found
  | some token' =>
      rw [token] at found
      exact Option.some.inj found

end ParserState

namespace Parse

open ParserState

variable {α β : Type} {text : List Char} {before : ParserState}

/-- The run in strict mode fails where the other one does. If that succeeds and has
used the given tokens, the run in strict mode ends at the first one that is refused,
and succeeds in the same way if none is. -/
def Filters (text : List Char) (action : Parse α) (before : ParserState)
    (post : α → List Leaf → Prop) : Prop :=
  before.Within text →
    match action before with
    | .ok result after => after.Within text ∧ ∃ leaves, post result leaves ∧
        match leaves.findSome? (Leaf.offence? text) with
        | none => action before.strictly = .ok result after.strictly
        | some error => ∃ after', action before.strictly = .error error after'
    | .error _ _ => ∀ result after, action before.strictly ≠ .ok result after

namespace Filters

variable {post : β → List Leaf → Prop}

theorem mono {action : Parse α} {post wider : α → List Leaf → Prop}
    (filters : Filters text action before post)
    (within : ∀ result leaves, post result leaves → wider result leaves) :
    Filters text action before wider := by
  intro inside
  have holds := filters inside
  split at holds
  · rcases holds with ⟨inside', leaves, result, strict⟩
    exact ⟨inside', leaves, within _ leaves result, strict⟩
  · exact holds

theorem given {action : Parse α} {post : α → List Leaf → Prop}
    (filters : before.Within text → Filters text action before post) :
    Filters text action before post :=
  fun inside => filters inside inside

theorem pure {post : α → List Leaf → Prop} {result : α} (holds : post result []) :
    Filters text (Pure.pure result) before post :=
  fun inside => ⟨inside, [], holds, rfl⟩

theorem throw {post : α → List Leaf → Prop} (error : Error) :
    Filters text (MonadExcept.throw error) before post :=
  fun _ _ _ run => nomatch run

theorem ensuring {action : Parse α} {post : α → List Leaf → Prop} {fact : α → Prop}
    (filters : Filters text action before post)
    (ensures : Ensures action before fun result _ => fact result) :
    Filters text action before fun result leaves => post result leaves ∧ fact result := by
  intro inside
  have holds := filters inside
  split at holds
  · next result after run =>
      rcases holds with ⟨inside', leaves, found, strict⟩
      exact ⟨inside', leaves, ⟨found, ensures result after run⟩, strict⟩
  · exact holds

theorem ofExcept {result : Except Error α} {post : α → List Leaf → Prop}
    (holds : ∀ value, result = .ok value → post value []) :
    Filters text (Parse.ofExcept result) before post := by
  cases result with
  | error error => exact fun _ _ _ run => nomatch run
  | ok value => exact pure (holds value rfl)

/-- The tokens of the first action come before those of the second one. -/
theorem bind {action : Parse α} {next : α → Parse β} {middlePost : α → List Leaf → Prop}
    (first : Filters text action before middlePost)
    (rest : ∀ value leaves middle, middlePost value leaves →
      Filters text (next value) middle fun result leaves' => post result (leaves ++ leaves')) :
    Filters text (action >>= next) before post := by
  intro inside
  have start := first inside
  simp only [Bind.bind, EStateM.bind]
  cases run : action before with
  | error error middle =>
      rw [run] at start
      intro result after run'
      cases strict : action before.strictly with
      | ok value middle' => exact start value middle' strict
      | error error' middle' =>
          rw [strict] at run'
          cases run'
  | ok value middle =>
      rw [run] at start
      rcases start with ⟨inside', leaves, holds, strict⟩
      have later := rest value leaves middle holds inside'
      dsimp only
      cases run' : next value middle with
      | error error after =>
          rw [run'] at later
          intro result after' run''
          split at strict
          · rw [strict] at run''
            exact later result after' run''
          · rcases strict with ⟨last, fails⟩
            rw [fails] at run''
            cases run''
      | ok result after =>
          rw [run'] at later
          rcases later with ⟨inside'', leaves', holds', strict'⟩
          refine ⟨inside'', leaves ++ leaves', holds', ?_⟩
          rw [List.findSome?_append]
          split at strict
          · next noOffence =>
              rw [noOffence, strict]
              exact strict'
          · next error offence =>
              rcases strict with ⟨last, fails⟩
              rw [offence, fails]
              exact ⟨last, rfl⟩

theorem get {next : ParserState → Parse β} (blind : next before.strictly = next before)
    (rest : Filters text (next before) before post) :
    Filters text (MonadState.get >>= next) before post := by
  intro inside
  have holds := rest inside
  change match next before before with
    | .ok result after => after.Within text ∧ ∃ leaves, post result leaves ∧
        match leaves.findSome? (Leaf.offence? text) with
        | none => next before.strictly before.strictly = .ok result after.strictly
        | some error => ∃ after', next before.strictly before.strictly = .error error after'
    | .error _ _ => ∀ result after, next before.strictly before.strictly ≠ .ok result after
  rw [blind]
  exact holds

/-- A change of the state that keeps its place in the text. -/
theorem modify {next : PUnit → Parse β} {change : ParserState → ParserState}
    (blind : change before.strictly = (change before).strictly)
    (keeps : before.Within text → (change before).Within text)
    (rest : Filters text (next ⟨⟩) (change before) post) :
    Filters text (MonadStateOf.modifyGet (fun state => (⟨⟩, change state)) >>= next) before post := by
  intro inside
  have holds := rest (keeps inside)
  change match next ⟨⟩ (change before) with
    | .ok result after => after.Within text ∧ ∃ leaves, post result leaves ∧
        match leaves.findSome? (Leaf.offence? text) with
        | none => next ⟨⟩ (change before.strictly) = .ok result after.strictly
        | some error => ∃ after', next ⟨⟩ (change before.strictly) = .error error after'
    | .error _ _ => ∀ result after, next ⟨⟩ (change before.strictly) ≠ .ok result after
  rw [blind]
  exact holds

end Filters

/-! ## Steps that do not look at strict mode -/

def Blind (action : Parse α) : Prop :=
  ∀ state : ParserState, action state.strictly =
    match action state with
    | .ok result after => .ok result after.strictly
    | .error error after => .error error after.strictly

namespace Blind

theorem pure (result : α) : Blind (Pure.pure result) := fun _ => rfl

theorem throw (error : Error) : Blind (MonadExcept.throw error : Parse α) := fun _ => rfl

theorem scan (action : Scan α) : Blind (scan action) := by
  intro state
  have same : state.strictly.scanner = state.scanner := rfl
  cases run : action.run state.scanner <;> simp only [Parse.scan, same, run] <;> rfl

theorem bind {action : Parse α} {next : α → Parse β} (first : Blind action)
    (rest : ∀ value, Blind (next value)) : Blind (action >>= next) := by
  intro state
  simp only [Bind.bind, EStateM.bind, first state]
  cases action state with
  | ok value middle => exact rest value middle
  | error error middle => rfl

theorem lookahead : Blind lookahead := fun _ => rfl

theorem ofExcept (result : Except Error α) : Blind (ofExcept result) := by
  cases result with
  | ok value => exact pure value
  | error error => exact throw error

theorem modify {change : ParserState → ParserState}
    (same : ∀ state, change state.strictly = (change state).strictly) :
    Blind (MonadStateOf.modifyGet (fun state => (⟨⟩, change state)) : Parse PUnit) := by
  intro state
  change EStateM.Result.ok PUnit.unit (change state.strictly) = .ok _ (change state).strictly
  rw [same]

theorem advance : Blind advance :=
  bind (scan Scanner.next) fun _ => bind lookahead fun _ => bind (modify fun _ => rfl) fun _ =>
    pure _

theorem filters {action : Parse α} (blind : Blind action) {post : α → List Leaf → Prop}
    (ensures : before.Within text → Ensures action before fun result after =>
      after.Within text ∧ post result []) : Filters text action before post := by
  intro inside
  have strict := blind before
  cases run : action before with
  | error error after =>
      rw [run] at strict
      intro result after' run'
      rw [strict] at run'
      cases run'
  | ok result after =>
      rw [run] at strict
      rcases ensures inside result after run with ⟨inside', holds⟩
      exact ⟨inside', [], holds, strict⟩

end Blind

theorem advance_within (placed : before.scanner.Placed) (source : before.scanner.source = text)
    (loose : before.strict = false) : Ensures advance before fun token after =>
      token = before.lookahead ∧ after.Within text := by
  refine .bind ((scan_ensures Scanner.next before).mono fun next middle holds => ?_)
  rcases holds with ⟨read, same⟩
  have lookahead : middle.lookahead = before.lookahead := by rw [same]
  have strict : middle.strict = before.strict := by rw [same]
  refine lookahead_bind (.modify (.pure ⟨lookahead, ⟨⟨before.scanner, placed, read⟩, ?_, ?_⟩⟩))
  · exact (Scanner.next_ensures before.scanner _ _ read).1.source.trans source
  · exact strict.trans loose

/-! ## Rules of the grammar -/

/-- Wherever it starts, the action adds the tokens it has used to the ones before, and
the result stands for all of them. -/
def Filtered (text : List Char) (prior : List Leaf) (leavesOf : α → List Leaf) (action : Parse α) :
    Prop :=
  ∀ before, Filters text action before fun result leaves => leavesOf result = prior ++ leaves

abbrev Silent (text : List Char) (action : Parse α) : Prop := Filtered text [] (fun _ => []) action

def roundLeaves (again : α → List Leaf) (done : β → List Leaf) : Round α β → List Leaf
  | .again state => again state
  | .done result => done result

namespace Filtered

variable {prior : List Leaf} {leavesOf : α → List Leaf} {leavesOf' : β → List Leaf}

theorem pure {result : α} (equal : leavesOf result = prior) :
    Filtered text prior leavesOf (Pure.pure result) := by
  refine fun before => .pure ?_
  rw [List.append_nil]
  exact equal

theorem throw (error : Error) : Filtered text prior leavesOf (MonadExcept.throw error : Parse α) :=
  fun _ => .throw error

theorem fail (cause : Cause) (position : Position) :
    Filtered text prior leavesOf (Parse.fail cause position : Parse α) :=
  throw _

theorem extend {action : Parse α} {next : α → Parse β} (first : Filtered text prior leavesOf action)
    (rest : ∀ value, Filtered text (leavesOf value) leavesOf' (next value)) :
    Filtered text prior leavesOf' (action >>= next) := by
  intro before
  refine .bind (first before) fun value leaves middle found => ?_
  refine (rest value middle).mono fun result leaves' found' => ?_
  rw [found', found, List.append_assoc]

theorem bind {action : Parse α} {next : α → Parse β} (first : Filtered text [] leavesOf action)
    (rest : ∀ value, Filtered text (prior ++ leavesOf value) leavesOf' (next value)) :
    Filtered text prior leavesOf' (action >>= next) := by
  intro before
  refine .bind (first before) fun value leaves middle found => ?_
  refine (rest value middle).mono fun result leaves' found' => ?_
  rw [found', found, List.nil_append, List.append_assoc]

theorem silent {action : Parse α} {next : α → Parse β} (first : Silent text action)
    (rest : ∀ value, Filtered text prior leavesOf' (next value)) :
    Filtered text prior leavesOf' (action >>= next) := by
  refine bind first fun value => ?_
  rw [List.append_nil]
  exact rest value

theorem ite {condition : Prop} [Decidable condition] {left right : Parse α}
    (whenTrue : Filtered text prior leavesOf left) (whenFalse : Filtered text prior leavesOf right) :
    Filtered text prior leavesOf (if condition then left else right) := by
  split
  · exact whenTrue
  · exact whenFalse

theorem ofExcept {result : Except Error α} {next : α → Parse β}
    (rest : ∀ value, result = .ok value → Filtered text prior leavesOf' (next value)) :
    Filtered text prior leavesOf' (Parse.ofExcept result >>= next) := by
  cases result with
  | error error => exact fun _ _ _ _ run => nomatch run
  | ok value => exact rest value rfl

theorem get {next : ParserState → Parse α}
    (blind : ∀ state : ParserState, next state.strictly = next state)
    (rest : ∀ state, Filtered text prior leavesOf (next state)) :
    Filtered text prior leavesOf (MonadState.get >>= next) :=
  fun before => .get (blind before) (rest before before)

/-- A change of the state that keeps its place in the text. -/
theorem modify {next : PUnit → Parse α} {change : ParserState → ParserState}
    (blind : ∀ state : ParserState, change state.strictly = (change state).strictly)
    (keeps : ∀ state : ParserState, state.Within text → (change state).Within text)
    (rest : Filtered text prior leavesOf (next ⟨⟩)) :
    Filtered text prior leavesOf
      (MonadStateOf.modifyGet (fun state => (⟨⟩, change state)) >>= next) :=
  fun before => .modify (blind before) (keeps before) (rest (change before))

theorem loop (leavesOf : α → List Leaf) (leavesOf' : β → List Leaf)
    {round : α → Parse (Round α β)}
    (step : ∀ value, Filtered text (leavesOf value) (roundLeaves leavesOf leavesOf') (round value))
    (value : α) : Filtered text (leavesOf value) leavesOf' (Parse.loop round value) := by
  refine get (fun _ => rfl) fun state => ?_
  generalize state.scanner.cursor.rest.length + 2 = budget
  induction budget generalizing value with
  | zero => exact get (fun _ => rfl) fun _ => fail _ _
  | succ budget induction =>
      refine extend (step value) fun outcome => ?_
      cases outcome with
      | again next => exact induction next
      | done result => exact pure rfl

theorem isolate {action : Parse α} (reads : Filtered text prior leavesOf action) :
    Filtered text prior leavesOf (Parse.isolate action) := by
  refine get (fun _ => rfl) fun state => ?_
  refine modify (fun _ => rfl) (fun _ inside => ⟨inside.read, inside.source, inside.loose⟩) ?_
  refine extend reads fun result => get (fun _ => rfl) fun after => ?_
  split
  · exact fail _ _
  · exact modify (fun _ => rfl) (fun _ inside => ⟨inside.read, inside.source, inside.loose⟩)
      (pure rfl)

theorem inherit {action : Parse α} (reads : Filtered text prior leavesOf action) :
    Filtered text prior leavesOf (Parse.inherit action) := by
  refine get (fun _ => rfl) fun state => ?_
  refine modify (fun _ => rfl) (fun _ inside => ⟨inside.read, inside.source, inside.loose⟩) ?_
  refine extend reads fun result => ?_
  exact modify (fun _ => rfl) (fun _ inside => ⟨inside.read, inside.source, inside.loose⟩)
    (pure rfl)

end Filtered

/-! ## Steps from token to token -/

theorem kind_silent : Silent text kind := .get (fun _ => rfl) fun _ => .pure rfl

theorem start_silent : Silent text start := .get (fun _ => rfl) fun _ => .pure rfl

theorem lookahead_silent : Silent text lookahead := .get (fun _ => rfl) fun _ => .pure rfl

theorem at?_silent (mark : Punctuator) : Silent text (at? mark) :=
  .silent kind_silent fun _ => .pure rfl

theorem spanFrom_silent (place : Position) : Silent text (spanFrom place) :=
  .get (fun _ => rfl) fun _ => .pure rfl

theorem unexpected_filtered {prior : List Leaf} {leavesOf : α → List Leaf} :
    Filtered text prior leavesOf (unexpected : Parse α) :=
  .silent lookahead_silent fun _ => .throw _

theorem secondKind_silent : Silent text secondKind := by
  refine .get (fun _ => rfl) fun state => ?_
  split
  · exact .pure rfl
  · exact .throw _

theorem modify_silent {change : ParserState → ParserState}
    (blind : ∀ state : ParserState, change state.strictly = (change state).strictly)
    (keeps : ∀ state : ParserState, state.Within text → (change state).Within text) :
    Silent text (MonadStateOf.modifyGet (fun state => (⟨⟩, change state)) : Parse PUnit) := by
  refine fun before => (Blind.modify blind).filters fun inside _ after run => ?_
  cases run
  exact ⟨keeps before inside, rfl⟩

theorem advance_silent : Silent text advance := by
  refine fun before => Blind.advance.filters fun inside => ?_
  exact (advance_within inside.placed inside.source inside.loose).mono fun _ _ holds =>
    ⟨holds.2, rfl⟩

theorem eat?_silent (mark : Punctuator) : Silent text (eat? mark) :=
  .silent (at?_silent mark) fun _ => .ite (.silent advance_silent fun _ => .pure rfl) (.pure rfl)

theorem expect_silent (mark : Punctuator) : Silent text (expect mark) :=
  .silent (at?_silent mark) fun _ => .ite advance_silent unexpected_filtered

theorem comma_filtered {prior : List Leaf} {leavesOf : α → List Leaf} {close : Punctuator}
    {next : Parse α} (rest : Filtered text prior leavesOf next) :
    Filtered text prior leavesOf (at? close >>= fun closes =>
      if !closes then expect .comma >>= fun _ => next else next) :=
  .silent (at?_silent close) fun _ => .ite (.silent (expect_silent .comma) fun _ => rest) rest

end Parse

end ExprScript
