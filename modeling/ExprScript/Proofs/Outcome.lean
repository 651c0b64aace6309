import ExprScript.Loop
import Mathlib

/-! # What a run ensures and what it achieves

Readers, the scanner and the parser are computations on a state that may fail.
`Ensures` is about their successful runs, `Achieves` says that there is one, and
`Yields` is about the failures as well; the rules below follow the way computations
are put together.
-/

namespace ExprScript

variable {ε σ α β : Type}

theorem bind_run {action : EStateM ε σ α} {before middle : σ} {value : α}
    (run : action before = .ok value middle) (next : α → EStateM ε σ β) :
    (action >>= next) before = next value middle := by
  simp only [Bind.bind, EStateM.bind, run]

theorem bind_failed {action : EStateM ε σ α} {before middle : σ} {error : ε}
    (run : action before = .error error middle) (next : α → EStateM ε σ β) :
    (action >>= next) before = .error error middle := by
  simp only [Bind.bind, EStateM.bind, run]

theorem exists_ok_of_any {result : Except ε α} {accepts : α → Bool}
    (accepted : result.toOption.any accepts = true) :
    ∃ value, result = .ok value ∧ accepts value = true := by
  cases result with
  | error error => cases accepted
  | ok value => exact ⟨value, rfl, accepted⟩

/-- If the action succeeds, its result and the state after it satisfy the
postcondition. -/
def Ensures (action : EStateM ε σ α) (before : σ) (post : α → σ → Prop) : Prop :=
  ∀ result after, action before = .ok result after → post result after

/-- What holds of the outcome of a round. -/
def Round.Holds (again : α → Prop) (done : β → Prop) : Round α β → Prop
  | .again state => again state
  | .done result => done result

namespace Ensures

variable {before : σ} {post : β → σ → Prop}

theorem mono {action : EStateM ε σ α} {post wider : α → σ → Prop}
    (ensures : Ensures action before post)
    (within : ∀ result after, post result after → wider result after) :
    Ensures action before wider :=
  fun result after run => within result after (ensures result after run)

theorem both {action : EStateM ε σ α} {post other : α → σ → Prop}
    (ensures : Ensures action before post) (ensures' : Ensures action before other) :
    Ensures action before fun result after => post result after ∧ other result after :=
  fun result after run => ⟨ensures result after run, ensures' result after run⟩

theorem pure {post : α → σ → Prop} {result : α} (holds : post result before) :
    Ensures (Pure.pure result : EStateM ε σ α) before post := by
  intro result' after run
  cases run
  exact holds

theorem throw {post : α → σ → Prop} (error : ε) :
    Ensures (MonadExcept.throw error : EStateM ε σ α) before post := by
  intro result after run
  cases run

theorem bind {action : EStateM ε σ α} {next : α → EStateM ε σ β}
    (ensures : Ensures action before fun result after => Ensures (next result) after post) :
    Ensures (action >>= next) before post := by
  intro result after run
  simp only [Bind.bind, EStateM.bind] at run
  cases start : action before with
  | error failure state => rw [start] at run; cases run
  | ok value state =>
      rw [start] at run
      exact ensures value state start result after run

theorem bindAny {action : EStateM ε σ α} {next : α → EStateM ε σ β}
    (ensures : ∀ value state, Ensures (next value) state post) :
    Ensures (action >>= next) before post :=
  bind fun value state _ => ensures value state

theorem get {next : σ → EStateM ε σ β} (ensures : Ensures (next before) before post) :
    Ensures (MonadState.get >>= next) before post :=
  bind (pure ensures)

theorem set {next : PUnit → EStateM ε σ β} {state : σ}
    (ensures : Ensures (next ⟨⟩) state post) :
    Ensures (MonadStateOf.set state >>= next) before post :=
  bind fun _ _ run => by cases run; exact ensures

theorem modify {next : PUnit → EStateM ε σ β} {change : σ → σ}
    (ensures : Ensures (next ⟨⟩) (change before) post) :
    Ensures (MonadStateOf.modifyGet (fun state => (⟨⟩, change state)) >>= next) before post :=
  bind fun _ _ run => by cases run; exact ensures

theorem ite {condition : Prop} [Decidable condition] {first second : EStateM ε σ β}
    (whenTrue : condition → Ensures first before post)
    (whenFalse : ¬ condition → Ensures second before post) :
    Ensures (if condition then first else second) before post := by
  split
  · exact whenTrue ‹_›
  · exact whenFalse ‹_›

theorem iteBind {condition : Prop} [Decidable condition] {first second : EStateM ε σ α}
    {next : α → EStateM ε σ β} (ensures : Ensures (if condition then first else second) before
      fun result after => Ensures (next result) after post) :
    Ensures (if condition then first >>= next else second >>= next) before post := by
  split
  · rw [if_pos ‹_›] at ensures
    exact bind ensures
  · rw [if_neg ‹_›] at ensures
    exact bind ensures

/-- A loop: every round keeps the invariant until it is done. -/
theorem repeatWithin {exhausted : EStateM ε σ β} {round : α → EStateM ε σ (Round α β)}
    (invariant : α → σ → Prop)
    (step : ∀ value state, invariant value state → Ensures (round value) state
      fun outcome after => outcome.Holds (invariant · after) (post · after))
    (stalls : ∀ state, Ensures exhausted state post) (budget : Nat) {value : α}
    (holds : invariant value before) :
    Ensures (ExprScript.repeatWithin exhausted round budget value) before post := by
  induction budget generalizing value before with
  | zero => exact stalls before
  | succ budget induction =>
      refine bind ((step value before holds).mono fun outcome after result => ?_)
      cases outcome with
      | again next => exact induction result
      | done result' => exact pure result

end Ensures

/-- The action succeeds, and its result and the state after it satisfy the
postcondition. -/
def Achieves (action : EStateM ε σ α) (before : σ) (post : α → σ → Prop) : Prop :=
  ∃ result after, action before = .ok result after ∧ post result after

namespace Achieves

variable {before : σ} {post : β → σ → Prop}

theorem mono {action : EStateM ε σ α} {post wider : α → σ → Prop}
    (achieves : Achieves action before post)
    (within : ∀ result after, post result after → wider result after) :
    Achieves action before wider := by
  rcases achieves with ⟨result, after, run, holds⟩
  exact ⟨result, after, run, within result after holds⟩

theorem ensured {action : EStateM ε σ α} {post other : α → σ → Prop}
    (achieves : Achieves action before post) (ensures : Ensures action before other) :
    Achieves action before fun result after => post result after ∧ other result after := by
  rcases achieves with ⟨result, after, run, holds⟩
  exact ⟨result, after, run, holds, ensures result after run⟩

theorem pure {post : α → σ → Prop} {result : α} (holds : post result before) :
    Achieves (Pure.pure result : EStateM ε σ α) before post :=
  ⟨result, before, rfl, holds⟩

theorem bind {action : EStateM ε σ α} {next : α → EStateM ε σ β}
    (achieves : Achieves action before fun result after => Achieves (next result) after post) :
    Achieves (action >>= next) before post := by
  rcases achieves with ⟨value, state, start, result, after, run, holds⟩
  refine ⟨result, after, ?_, holds⟩
  simp only [Bind.bind, EStateM.bind]
  rw [start]
  exact run

theorem get {next : σ → EStateM ε σ β} (achieves : Achieves (next before) before post) :
    Achieves (MonadState.get >>= next) before post :=
  bind (pure achieves)

theorem set {next : PUnit → EStateM ε σ β} {state : σ}
    (achieves : Achieves (next ⟨⟩) state post) :
    Achieves (MonadStateOf.set state >>= next) before post :=
  bind ⟨_, _, rfl, achieves⟩

theorem modify {next : PUnit → EStateM ε σ β} {change : σ → σ}
    (achieves : Achieves (next ⟨⟩) (change before) post) :
    Achieves (MonadStateOf.modifyGet (fun state => (⟨⟩, change state)) >>= next) before post :=
  bind ⟨_, _, rfl, achieves⟩

theorem iteTrue {condition : Prop} [Decidable condition] {first second : EStateM ε σ β}
    (holds : condition) (achieves : Achieves first before post) :
    Achieves (if condition then first else second) before post := by
  rwa [if_pos holds]

theorem iteFalse {condition : Prop} [Decidable condition] {first second : EStateM ε σ β}
    (fails : ¬ condition) (achieves : Achieves second before post) :
    Achieves (if condition then first else second) before post := by
  rwa [if_neg fails]

end Achieves

/-- If the action succeeds, its result and the state after it satisfy the
postcondition; if it fails, its error is one of the expected ones. -/
def Yields (expected : ε → Prop) (action : EStateM ε σ α) (before : σ) (post : α → σ → Prop) :
    Prop :=
  match action before with
  | .ok result after => post result after
  | .error error _ => expected error

namespace Yields

variable {expected : ε → Prop} {before : σ} {post : β → σ → Prop}

theorem ensures {action : EStateM ε σ α} {post : α → σ → Prop}
    (yields : Yields expected action before post) : Ensures action before post := by
  intro result after run
  rwa [Yields, run] at yields

theorem error {action : EStateM ε σ α} {post : α → σ → Prop} {failure : ε} {after : σ}
    (yields : Yields expected action before post) (run : action before = .error failure after) :
    expected failure := by
  rwa [Yields, run] at yields

theorem ensured {action : EStateM ε σ α} {post other wider : α → σ → Prop}
    (yields : Yields expected action before post) (ensures : Ensures action before other)
    (within : ∀ result after, post result after → other result after → wider result after) :
    Yields expected action before wider := by
  unfold Yields at yields ⊢
  split
  · next result after run =>
      rw [run] at yields
      exact within result after yields (ensures result after run)
  · next run => rwa [run] at yields

theorem mono {action : EStateM ε σ α} {post wider : α → σ → Prop}
    (yields : Yields expected action before post)
    (within : ∀ result after, post result after → wider result after) :
    Yields expected action before wider :=
  yields.ensured yields.ensures fun result after holds _ => within result after holds

theorem pure {post : α → σ → Prop} {result : α} (holds : post result before) :
    Yields expected (Pure.pure result : EStateM ε σ α) before post := holds

theorem throw {post : α → σ → Prop} {error : ε} (holds : expected error) :
    Yields expected (MonadExcept.throw error : EStateM ε σ α) before post := holds

theorem bind {action : EStateM ε σ α} {next : α → EStateM ε σ β}
    (yields : Yields expected action before fun result after =>
      Yields expected (next result) after post) :
    Yields expected (action >>= next) before post := by
  unfold Yields at yields
  simp only [Yields, Bind.bind, EStateM.bind]
  cases run : action before with
  | ok value middle =>
      rw [run] at yields
      exact yields
  | error failure middle =>
      rw [run] at yields
      exact yields

theorem get {next : σ → EStateM ε σ β} (yields : Yields expected (next before) before post) :
    Yields expected (MonadState.get >>= next) before post :=
  bind yields

theorem modify {next : PUnit → EStateM ε σ β} {change : σ → σ}
    (yields : Yields expected (next ⟨⟩) (change before) post) :
    Yields expected (MonadStateOf.modifyGet (fun state => (⟨⟩, change state)) >>= next) before
      post :=
  bind yields

theorem ite {condition : Prop} [Decidable condition] {first second : EStateM ε σ β}
    (whenTrue : condition → Yields expected first before post)
    (whenFalse : ¬ condition → Yields expected second before post) :
    Yields expected (if condition then first else second) before post := by
  split
  · exact whenTrue ‹_›
  · exact whenFalse ‹_›

theorem iteBind {condition : Prop} [Decidable condition] {first second : EStateM ε σ α}
    {next : α → EStateM ε σ β} (yields : Yields expected (if condition then first else second)
      before fun result after => Yields expected (next result) after post) :
    Yields expected (if condition then first >>= next else second >>= next) before post := by
  split
  · rw [if_pos ‹_›] at yields
    exact bind yields
  · rw [if_neg ‹_›] at yields
    exact bind yields

/-- A loop: every round keeps the invariant until it is done. -/
theorem repeatWithin {exhausted : EStateM ε σ β} {round : α → EStateM ε σ (Round α β)}
    (invariant : α → σ → Prop)
    (step : ∀ value state, invariant value state → Yields expected (round value) state
      fun outcome after => outcome.Holds (invariant · after) (post · after))
    (stalls : ∀ value state, invariant value state → Yields expected exhausted state post)
    (budget : Nat) {value : α} (holds : invariant value before) :
    Yields expected (ExprScript.repeatWithin exhausted round budget value) before post := by
  induction budget generalizing value before with
  | zero => exact stalls value before holds
  | succ budget induction =>
      apply bind
      apply (step value before holds).mono
      intro outcome after result
      cases outcome with
      | again next => exact induction result
      | done result' => exact pure result

end Yields

/-- The action keeps the invariant, whether or not it fails; if it fails, its error is one of
the expected ones. -/
def Upholds (expected : ε → Prop) (invariant : σ → Prop) (action : EStateM ε σ α) : Prop :=
  ∀ before, invariant before →
    match action before with
    | .ok _ after => invariant after
    | .error error after => expected error ∧ invariant after

namespace Upholds

variable {expected : ε → Prop} {invariant : σ → Prop}

theorem yields {action : EStateM ε σ α} (upholds : Upholds expected invariant action) {before : σ}
    (holds : invariant before) :
    Yields expected action before fun _ after => invariant after := by
  have outcome := upholds before holds
  unfold Yields
  split
  · next run => rwa [run] at outcome
  · next run =>
      rw [run] at outcome
      exact outcome.1

theorem failed {action : EStateM ε σ α} (upholds : Upholds expected invariant action)
    {before after : σ} (holds : invariant before) {error : ε}
    (run : action before = .error error after) : expected error ∧ invariant after := by
  have outcome := upholds before holds
  rwa [run] at outcome

theorem pure (result : α) : Upholds expected invariant (Pure.pure result : EStateM ε σ α) :=
  fun _ holds => holds

theorem throw {error : ε} (holds : expected error) :
    Upholds expected invariant (MonadExcept.throw error : EStateM ε σ α) :=
  fun _ kept => ⟨holds, kept⟩

theorem bind {action : EStateM ε σ α} {next : α → EStateM ε σ β}
    (upholds : Upholds expected invariant action)
    (rest : ∀ value, Upholds expected invariant (next value)) :
    Upholds expected invariant (action >>= next) := by
  intro before holds
  have first := upholds before holds
  simp only [Bind.bind, EStateM.bind]
  cases run : action before with
  | ok value middle =>
      rw [run] at first
      exact rest value middle first
  | error failure middle =>
      rw [run] at first
      exact first

theorem get {next : σ → EStateM ε σ β}
    (upholds : ∀ state, invariant state → Upholds expected invariant (next state)) :
    Upholds expected invariant (MonadState.get >>= next) :=
  fun before holds => upholds before holds before holds

theorem ite {condition : Prop} [Decidable condition] {first second : EStateM ε σ α}
    (whenTrue : Upholds expected invariant first)
    (whenFalse : Upholds expected invariant second) :
    Upholds expected invariant (if condition then first else second) := by
  split
  · exact whenTrue
  · exact whenFalse

theorem repeatWithin {exhausted : EStateM ε σ β} {round : α → EStateM ε σ (Round α β)}
    (upholds : ∀ value, Upholds expected invariant (round value))
    (stalls : Upholds expected invariant exhausted) (budget : Nat) (value : α) :
    Upholds expected invariant (ExprScript.repeatWithin exhausted round budget value) := by
  induction budget generalizing value with
  | zero => exact stalls
  | succ budget induction =>
      apply bind (upholds value)
      intro outcome
      cases outcome with
      | again next => exact induction next
      | done result => exact pure result

end Upholds

inductive Rounds (round : α → EStateM ε σ (Round α β)) : Nat → α → σ → α → σ → Prop
  | none {value : α} {state : σ} : Rounds round 0 value state value state
  | one {count : Nat} {value next last : α} {state middle final : σ}
      (run : round value state = .ok (.again next) middle)
      (later : Rounds round count next middle last final) :
      Rounds round (count + 1) value state last final

namespace Rounds

variable {round : α → EStateM ε σ (Round α β)}

theorem single {value next : α} {state after : σ}
    (run : round value state = .ok (.again next) after) : Rounds round 1 value state next after :=
  .one run .none

theorem trans {first second : Nat} {value middle last : α} {state between final : σ}
    (left : Rounds round first value state middle between)
    (right : Rounds round second middle between last final) :
    Rounds round (first + second) value state last final := by
  induction left with
  | none => rwa [Nat.zero_add]
  | one run _ induction =>
      rw [Nat.add_right_comm]
      exact .one run (induction right)

theorem repeatWithin_add {count : Nat} {value last : α} {state final : σ}
    (rounds : Rounds round count value state last final) (exhausted : EStateM ε σ β)
    (budget : Nat) : ExprScript.repeatWithin exhausted round (count + budget) value state =
      ExprScript.repeatWithin exhausted round budget last final := by
  induction rounds with
  | none => rw [Nat.zero_add]
  | one run _ induction =>
      rw [Nat.add_right_comm, ExprScript.repeatWithin, bind_run run]
      exact induction

/-- A loop is left in the round that is done, if the budget allows for it. -/
theorem repeatWithin {count budget : Nat} {value last : α} {state final : σ}
    (rounds : Rounds round count value state last final) (room : count < budget)
    {exhausted : EStateM ε σ β} {post : β → σ → Prop}
    (done : Achieves (round last) final fun outcome after =>
      outcome.Holds (fun _ => False) (post · after)) :
    Achieves (ExprScript.repeatWithin exhausted round budget value) state post := by
  induction rounds generalizing budget with
  | none =>
      cases budget with
      | zero => omega
      | succ budget =>
          apply Achieves.bind
          apply done.mono
          intro outcome after holds
          cases outcome with
          | again next => exact holds.elim
          | done result => exact .pure holds
  | one run _ induction =>
      cases budget with
      | zero => omega
      | succ budget =>
          apply Achieves.bind
          exact ⟨_, _, run, induction (by omega) done⟩

end Rounds

end ExprScript
