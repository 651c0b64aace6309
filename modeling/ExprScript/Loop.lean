/-!
Loops with a bound. Every loop of the scanner and of the grammar consumes a
part of its input in each round, so the size of the input bounds the rounds.
-/

namespace ExprScript

inductive Round (α β : Type) where
  | again (state : α)
  | done (result : β)

/-- Repeats `round` until it is done, at most `budget` times. A loop that has
used up its budget ends with `exhausted`. -/
@[specialize]
def repeatWithin {m : Type → Type} [Monad m] {α β : Type} (exhausted : m β)
    (round : α → m (Round α β)) : Nat → α → m β
  | 0, _ => exhausted
  | budget + 1, state => do
    match ← round state with
    | .again next => repeatWithin exhausted round budget next
    | .done result => return result

end ExprScript
