/-!
Addresses of nodes. A path leads from the root of a tree to one of its nodes;
what is remembered about a node is filed under its path.
-/

namespace ExprScript

inductive Edge where
  /-- The only part. -/
  | inner
  | left
  | right
  | test
  | consequent
  | alternate
  | target
  | value
  | object
  | key
  | callee
  | tag
  | body
  | pattern
  /-- An element, argument, property or hole. -/
  | item (index : Nat)
  | param (index : Nat)
deriving DecidableEq, Repr

/-- The edges from the node up to the root, the last one first. -/
abbrev Path := List Edge

end ExprScript
