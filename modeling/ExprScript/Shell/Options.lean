/-!
The options of the command line.
-/

namespace ExprScript

structure Options where
  /-- The expression to evaluate. Without one, lines are read. -/
  source? : Option String := none
  /-- The variables to start with, as a JSON object. -/
  scope? : Option String := none
  strict : Bool := false
  /-- Show the tokens of the source. -/
  tokens : Bool := false
  /-- Show the kind of the tree and its source text. -/
  tree : Bool := false
  verbosity : Nat := 0
deriving DecidableEq, Repr

namespace Options

def addSource (options : Options) (source : String) : Option Options :=
  match options.source? with
  | none => some { options with source? := some source }
  | some _ => none

def addScope (options : Options) (scope : String) : Option Options :=
  match options.scope? with
  | none => some { options with scope? := some scope }
  | some _ => none

def addFlag (options : Options) (name : String) : Option Options :=
  match name with
  | "--strict" => if options.strict then none else some { options with strict := true }
  | "--tokens" => if options.tokens then none else some { options with tokens := true }
  | "--ast" => if options.tree then none else some { options with tree := true }
  | "--verbose" => some { options with verbosity := options.verbosity + 1 }
  | _ =>
    match name.toList with
    | '-' :: letters =>
      if letters.all (· == 'v') then
        some { options with verbosity := options.verbosity + letters.length }
      else none
    | _ => none

def isOption (argument : String) : Bool :=
  match argument.toList with
  | '-' :: _ :: _ => true
  | _ => false

def joinedScope? (argument : String) : Option String :=
  let mark := "--scope=".toList
  if mark.isPrefixOf argument.toList then
    some (String.ofList (argument.toList.drop mark.length))
  else none

/-- Reads the arguments after those that are already in `options`. There is no
result if they are not understood. -/
def addAll (options : Options) : List String → Option Options
  | [] => some options
  | "--" :: rest => rest.foldlM addSource options
  | ["--scope"] => none
  | "--scope" :: value :: rest => do
    if isOption value then none else addAll (← options.addScope value) rest
  | argument :: rest => do
    match joinedScope? argument with
    | some value => addAll (← options.addScope value) rest
    | none =>
      if isOption argument then addAll (← options.addFlag argument) rest
      else addAll (← options.addSource argument) rest

def ofArguments? (arguments : List String) : Option Options := addAll {} arguments

example : ofArguments? ["-vv", "--strict", "--scope=1", "a"] =
    some { source? := "a", scope? := "1", strict := true, verbosity := 2 } := by decide +kernel
example : ofArguments? ["a", "b"] = none := by decide +kernel

end Options

end ExprScript
