import ExprScript.Eval.Call
import ExprScript.Grammar.Expression
import ExprScript.Shell.DocumentReader
import ExprScript.Shell.Options
import ExprScript.Shell.Render

/-!
The shell: it evaluates one expression, or line after line with the same
variables. Everything is a function of the arguments and the input; reading
and printing is left to the program.
-/

namespace ExprScript

inductive ScopeFault where
  /-- The text is no JSON. -/
  | malformed
  | notObject (document : Document)

def ScopeFault.message : ScopeFault → String
  | .malformed => "malformed JSON"
  | .notObject document => "scope must be a JSON object, got " ++ document.write

def readVariables (text : String) : Except ScopeFault (List (String × Document)) :=
  match Document.read? text with
  | none => .error .malformed
  | some (.object members) => .ok members
  | some document => .error (.notObject document)

def Eval.newScope (members : List (String × Document)) : Eval Scope := do
  let entries ← Document.memberValues members
  allocate fun heap => heap.newRoot (.ofEntries entries)

def noHost : Host := fun _ => none

def Failure.describe : Failure → String
  | .raised error => error.describe
  | .exhausted => "calls are nested too deeply"

def padding (width : Nat) (text : String) : String :=
  String.ofList (List.replicate (width - text.length) ' ')

def Token.summary (token : Token) : String :=
  let line := toString token.span.start.line
  let column := toString token.span.start.column
  padding 4 line ++ line ++ ":" ++ column ++ padding 4 column ++ " " ++ token.kind.name ++ " " ++
    token.raw ++ "\n"

def Expr.summary (expr : Expr) : String := expr.kind.name ++ " " ++ expr.print ++ "\n"

/-- What is printed for a source: its tokens or its tree if that is wanted, and
its value otherwise. -/
def Eval.runSource (options : Options) (scope : Scope) (source : String) : Eval String := do
  let tokens ←
    if options.tokens then
      pure (String.join ((← ofExcept (tokenize source)).map Token.summary))
    else pure ""
  let expr ← ofExcept (parse source options.strict)
  if options.tree then return tokens ++ expr.summary
  else if options.tokens then return tokens
  else
    let value ← evaluate noHost (← newTree) expr scope false
    return (← inspect fun heap => heap.render value) ++ "\n"

structure Session where
  options : Options
  scope : Scope
  world : World

inductive Reply where
  /-- The line is blank. -/
  | skipped
  /-- The line ends the session. -/
  | finished
  | printed (text : String)
  | failed (message : String)
deriving DecidableEq, Repr

namespace Session

def startWith (options : Options) (members : List (String × Document)) : Session :=
  match (Eval.newScope members).run {} with
  | .ok scope world => { options, scope, world }
  | .error _ world => { options, scope := { inner := ⟨0⟩ }, world }

def start (options : Options) : Except ScopeFault Session := do
  match options.scope? with
  | none => return startWith options []
  | some text => return startWith options (← readVariables text)

def run (session : Session) (source : String) : Except Failure String × Session :=
  match (Eval.runSource session.options session.scope source).run session.world with
  | .ok text world => (.ok text, { session with world })
  | .error failure world => (.error failure, { session with world })

def exitCommand : String := ".exit"

def feed (session : Session) (line : String) : Reply × Session :=
  let source := Text.trimBoth Text.isWhiteSpace line
  if source == "" then (.skipped, session)
  else if source == exitCommand then (.finished, session)
  else
    match session.run source with
    | (.ok text, session) => (.printed text, session)
    | (.error failure, session) => (.failed failure.describe, session)

end Session

structure Output where
  code : Nat := 0
  stdout : String := ""
  stderr : String := ""
deriving DecidableEq, Repr

namespace Output

def print (output : Output) (text : String) : Output :=
  { output with stdout := output.stdout ++ text }

def complain (output : Output) (text : String) : Output :=
  { output with stderr := output.stderr ++ text }

end Output

namespace Shell

def prompt : String := "> "

def errorCode : Nat := 1

def usageCode : Nat := 2

def usage : String :=
  "Usage: exprscript [--scope JSON] [--strict] [--tokens] [--ast] [-v] [EXPR]\n"

def scopeErrorText (fault : ScopeFault) : String :=
  "Error: invalid --scope\n\nCaused by:\n    " ++ fault.message ++ "\n"

def errorText (failure : Failure) : String := "Error: " ++ failure.describe ++ "\n"

def splitLines : List Char → List (List Char)
  | [] => []
  | '\n' :: rest => [] :: splitLines rest
  | c :: rest =>
    match splitLines rest with
    | [] => [[c]]
    | line :: lines => (c :: line) :: lines

/-- The lines of a text. What follows the last line end is a line of its own,
unless it is empty. -/
def linesOf (text : String) : List String := (splitLines text.toList).map String.ofList

def runLines (session : Session) (output : Output) : List String → Output
  | [] => (output.print prompt).print "\n"
  | line :: lines =>
    let output := output.print prompt
    match session.feed line with
    | (.skipped, session) => runLines session output lines
    | (.finished, _) => output
    | (.printed text, session) => runLines session (output.print text) lines
    | (.failed message, session) => runLines session (output.complain (message ++ "\n")) lines

def runWith (options : Options) (input : String) : Output :=
  match Session.start options with
  | .error fault => { code := errorCode, stderr := scopeErrorText fault }
  | .ok session =>
    match options.source? with
    | none => runLines session {} (linesOf input)
    | some source =>
      match (session.run source).1 with
      | .ok text => { stdout := text }
      | .error failure => { code := errorCode, stderr := errorText failure }

def execute (arguments : List String) (input : String) : Output :=
  match Options.ofArguments? arguments with
  | none => { code := usageCode, stderr := usage }
  | some options => runWith options input

example : execute ["[1, 'a']"] "" = { stdout := "[1, \"a\"]\n" } := by decide +kernel
example : execute [] "a = 1\n\na + 1" = { stdout := "> 1\n> > 2\n> \n" } := by decide +kernel

end Shell

end ExprScript
