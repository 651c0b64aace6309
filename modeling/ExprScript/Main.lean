import ExprScript.Shell.Session

/-!
The program. A source on the command line is run at once; without one, lines
are handled as they come in.
-/

namespace ExprScript.Shell

/-- Handles lines from the standard input. -/
partial def interact (session : Session) (input output : IO.FS.Stream) : IO Unit := do
  output.putStr prompt
  output.flush
  let line ← input.getLine
  if line.isEmpty then output.putStrLn ""
  else
    match session.feed line with
    | (.skipped, session) => interact session input output
    | (.finished, _) => return
    | (.printed text, session) =>
      output.putStr text
      interact session input output
    | (.failed message, session) =>
      IO.eprintln message
      interact session input output

def report (result : Output) : IO UInt32 := do
  IO.print result.stdout
  IO.eprint result.stderr
  return result.code.toUInt32

end ExprScript.Shell

open ExprScript Shell in
def main (arguments : List String) : IO UInt32 := do
  match Options.ofArguments? arguments with
  | none => report (execute arguments "")
  | some options =>
    match options.source?, Session.start options with
    | none, .ok session =>
      interact session (← IO.getStdin) (← IO.getStdout)
      return 0
    | _, _ => report (runWith options "")
