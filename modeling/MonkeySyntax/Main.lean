/-
# The program `monkey-parse`

Reads what the command asks for and prints its outcome.  Lines are answered as they come.
-/

import MonkeySyntax.Command

namespace MonkeySyntax
namespace Command

/-- The failure that an error of the file system stands for. -/
def failureOf : IO.Error → ReadFailure
  | .noFileOrDirectory _ _ _ | .noSuchThing _ _ _ => .missing
  | .inappropriateType _ _ _ => .isDirectory
  | _ => .notDirectory

/-- The text of the file at `path`. -/
def readFile (path : String) : IO (Except ReadFailure String) := do
  try
    return textOfBytes (← IO.FS.readBinFile path)
  catch e =>
    return .error (failureOf e)

/-- Prints an outcome. -/
def report (o : Outcome) : IO UInt32 := do
  IO.print o.stdout
  IO.eprint o.stderr
  return UInt32.ofNat o.exit

/-- The bytes of the next line of `stdin`, where `line` holds those read so far, last first. -/
partial def nextLine (stdin : IO.FS.Stream) (line : List UInt8) : IO (List UInt8) := do
  match (← stdin.read 1).toList with
  | [] => return line.reverse
  | byte :: _ => if byte = 10 then return (byte :: line).reverse else nextLine stdin (byte :: line)

/-- Answers the lines of `stdin` one by one. -/
partial def converse (tokens : Bool) (stdin stdout : IO.FS.Stream) : IO UInt32 := do
  stdout.putStr prompt
  stdout.flush
  let line ← nextLine stdin []
  if line.isEmpty then return 0
  match textOfBytes (lineContent line).toByteArray with
  | .error why => report (unreadable "from stdin" why)
  | .ok text =>
    stdout.putStr (reply tokens text)
    converse tokens stdin stdout

end Command
end MonkeySyntax

open MonkeySyntax in
def main (args : List String) : IO UInt32 := do
  match Request.ofArguments args with
  | none => Command.report Command.misused
  | some ⟨some path, tokens⟩ =>
    Command.report (Command.onFile tokens path (← Command.readFile path))
  | some ⟨none, tokens⟩ => Command.converse tokens (← IO.getStdin) (← IO.getStdout)
