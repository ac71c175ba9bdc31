/-
# The command line

`monkey-parse` reads a file, or lines from standard input if no file is named, and prints the
program that it spells.  With `--tokens` it prints the tokens instead.

| input | well formed | otherwise |
| --- | --- | --- |
| a file | the program on standard output | each error beside its line on standard error, exit 1 |
| a line | the program on standard output | the messages on standard output |

Each line is read on its own, after a prompt.  Tokens are printed one a row, and whatever the
lexer finds is well formed for that.
-/

import MonkeySyntax.Command.Files
import MonkeySyntax.Diagnostic.Render
import MonkeySyntax.Parsing.Program
import MonkeySyntax.Tree.Print

namespace MonkeySyntax

/-- What a run of the command leaves behind. -/
structure Outcome where
  exit : Nat
  stdout : String
  stderr : String
  deriving DecidableEq, Repr

/-- What a run of the command is asked for. -/
structure Request where
  /-- The file to read; lines are read where there is none. -/
  file : Option String
  /-- Whether to print the tokens. -/
  tokens : Bool
  deriving DecidableEq, Repr

namespace Request

/-- The request without a file and without a flag. -/
def empty : Request := ⟨none, false⟩

/-- The request with the file `path` in it, if it has none. -/
def withFile (r : Request) (path : String) : Option Request :=
  match r.file with
  | none => some { r with file := some path }
  | some _ => none

/-- The request that takes in the arguments after `--`. -/
def withFiles (r : Request) : List String → Option Request
  | [] => some r
  | path :: paths => do (← r.withFile path).withFiles paths

/-- The request that takes in the arguments `args`.  The flag is given at most once, and so is a
file; a `-` alone is a file. -/
def withArguments (r : Request) : List String → Option Request
  | [] => some r
  | arg :: args =>
    if arg = "--" then r.withFiles args
    else if arg = "-t" ∨ arg = "--tokens" then
      if r.tokens then none else { r with tokens := true }.withArguments args
    else if arg ≠ "-" ∧ arg.startsWith "-" then none
    else do (← r.withFile arg).withArguments args

/-- The request that a list of arguments makes, if it makes one. -/
def ofArguments (args : List String) : Option Request := empty.withArguments args

end Request

namespace Command

/-- What stands before each line. -/
def prompt : String := ">> "

/-- The text of each row, ended by a line feed. -/
def rows (texts : List String) : String := String.join (texts.map (· ++ "\n"))

/-- A token in a listing: its kind, and its value where the kind does not tell. -/
def tokenRow (t : Token) : String :=
  if t.isOneOf [.string, .identifier, .integer, .illegal] then
    t.kind.display ++ " (" ++ t.value ++ ")"
  else t.kind.display

/-- The listing of the tokens of a text, without the end of the input. -/
def listing (text : String) (file : Option String) : String :=
  rows ((Cursor.ofText text file).tokens.dropLast.map tokenRow)

/-- What is printed for one line of input. -/
def reply (tokens : Bool) (line : String) : String :=
  if tokens then listing line none
  else
    let (program, parser) := parseText line none
    if parser.errors = [] then rows [program.print]
    else rows ("parser errors:" :: parser.errors.map fun d => "\t" ++ d.cause.message)

/-- The outcome where something could not be read. -/
def unreadable (what : String) (why : ReadFailure) : Outcome :=
  ⟨1, "", rows ["Error: failed to read " ++ what, "", "Caused by:", "    " ++ why.message]⟩

/-- The outcome for the text of the file at `path`. -/
def onText (tokens : Bool) (path text : String) : Outcome :=
  let file := some (fileName path)
  if tokens then ⟨0, listing text file, ""⟩
  else
    let (program, parser) := parseText text file
    if parser.errors = [] then ⟨0, rows [program.print], ""⟩
    else
      let count := Nat.repr parser.errors.length
      let renderings := parser.errors.map fun d => d.render text ++ "\n"
      ⟨1, "", rows (renderings ++ ["Error: " ++ count ++ " parse error(s) in " ++ path])⟩

/-- The outcome for the file at `path`, which was read or not. -/
def onFile (tokens : Bool) (path : String) (text : Except ReadFailure String) : Outcome :=
  match text with
  | .ok text => onText tokens path text
  | .error why => unreadable path why

/-- A line without the line feed at its end, and without a carriage return before that. -/
def lineContent (line : List UInt8) : List UInt8 :=
  match line.reverse with
  | 10 :: 13 :: rest => rest.reverse
  | 10 :: rest => rest.reverse
  | _ => line

/-- The outcome for lines of input.  The first that is not text ends the run. -/
def onLines (tokens : Bool) : List (List UInt8) → Outcome
  | [] => ⟨0, prompt, ""⟩
  | line :: lines =>
    match textOfBytes (lineContent line).toByteArray with
    | .ok text =>
      let rest := onLines tokens lines
      { rest with stdout := prompt ++ reply tokens text ++ rest.stdout }
    | .error why => { unreadable "from stdin" why with stdout := prompt }

/-- The outcome for a standard input. -/
def onInput (tokens : Bool) (input : ByteArray) : Outcome :=
  onLines tokens (Text.pieces (· = 10) input.toList)

/-- The outcome for arguments that make no request. -/
def misused : Outcome := ⟨2, "", rows ["Usage: monkey-parse [-t|--tokens] [FILE]"]⟩

/-- The outcome of the command where files are read by `read` and `input` is standard input. -/
def run (args : List String) (read : String → Except ReadFailure String) (input : ByteArray) :
    Outcome :=
  match Request.ofArguments args with
  | none => misused
  | some ⟨some path, tokens⟩ => onFile tokens path (read path)
  | some ⟨none, tokens⟩ => onInput tokens input

end Command

end MonkeySyntax
