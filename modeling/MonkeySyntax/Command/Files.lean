/-
# Files held in memory

A set of files, named by their paths from one directory.  A directory is there if a file lies
somewhere below it.  Paths are followed step by step: `.` and empty steps stay, and `..` goes up.
Above the directory and at the root there are directories, and nothing in them is known.
-/

namespace MonkeySyntax

/-- Why a file could not be read. -/
inductive ReadFailure where
  | missing | isDirectory | notDirectory | notText
  deriving DecidableEq, Repr

namespace ReadFailure

/-- What a message says of the failure. -/
def message : ReadFailure → String
  | missing => "No such file or directory (os error 2)"
  | isDirectory => "Is a directory (os error 21)"
  | notDirectory => "Not a directory (os error 20)"
  | notText => "stream did not contain valid UTF-8"

end ReadFailure

/-- Bytes as the text that they are the UTF-8 form of. -/
def textOfBytes (bytes : ByteArray) : Except ReadFailure String :=
  match String.fromUTF8? bytes with
  | some s => .ok s
  | none => .error .notText

/-- The steps of a path. -/
def pathSteps (path : String) : List String := path.splitOn "/"

/-- The name of the file at the end of a path. -/
def fileName (path : String) : String := ((pathSteps path).getLast?).getD path

/-- Files with the steps that lead to them. -/
structure Files where
  entries : List (List String × ByteArray)

namespace Files

/-- Files given by path and content. -/
def ofList (files : List (String × ByteArray)) : Files :=
  ⟨files.map fun (path, bytes) =>
    ((pathSteps path).filter fun step => step ≠ "" ∧ step ≠ ".", bytes)⟩

/-- The content of the file at `place`. -/
def content? (f : Files) (place : List String) : Option ByteArray :=
  (f.entries.find? (·.1 = place)).map Prod.snd

/-- Whether a file lies at or below `place`, or it is the directory itself. -/
def holds (f : Files) (place : List String) : Bool :=
  place.isEmpty || f.entries.any fun entry => place.isPrefixOf entry.1

/-- Why nothing can be read at the end of steps that are taken outside of the files. -/
def outside (steps : List String) : ReadFailure :=
  if steps.all (["", ".", ".."].contains ·) then .isDirectory else .missing

/-- Follows the steps of a path from `place`. -/
def follow (f : Files) (place : List String) : List String → Except ReadFailure (List String)
  | [] => .ok place
  | step :: steps =>
    if (f.content? place).isSome then .error .notDirectory
    else if step = "" ∨ step = "." then f.follow place steps
    else if step = ".." then
      if place = [] then .error (outside steps) else f.follow place.dropLast steps
    else if f.holds (place ++ [step]) then f.follow (place ++ [step]) steps
    else .error .missing

/-- The text of the file at the end of a path. -/
def read (f : Files) (path : String) : Except ReadFailure String := do
  let steps := pathSteps path
  if steps.head? = some "" then throw (outside steps)
  let place ← f.follow [] steps
  match f.content? place with
  | some bytes => textOfBytes bytes
  | none => throw .isDirectory

end Files

end MonkeySyntax
