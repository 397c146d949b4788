import DoubleEntry.Path

/-! # Files to read from

The library reads files through a `Files` value, which may hold its texts in
memory or stand for anything else that answers to paths.
-/

namespace DoubleEntry

inductive ReadError where
  /-- There is no text of this name in memory. -/
  | notFound (path : String)
  /-- Neither a file nor a directory has this name. -/
  | noSuchFile
  /-- A file stands where the path needs a directory. -/
  | notDirectory
  | isDirectory
  /-- The path or one of its names is longer than the system takes. -/
  | nameTooLong
  /-- The path holds a character that no name may hold. -/
  | badName
  | notText
  /-- The system gives another reason, with its number. -/
  | system (reason : String) (number : Nat)
  deriving Repr, DecidableEq

def ReadError.message : ReadError → String
  | notFound path => path ++ " not found"
  | noSuchFile => "No such file or directory (os error 2)"
  | notDirectory => "Not a directory (os error 20)"
  | isDirectory => "Is a directory (os error 21)"
  | nameTooLong => "File name too long (os error 36)"
  | badName => "file name contained an unexpected NUL byte"
  | notText => "stream did not contain valid UTF-8"
  | system reason number => reason ++ " (os error " ++ toString number ++ ")"

structure Files where
  read : String → Except ReadError String
  /-- How many files may be open at once, each asked for by the one before it. -/
  nesting : Nat

namespace Files

/-- The text that a list of named texts holds for a path. Of two texts under one
    name the later one counts. -/
def find? (texts : List (String × String)) (path : String) : Option String :=
  (texts.reverse.find? fun named => Path.key named.1.toList = Path.key path.toList).map (·.2)

/-- Texts held in memory under their paths. Files that go on asking for each
    other are given up once each of them could be open twice. -/
def inMemory (texts : List (String × String)) : Files where
  read path :=
    match find? texts path with
    | some text => .ok text
    | none => .error (.notFound path)
  nesting := 2 * (texts.length + 1)

end Files

end DoubleEntry
