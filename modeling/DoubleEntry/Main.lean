import DoubleEntry.CommandLine

/-! # The program

Reads its arguments, answers them from the files of the system and prints the
answer. The answer itself is worked out on a shelf of files: whenever a file is
asked for that is not on the shelf yet, it is fetched and the work starts again.
-/

namespace DoubleEntry.Program

abbrev Shelf := List (String × Except ReadError String)

/-- How many files may be open at once. -/
def nesting : Nat := 4096

def Shelf.files (shelf : Shelf) : Files where
  read path := (shelf.lookup path).getD (.error (.notFound path))
  nesting := nesting

/-- The file that was asked for and is not on the shelf. -/
def missing? (result : Except Fault Ledger) : Option String :=
  match result with
  | .error ⟨.unreadable path (.notFound _), _⟩ => some path
  | _ => none

/-- The number that the system gives to a failure; it may come as its negative. -/
def systemNumber (code : UInt32) : Nat :=
  if code.toNat < 0x80000000 then code.toNat else 0x100000000 - code.toNat

def reasonOf (text : String) : Nat → ReadError
  | 2 => .noSuchFile
  | 13 => .system "Permission denied" 13
  | 20 => .notDirectory
  | 21 => .isDirectory
  | 36 => .nameTooLong
  | 40 => .system "Too many levels of symbolic links" 40
  | number => .system text number

/-- The reason that the system gives for a failure. -/
def reason : IO.Error → ReadError
  | .noFileOrDirectory _ code text | .alreadyExists _ code text | .interrupted _ code text
  | .invalidArgument _ code text | .permissionDenied _ code text | .resourceExhausted _ code text
  | .inappropriateType _ code text | .noSuchThing _ code text
  | .otherError code text | .resourceBusy code text | .resourceVanished code text
  | .unsupportedOperation code text | .hardwareFault code text
  | .unsatisfiedConstraints code text | .illegalOperation code text | .protocolError code text
  | .timeExpired code text => reasonOf text (systemNumber code)
  | .unexpectedEof => .notText
  | .userError text => .system text 0

def fetch (path : String) : IO (Except ReadError String) := do
  if path.toList.contains '\x00' then return .error .badName
  try
    let content ← IO.FS.readBinFile path
    match String.fromUTF8? content with
    | some text => return .ok text
    | none => return .error .notText
  catch failure => return .error (reason failure)

/-- Answer a request, fetching one missing file after the other. -/
partial def answer (request : Request) (shelf : Shelf) : IO Outcome := do
  match missing? (Ledger.read shelf.files request.file).result with
  | some path =>
    let text ← fetch path
    answer request ((path, text) :: shelf)
  | none => return Outcome.ofRequest shelf.files request

/-- What is said about arguments that ask for nothing. -/
def usage : String := "usage: -i FILE (balances | tb [o|c|oc|otc] | months)"

end DoubleEntry.Program

def main (arguments : List String) : IO UInt32 := do
  match DoubleEntry.Request.ofArguments? arguments with
  | none =>
    IO.eprintln DoubleEntry.Program.usage
    return DoubleEntry.Outcome.usageCode.toUInt32
  | some request =>
    let outcome ← DoubleEntry.Program.answer request []
    IO.print outcome.output
    IO.eprint outcome.errors
    return outcome.exitCode.toUInt32
