/-! # Paths of files

A path is text, and a file goes by the text it was asked for. Two texts can name
the same file all the same: doubled slashes, a single dot behind a slash and a
slash at the end do not matter. Two dots are never resolved.
-/

namespace DoubleEntry.Path

def isAbsolute (path : List Char) : Bool := path.head? = some '/'

/-- Drop the slashes, and the single dots behind slashes, that a path ends with.
    The path is given and returned backwards. -/
def trimReversed : List Char → List Char
  | '/' :: rest => trimReversed rest
  | '.' :: '/' :: rest => trimReversed rest
  | path => path

/-- The part of a path before its last name, without a slash at its end unless
    it is the root directory itself. The empty path and the root directory lie in
    nothing. -/
def parent? (path : List Char) : Option (List Char) :=
  match trimReversed path.reverse with
  | [] => none
  | reversed =>
    match reversed.dropWhile (· ≠ '/') with
    | [] => some []
    | above =>
      match trimReversed above with
      | [] => some ['/']
      | directory => some directory.reverse

/-- A path as it is seen from a directory. -/
def join (directory path : List Char) : List Char :=
  if isAbsolute path ∨ directory = [] then path
  else if directory.getLast? = some '/' then directory ++ path
  else directory ++ '/' :: path

/-- The path that stands in a file, as it is seen from where that file lies. -/
def resolve (file path : String) : String :=
  match parent? file.toList with
  | none => path
  | some directory => String.ofList (join directory path.toList)

def pieces : List Char → List (List Char)
  | [] => [[]]
  | c :: rest =>
    if c = '/' then [] :: pieces rest
    else
      match pieces rest with
      | [] => [[c]]
      | piece :: others => (c :: piece) :: others

/-- What makes two paths name the same file. -/
structure Key where
  absolute : Bool
  dotted : Bool
  /-- The names on the way, double dots among them. -/
  names : List (List Char)
  deriving DecidableEq, Repr

def key (path : List Char) : Key :=
  { absolute := isAbsolute path
    dotted := (pieces path).head? = some ['.']
    names := (pieces path).filter fun piece => piece ≠ [] && piece ≠ ['.'] }

end DoubleEntry.Path
