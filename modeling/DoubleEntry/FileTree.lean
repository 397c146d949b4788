import DoubleEntry.Files

/-! # Trees of files

A directory with files and further directories in it, as a program that runs in
that directory finds them. The names on a path are followed one after the other,
and each of them has to be there. A tree grows by paths too: whatever directory
such a path passes is made, and a file takes the place of an earlier one. Nothing
else lies above the directory but directories without a file.
-/

namespace DoubleEntry

/-- The names on the way from the directory of a tree to a place. They begin with
    double dots where the place lies above that directory. -/
abbrev Way := List (List Char)

namespace Way

/-- Go on by one piece of a path. An empty piece and a single dot lead nowhere
    else, and double dots take the last name back while there is one. -/
def step (way : Way) (piece : List Char) : Way :=
  if piece = [] ∨ piece = ['.'] then way
  else if piece = ['.', '.'] ∧ way.any (· ≠ ['.', '.']) then way.dropLast
  else way ++ [piece]

/-- The places that the pieces of a path pass, where they begin and where they end
    among them. -/
def passed (way : Way) : List (List Char) → List Way
  | [] => [way]
  | piece :: rest => way :: passed (way.step piece) rest

end Way

structure FileTree where
  /-- Directories, each as the way to it. -/
  directories : List Way
  /-- Files, each as the way to it, and their bytes. Of two files in one place the
      earlier in the list counts. -/
  files : List (Way × ByteArray)

namespace FileTree

def empty : FileTree where
  directories := []
  files := []

def makeDirectories (tree : FileTree) (pieces : List (List Char)) : FileTree :=
  { tree with directories := Way.passed [] pieces ++ tree.directories }

/-- Put a file at the end of a path, and make the directories on the way. -/
def putFile (tree : FileTree) (path : String) (content : ByteArray) : FileTree :=
  let pieces := Path.pieces path.toList
  let tree := tree.makeDirectories pieces.dropLast
  { tree with files := (pieces.foldl Way.step [], content) :: tree.files }

theorem lookup_putFile (tree : FileTree) (path : String) (content : ByteArray) :
    (tree.putFile path content).files.lookup ((Path.pieces path.toList).foldl Way.step []) =
      some content := by
  simp [putFile]

/-- The tree of some directories and some files, made in that order. -/
def ofLists (directories : List String) (files : List (String × ByteArray)) : FileTree :=
  files.foldl (fun tree file => tree.putFile file.1 file.2)
    (directories.foldl (fun tree path => tree.makeDirectories (Path.pieces path.toList)) empty)

/-- Where one gets along a path. -/
inductive Place where
  /-- A directory of the tree, or one above it. -/
  | directory (way : Way)
  | file (content : ByteArray)
  /-- A directory that a path gets to from the root directory. -/
  | outside

def pathLimit : Nat := 4096

def nameLimit : Nat := 255

def size (text : List Char) : Nat := (String.ofList text).utf8ByteSize

/-- Whether a piece of a path is a name, which has to be there to be followed. -/
def isName (piece : List Char) : Bool := piece ≠ [] && piece ≠ ['.'] && piece ≠ ['.', '.']

/-- What lies at the end of a way that ends with a name. -/
def lookUp (tree : FileTree) (way : Way) : Except ReadError Place :=
  if way ∈ tree.directories then .ok (.directory way)
  else
    match tree.files.lookup way with
    | some content => .ok (.file content)
    | none => .error .noSuchFile

/-- Follow one piece of a path, which only a directory lets one do. -/
def follow (tree : FileTree) (place : Place) (piece : List Char) : Except ReadError Place :=
  match place with
  | .file _ => .error .notDirectory
  | .outside =>
    if !isName piece then .ok .outside
    else if nameLimit < size piece then .error .nameTooLong
    else .error .noSuchFile
  | .directory way =>
    if !isName piece then .ok (.directory (way.step piece))
    else if nameLimit < size piece then .error .nameTooLong
    else tree.lookUp (way.step piece)

def locate (tree : FileTree) (path : List Char) : Except ReadError Place :=
  if '\x00' ∈ path then .error .badName
  else if path = [] then .error .noSuchFile
  else if pathLimit ≤ size path then .error .nameTooLong
  else
    (Path.pieces path).foldlM tree.follow
      (if Path.isAbsolute path then .outside else .directory [])

def read (tree : FileTree) (path : String) : Except ReadError String :=
  match tree.locate path.toList with
  | .error reason => .error reason
  | .ok (.file content) =>
    match String.fromUTF8? content with
    | some text => .ok text
    | none => .error .notText
  | .ok _ => .error .isDirectory

/-- The files of a tree. A path that grows while files go on asking for each
    other is too long after as many steps as it may take bytes. -/
def toFiles (tree : FileTree) : Files where
  read := tree.read
  nesting := pathLimit * (tree.files.length + 1)

end FileTree

end DoubleEntry
