import MipsImage.Bytes
import MipsImage.Path
import MipsImage.Text.Lines
import MipsImage.Text.Surrogate

/-!
# File trees

A file tree holds files and directories at places under one root, and the place from which relative
paths lead. The root is a directory and stands above itself. Names are told apart by their code
points, where the surrogates that stand for bytes are what the names of real files can hold besides
characters. A name has at most 255 bytes and a path at most 4095. Every operation says how it fails.
-/
set_option autoImplicit false

namespace MipsImage

/-- Why no file can have some path. -/
inductive PathFault where
  | nullCharacter
  /-- Surrogates that stand for no bytes. -/
  | surrogates (run : SurrogateRun)
  deriving DecidableEq, Repr

def PathFault.message : PathFault → Text
  | nullCharacter => "embedded null byte".toText
  | surrogates run => run.message.toText

inductive FileError where
  | notFound
  | notADirectory
  | isADirectory
  | alreadyExists
  | nameTooLong
  | unusable (cause : PathFault)
  /-- More directories are missing one above another than can be made at once. -/
  | tooDeep
  /-- The bytes of a file are not the UTF-8 form of a text. -/
  | notText
  deriving DecidableEq, Repr

inductive Node where
  | file (content : Bytes)
  | directory
  deriving DecidableEq, Repr

/-- Where something stands in a tree: the names on the way from the root. -/
abbrev Place := List Text

/-- The nodes at the places other than the root, each place once, the working directory, and how
many directories can be made at once, one inside another. -/
structure FileTree where
  nodes : List (Place × Node)
  here : Place
  nesting : Nat

namespace FileTree

def node? (tree : FileTree) (place : Place) : Option Node :=
  if place = [] then some .directory else tree.nodes.lookup place

def insert (tree : FileTree) (place : Place) (node : Node) : FileTree :=
  { tree with nodes := tree.nodes.filter (·.1 ≠ place) ++ [(place, node)] }

/-! ## Following paths -/

/-- A surrogate stands for a byte if it is one of the 128 for the bytes that are no ASCII. -/
def isEscapedByte (place : Fin 0x800) : Bool := 0x480 ≤ place.val && place.val < 0x500

/-- The first surrogates of a text, from a position on, that stand for no bytes. -/
def unstorableFrom? (position : Nat) : Text → Option SurrogateRun
  | [] => none
  | .surrogate place :: rest =>
    if isEscapedByte place then unstorableFrom? (position + 1) rest
    else some (.ofSurrogate position place rest)
  | .char _ :: rest => unstorableFrom? (position + 1) rest

/-- The number of bytes that a code point of a name takes. -/
def byteSize : CodePoint → Nat
  | .char c => c.utf8Size
  | .surrogate _ => 1

def byteCount (t : Text) : Nat := t.foldl (fun count c => count + byteSize c) 0

def maxNameBytes : Nat := 255

def maxPathBytes : Nat := 4095

/-- Why no file can have this path, if there is a reason. -/
def pathFault? (path : Path) : Option PathFault :=
  match unstorableFrom? 0 path.text with
  | some run => some (.surrogates run)
  | none => if path.steps.any (·.contains (.char '\x00')) then some .nullCharacter else none

/-- A path is refused as a whole before any of its steps is taken. -/
def checkPath (path : Path) : Except FileError Unit :=
  match pathFault? path with
  | some cause => .error (.unusable cause)
  | none => if maxPathBytes < byteCount path.text then .error .nameTooLong else .ok ()

/-- The step to the directory above. -/
def parentStep : Text := "..".toText

/-- Where steps lead from a place that exists. -/
def walk (tree : FileTree) (place : Place) : List Text → Except FileError Place
  | [] => .ok place
  | step :: rest =>
    match tree.node? place with
    | some .directory =>
      if step = parentStep then tree.walk place.dropLast rest
      else if maxNameBytes < byteCount step then .error .nameTooLong
      else if (tree.node? (place ++ [step])).isSome then tree.walk (place ++ [step]) rest
      else .error .notFound
    | some (.file _) => .error .notADirectory
    | none => .error .notFound

/-- The place from which a path leads. -/
def start (tree : FileTree) (path : Path) : Place := if path.absolute then [] else tree.here

/-- The place to which a path leads. -/
def find (tree : FileTree) (path : Path) : Except FileError Place := do
  checkPath path
  tree.walk (tree.start path) path.steps

/-! ## Reading -/

def read (tree : FileTree) (path : Path) : Except FileError Bytes := do
  let place ← tree.find path
  match tree.node? place with
  | some (.file content) => .ok content
  | some .directory => .error .isADirectory
  | none => .error .notFound

/-- The text whose UTF-8 form a file holds, its line breaks being translated. -/
def readText (tree : FileTree) (path : Path) : Except FileError Text := do
  let bytes ← tree.read path
  match String.fromUTF8? ⟨bytes.toArray⟩ with
  | some text => .ok (Text.universalNewlines text.toText)
  | none => .error .notText

/-- The names of the files in a directory, sorted by code points. -/
def fileNames (tree : FileTree) (path : Path) : Except FileError (List Text) := do
  let place ← tree.find path
  match tree.node? place with
  | some .directory =>
    let names := tree.nodes.filterMap fun (other, node) =>
      match node with
      | .file _ => if other.dropLast = place then other.getLast? else none
      | .directory => none
    .ok (names.mergeSort Text.atMost)
  | some (.file _) => .error .notADirectory
  | none => .error .notFound

/-! ## Writing -/

/-- Steps down to the last place, where every missing directory on the way is made. The first
missing one tells how many there are at most, and nothing is made if these are too many. -/
def makeSteps (tree : FileTree) (place : Place) : List Text → Except FileError FileTree
  | [] => .ok tree
  | step :: rest =>
    if step = parentStep then tree.makeSteps place.dropLast rest
    else if maxNameBytes < byteCount step then .error .nameTooLong
    else
      let next := place ++ [step]
      match tree.node? next with
      | some .directory => tree.makeSteps next rest
      | some (.file _) => .error (if rest = [] then .alreadyExists else .notADirectory)
      | none =>
        if tree.nesting ≤ rest.length then .error .tooDeep
        else (tree.insert next .directory).makeSteps next rest

/-- Makes a directory and those above it, where they do not exist already. -/
def makeDirectories (tree : FileTree) (path : Path) : Except FileError FileTree := do
  checkPath path
  tree.makeSteps (tree.start path) path.steps

/-- Writes a file in a directory that exists, over what the file held before. -/
def write (tree : FileTree) (path : Path) (content : Bytes) : Except FileError FileTree := do
  checkPath path
  if path.name = [] ∨ path.name = parentStep then .error .isADirectory
  else
    let place ← tree.find { path with steps := path.steps.dropLast }
    match tree.node? place with
    | some .directory =>
      let target := place ++ [path.name]
      if maxNameBytes < byteCount path.name then .error .nameTooLong
      else match tree.node? target with
        | some .directory => .error .isADirectory
        | _ => .ok (tree.insert target (.file content))
    | _ => .error .notADirectory

/-- A tree in which nothing exists but the way to the working directory. -/
def startingAt (here : Place) (nesting : Nat) : FileTree :=
  let tree : FileTree := ⟨[], here, nesting⟩
  ((tree.makeDirectories ⟨true, here⟩).toOption).getD tree

/-! ## Comparing -/

/-- The files that are new or hold something else than before. -/
def changedSince (tree before : FileTree) : List (Place × Bytes) :=
  tree.nodes.filterMap fun (place, node) =>
    match node with
    | .file content =>
      if before.node? place = some (.file content) then none else some (place, content)
    | .directory => none

/-- The directories that are new. -/
def directoriesSince (tree before : FileTree) : List Place :=
  tree.nodes.filterMap fun (place, node) =>
    if node = .directory ∧ (before.node? place).isNone then some place else none

/-- The changed files under the working directory with their paths from there, sorted by these. -/
def changesHere (tree before : FileTree) : List (Text × Bytes) :=
  let under := (tree.changedSince before).filterMap fun (place, content) =>
    if tree.here.isPrefixOf place then
      some (Path.text ⟨false, place.drop tree.here.length⟩, content)
    else none
  under.mergeSort fun a b => Text.atMost a.1 b.1

end FileTree

end MipsImage
