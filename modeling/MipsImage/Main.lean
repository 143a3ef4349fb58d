import MipsImage.CommandLine

/-!
# The program

The command line on real files. What the run may look at is read into a file tree first, the run
itself is `runCommandLine`, and the files that it changed in the tree are then written back.
-/
set_option autoImplicit false

namespace MipsImage

/-- A text as it is shown, where a surrogate is written by its number. -/
def shown (t : Text) : String :=
  String.join (t.map fun
    | .char c => c.toString
    | c => "\\u" ++ String.ofList (Nat.toDigits 16 c.toNat))

def placeText (place : Place) : String := shown (Path.text ⟨true, place⟩)

/-- The place to which a path leads if every step upwards leaves the directory above. -/
def placeOf (tree : FileTree) (path : Path) : Place :=
  path.steps.foldl
    (fun place step => if step = FileTree.parentStep then place.dropLast else place ++ [step])
    (tree.start path)

/-- A tree with one more file at the place to which a path leads, if the file can be read. -/
def loadFile (tree : FileTree) (path : Path) : IO FileTree := do
  let place := placeOf tree path
  try
    let content ← IO.FS.readBinFile (placeText place)
    let withParents := (tree.makeDirectories ⟨true, place.dropLast⟩).toOption.getD tree
    pure (withParents.insert place (.file content.toList))
  catch _ => pure tree

/-- A tree with a directory and the files in it, if it can be listed. -/
def loadDirectory (tree : FileTree) (path : Path) : IO FileTree := do
  let place := placeOf tree path
  try
    let root ← IO.currentDir
    let entries ← (root / placeText place).readDir
    let tree := (tree.makeDirectories ⟨true, place⟩).toOption.getD tree
    entries.foldlM (fun tree entry => loadFile tree ⟨true, place ++ [entry.fileName.toText]⟩) tree
  catch _ => loadFile tree path

/-- All that an invocation may read. -/
def loadFor (tree : FileTree) (i : Invocation) : IO FileTree := do
  if i.files = [] then
    let tree ← i.inputDir.elim (pure tree) fun name => loadDirectory tree (.ofText name)
    i.outputDir.elim (pure tree) fun name => loadFile tree (.ofText name)
  else i.files.foldlM (fun tree file => loadFile tree (.ofText file)) tree

/-- Makes the directories and writes the files that differ between two trees. -/
def store (before after : FileTree) : IO PUnit := do
  for place in after.directoriesSince before do IO.FS.createDirAll (placeText place)
  for (place, content) in after.changedSince before do
    IO.FS.writeBinFile (placeText place) (ByteArray.mk content.toArray)

def runProgram (arguments : List String) : IO UInt32 := do
  let here := (Path.ofText (← IO.currentDir).toString.toText).steps
  let texts := arguments.map String.toText
  -- No path has more steps than bytes, so there are never too many directories to make.
  let start := FileTree.startingAt here FileTree.maxPathBytes
  let tree ← match Invocation.ofTexts texts with
    | .ok i => loadFor start i
    | .error _ => pure start
  let run := runCommandLine texts tree
  for entry in run.log do IO.eprintln (shown entry.render)
  store tree run.tree
  match run.result with
  | .ok code => pure (UInt32.ofNat code)
  | .error abort => throw (IO.userError (shown abort.message))

end MipsImage

def main (arguments : List String) : IO UInt32 := MipsImage.runProgram arguments
