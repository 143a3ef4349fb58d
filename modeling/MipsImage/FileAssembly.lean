import MipsImage.Batch
import MipsImage.FileTree
import MipsImage.Log

/-!
# Assembling files

Sources are read from a file tree and images are written to it. A directory is assembled as a batch
of the sources in it, in the order of their names, and an unreadable source fails on its own. A
single file is assembled next to itself.
-/
set_option autoImplicit false

namespace MipsImage

/-! ## Sources -/

/-- The names of the sources in a directory. -/
def sourceNames (tree : FileTree) (directory : Path) : Except FileError (List Text) :=
  (tree.fileNames directory).map (·.filter fun name => sourceExtensions.any (·.isSuffixOf name))

def readSource (tree : FileTree) (path : Path) : Except FileError (List SourceLine) :=
  (tree.readText path).map SourceLine.ofSource

def readJob (tree : FileTree) (directory : Path) (name : Text) : Except FileError Job :=
  (readSource tree (directory.append ⟨false, [name]⟩)).map (Job.mk name)

/-- The jobs for all sources in a directory. -/
def readJobs (tree : FileTree) (directory : Path) : Except FileError (List Job) := do
  let names ← sourceNames tree directory
  names.mapM (readJob tree directory)

/-- What is told at once of a source in which something cannot be converted. -/
def conversionEntries (file : Text) (a : Assembly) : List LogEntry :=
  match a.image with
  | .error (.conversion cause) =>
    [⟨.error, .batch,
      "Unexpected exception while assembling ".toText ++ file ++ ": ".toText ++ cause.message⟩]
  | _ => []

/-- The verdict on one source in a directory, and what is told on the way. -/
def assembleSource (tree : FileTree) (directory : Path) (name : Text) :
    List LogEntry × Verdict :=
  match readJob tree directory name with
  | .ok job =>
    let assembly := Assembly.ofLines none job.lines
    (conversionEntries name assembly, .ofAssembly name assembly)
  | .error _ => ([], .failed name "Could not read file".toText [])

/-! ## Images -/

/-- Writes the images among the verdicts into a directory that exists, until a write fails. -/
def writeImages (tree : FileTree) (directory : Path) :
    List Verdict → FileTree × Except FileError (List Path)
  | [] => (tree, .ok [])
  | verdict :: rest =>
    match verdict.image with
    | none => writeImages tree directory rest
    | some image =>
      let path := directory.append (.ofText (outputName verdict.file))
      match tree.write path image with
      | .error e => (tree, .error e)
      | .ok tree =>
        let (tree, paths) := writeImages tree directory rest
        (tree, paths.map (path :: ·))

/-- Makes a directory and writes the images among the verdicts into it. -/
def deliver (tree : FileTree) (directory : Path) (verdicts : List Verdict) :
    FileTree × Except FileError (List Path) :=
  match tree.makeDirectories directory with
  | .error e => (tree, .error e)
  | .ok tree => writeImages tree directory verdicts

/-! ## Runs -/

/-- What a run leaves behind: the files, what it told, and its result. -/
structure Run (α : Type) where
  tree : FileTree
  log : List LogEntry
  result : α

/-- Why a directory could not be assembled. -/
inductive DirectoryError where
  | file (cause : FileError)
  | workers (cause : WorkerFault)
  /-- A directory was to be named and its name is missing. -/
  | unnamed

/-- An error of a batch as it is told, where a line that is not known is called `None`. -/
def failureEntry (d : Diagnostic Text) : LogEntry :=
  let file := d.file.getD "None".toText
  let line := (d.line.map toString).getD "None"
  ⟨.error, .batch, file ++ s!":{line}: ".toText ++ d.message⟩

/-- The errors of all verdicts without an image. -/
def failureEntries (verdicts : List Verdict) : List LogEntry :=
  (verdicts.filter (·.image.isNone)).flatMap fun verdict => verdict.errors.map failureEntry

/-- The verdicts on all sources in a directory, each with what is told on the way to it. -/
def assembleSources (tree : FileTree) (input : Option Path) (workers : Workers) :
    Except DirectoryError (List (List LogEntry × Verdict)) :=
  match input with
  | none => .error .unnamed
  | some input =>
    match sourceNames tree input with
    | .error e => .error (.file e)
    | .ok names => (runAll workers (assembleSource tree input) names).mapError .workers

/-- Assembles the sources of one directory into another one, which is not looked at before all of
them are assembled. -/
def assembleDirectory (tree : FileTree) (input output : Option Path) (workers : Workers) :
    Run (Except DirectoryError (List Verdict)) :=
  match assembleSources tree input workers with
  | .error e => ⟨tree, [], .error e⟩
  | .ok results =>
    let verdicts := results.map Prod.snd
    let entries := results.flatMap Prod.fst ++ failureEntries verdicts
    match output with
    | none => ⟨tree, entries, .error .unnamed⟩
    | some output =>
      match deliver tree output verdicts with
      | (tree, .error e) => ⟨tree, entries, .error (.file e)⟩
      | (tree, .ok paths) =>
        let failed := (verdicts.filter (·.image.isNone)).length
        let summary := s!"Assembled {paths.length} file(s), {failed} failed"
        ⟨tree, entries ++ [⟨.info, .batch, summary.toText⟩], .ok verdicts⟩

/-- Why a single file could not be assembled. -/
inductive SingleError where
  | file (cause : FileError)
  | source (diagnostic : Diagnostic Text)
  | conversion (cause : Unconvertible)

/-- Assembles a file into an image next to it. -/
def assembleSingle (tree : FileTree) (path : Path) : Run (Except SingleError Path) :=
  match readSource tree path with
  | .error e => ⟨tree, [], .error (.file e)⟩
  | .ok lines =>
    match (Assembly.ofLines none lines).image with
    | .error (.conversion cause) => ⟨tree, [], .error (.conversion cause)⟩
    | .error (.fault e) => ⟨tree, [], .error (.source (e.report (some path.name)))⟩
    | .ok image =>
      let target := path.withName (outputName path.name)
      match tree.write target image with
      | .error e => ⟨tree, [], .error (.file e)⟩
      | .ok tree =>
        let message := s!"Wrote {image.length} bytes to ".toText ++ target.text
        ⟨tree, [⟨.info, .batch, message⟩], .ok target⟩

end MipsImage
