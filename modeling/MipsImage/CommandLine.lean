import MipsImage.Text.Digit
import MipsImage.FileAssembly

/-!
# The command line

Arguments are options and files. An option has a long name, of which any part from the front will do
that no other option shares, and a letter. A value follows its option as the next argument or is
attached to it, and letters of options without a value may be written together. The files are the
first arguments in a row that are no options and no values; after the terminator `--` everything is
a file. A terminator in the place of an attached value is dropped, which leaves the option without
one. Without files a directory is assembled.
-/
set_option autoImplicit false

namespace MipsImage

inductive Switch where
  | help
  | inputDir
  | outputDir
  | jobs
  | verbose
  deriving DecidableEq, Repr

namespace Switch

def all : List Switch := [help, inputDir, outputDir, jobs, verbose]

def letter : Switch → CodePoint
  | help => 'h'
  | inputDir => 'i'
  | outputDir => 'o'
  | jobs => 'j'
  | verbose => 'v'

def longName : Switch → String
  | help => "--help"
  | inputDir => "--input-dir"
  | outputDir => "--output-dir"
  | jobs => "--jobs"
  | verbose => "--verbose"

def takesValue : Switch → Bool
  | help | verbose => false
  | inputDir | outputDir | jobs => true

def ofLetter? (c : CodePoint) : Option Switch := all.find? (·.letter = c)

end Switch

/-! ## What each argument is -/

def terminatorText : Text := "--".toText

inductive Argument where
  | operand (text : Text)
  /-- The mark after which everything is an operand. -/
  | terminator
  /-- Options without a value and after them one more with what is attached to it, if anything. -/
  | options (flags : List Switch) (last : Switch) (attached : Option Text)
  | unknownOption
  /-- An option to which something is attached that it cannot take. -/
  | malformed
  deriving DecidableEq, Repr

/-- Why no invocation comes of some arguments. -/
inductive Refusal where
  | helpWanted
  | usage
  deriving DecidableEq, Repr

namespace Argument

/-- What follows the digits that a text opens with. -/
def skipDigits (t : Text) : Text := t.dropWhile fun c => (Text.decimalDigit? c).isSome

def isDigits (t : Text) : Bool := (skipDigits t).length < t.length && Text.isAtEnd (skipDigits t)

/-- A minus and a number, with a point or without. -/
def isNegativeNumber : Text → Bool
  | '-' :: rest =>
    isDigits rest || match skipDigits rest with
      | '.' :: places => isDigits places
      | _ => false
  | _ => false

/-- What begins like an option and is none: a negative number and anything with a space in it is an
operand. -/
def unrecognised (t : Text) : Argument :=
  if isNegativeNumber t ∨ .char ' ' ∈ t then .operand t else .unknownOption

/-- An option by its letter with what follows the letter. Without a value of its own it takes the
letters of further options, the last of which may take a value. -/
def ofLetters (s : Switch) : Text → Argument
  | [] => .options [] s none
  | c :: rest =>
    if s.takesValue then .options [] s (some (c :: rest))
    else match Switch.ofLetter? c with
      | none => .malformed
      | some next =>
        match ofLetters next rest with
        | .options flags last attached => .options (s :: flags) last attached
        | other => other

/-- An option with what stands after its equals sign, all of which is its value. -/
def ofAssignment (s : Switch) (value : Text) : Argument :=
  if s.takesValue then .options [] s (some value) else .malformed

/-- An option by its letter with what follows the letter, where an equals sign is passed over. -/
def ofLetter (s : Switch) : Text → Argument
  | ['='] => ofAssignment s []
  | '=' :: rest => ofLetters s rest
  | rest => ofLetters s rest

/-- An option by its long name with what stands after the equals sign, if there is one. -/
def ofLongName (s : Switch) : Option Text → Argument
  | none => .options [] s none
  | some value => ofAssignment s value

/-- An argument before the terminator. A part of a long name that several options share is refused
whatever else is asked for. -/
def ofText (t : Text) : Except Refusal Argument :=
  match t with
  | '-' :: '-' :: _ =>
    let (name, value) := Text.cut '=' t
    match Switch.all.filter fun s => name.isPrefixOf s.longName.toText with
    | [] => .ok (unrecognised t)
    | [s] => .ok (ofLongName s value)
    | _ => .error .usage
  | '-' :: c :: rest =>
    match Switch.ofLetter? c with
    | none => .ok (unrecognised t)
    | some s => .ok (ofLetter s rest)
  | _ => .ok (operand t)

def ofTexts : List Text → Except Refusal (List Argument)
  | [] => .ok []
  | t :: rest =>
    if t = terminatorText then .ok (terminator :: rest.map operand)
    else do
      let first ← ofText t
      let more ← ofTexts rest
      pure (first :: more)

end Argument

/-! ## Invocations -/

/-- The blanks that may stand around a number of workers, which are not the separators of files,
groups, records and units. -/
def isPadding (c : CodePoint) : Bool := Text.isBlank c && !Text.inRanges [(0x1C, 0x1F)] c

/-- A number of workers: decimal digits of any script, between which single underscores may stand,
after an optional sign and with padding around. -/
def workerCount? (t : Text) : Option Int :=
  match Text.trimOf isPadding t with
  | '-' :: digits => (natural? digits).map fun n => -(n : Int)
  | '+' :: digits => (natural? digits).map Int.ofNat
  | digits => (natural? digits).map Int.ofNat
where
  natural? (t : Text) : Option Nat := do
    let groups ← (Text.splitOn '_' t).mapM (Text.digits? Text.decimalDigit?)
    let numeral : Numeral := ⟨false, .decimal, groups.flatten⟩
    if [] ∈ groups ∨ numeral.isOverlong then none else some numeral.magnitude

/-- What a command line asks for; without files it is the input directory. A directory is missing if
its option was left without a value. -/
structure Invocation where
  files : List Text
  inputDir : Option Text
  outputDir : Option Text
  workers : Workers
  deriving DecidableEq, Repr

namespace Invocation

/-- What is asked for when nothing is said. -/
def default : Invocation := ⟨[], some "0-assembly".toText, some "1-hex".toText, .any⟩

/-- The invocation after an option with its value or without one. -/
def set (i : Invocation) (s : Switch) (value : Option Text) : Except Refusal Invocation :=
  match s with
  | .help => .error .helpWanted
  | .verbose => .ok i
  | .inputDir => .ok { i with inputDir := value }
  | .outputDir => .ok { i with outputDir := value }
  | .jobs =>
    match value with
    | none => .ok { i with workers := .unnumbered }
    | some value =>
      match workerCount? value with
      | some count => .ok { i with workers := .atMost count }
      | none => .error .usage

def setFlags (i : Invocation) : List Switch → Except Refusal Invocation
  | [] => .ok i
  | s :: rest => do
    let i ← i.set s none
    i.setFlags rest

/-- What is attached to an option is its value, unless it is the terminator. -/
def valueOf (attached : Text) : Option Text :=
  if attached = terminatorText then none else some attached

/-- How far the files are read: they stand together. -/
inductive FileRow where
  | notBegun
  | begun
  | closed
  deriving DecidableEq, Repr

def FileRow.afterOption : FileRow → FileRow
  | notBegun => notBegun
  | begun | closed => closed

/-- The invocation that arguments ask for, and whether all of them have a meaning. Options take
effect in their order, so that help is given if it is asked for before anything is wrong. -/
def consume (i : Invocation) (row : FileRow) (understood : Bool) :
    List Argument → Except Refusal (Invocation × Bool)
  | [] => .ok (i, understood)
  | .operand t :: rest =>
    if row = .closed then i.consume row false rest
    else consume { i with files := i.files ++ [t] } .begun understood rest
  | .terminator :: rest =>
    if row = .closed then i.consume row false rest else i.consume .begun understood rest
  | .unknownOption :: rest => i.consume row.afterOption false rest
  | .malformed :: _ => .error .usage
  | .options flags s (some attached) :: rest => do
    let i ← i.setFlags flags
    let i ← i.set s (valueOf attached)
    i.consume row.afterOption understood rest
  | .options flags s none :: rest =>
    if s.takesValue then
      match rest with
      | .operand value :: rest => do
        let i ← i.setFlags flags
        let i ← i.set s (some value)
        i.consume row.afterOption understood rest
      | _ => .error .usage
    else do
      let i ← i.setFlags flags
      let i ← i.set s none
      i.consume row.afterOption understood rest

def ofTexts (texts : List Text) : Except Refusal Invocation := do
  let arguments ← Argument.ofTexts texts
  let (i, understood) ← default.consume .notBegun true arguments
  if understood then .ok i else .error .usage

end Invocation

/-! ## Running -/

/-- What ends the program without an exit code of its own. -/
inductive Abort where
  | conversion (cause : Unconvertible)
  | workers (cause : WorkerFault)
  | unnamedDirectory
  | unusablePath (cause : PathFault)
  | tooDeep

def Abort.message : Abort → Text
  | conversion cause => cause.message
  | workers cause => cause.message.toText
  | unnamedDirectory => "expected str, bytes or os.PathLike object, not list".toText
  | unusablePath cause => cause.message
  | tooDeep => "maximum recursion depth exceeded".toText

/-- An error that the operating system does not know of ends the program. -/
def FileError.abort? : FileError → Option Abort
  | unusable cause => some (.unusablePath cause)
  | tooDeep => some .tooDeep
  | _ => none

/-- Assembles files one after another; the result says whether all of them succeeded. -/
def assembleFiles (tree : FileTree) : List Text → Run (Except Abort Bool)
  | [] => ⟨tree, [], .ok true⟩
  | file :: rest =>
    let first := assembleSingle tree (.ofText file)
    match first.result with
    | .error (.conversion cause) => ⟨first.tree, first.log, .error (.conversion cause)⟩
    | .error (.source diagnostic) =>
      let next := assembleFiles first.tree rest
      ⟨next.tree, first.log ++ ⟨.error, .commandLine, diagnostic.render⟩ :: next.log,
        next.result.map fun _ => false⟩
    | .error (.file e) =>
      match e.abort? with
      | some abort => ⟨first.tree, first.log, .error abort⟩
      | none =>
        let next := assembleFiles first.tree rest
        ⟨next.tree, first.log ++ unreadable file :: next.log, next.result.map fun _ => false⟩
    | .ok _ =>
      let next := assembleFiles first.tree rest
      ⟨next.tree, first.log ++ next.log, next.result⟩
where
  unreadable (argument : Text) : LogEntry :=
    ⟨.error, .commandLine, "Could not read ".toText ++ argument⟩

/-- The exit code of an invocation: zero if every source was assembled, else one. -/
def Invocation.run (i : Invocation) (tree : FileTree) : Run (Except Abort Nat) :=
  if i.files ≠ [] then
    let run := assembleFiles tree i.files
    ⟨run.tree, run.log, run.result.map fun succeeded => if succeeded then 0 else 1⟩
  else
    let run :=
      assembleDirectory tree (i.inputDir.map .ofText) (i.outputDir.map .ofText) i.workers
    match run.result with
    | .error (.workers e) => ⟨run.tree, run.log, .error (.workers e)⟩
    | .error .unnamed => ⟨run.tree, run.log, .error .unnamedDirectory⟩
    | .error (.file e) =>
      match e.abort? with
      | some abort => ⟨run.tree, run.log, .error abort⟩
      | none => ⟨run.tree, run.log ++ [assembleFiles.unreadable (i.inputDir.getD [])], .ok 1⟩
    | .ok verdicts =>
      ⟨run.tree, run.log, .ok (if verdicts.any (·.image.isNone) then 1 else 0)⟩

/-- The exit code of a command line; help is a success and wrong usage has a code of its own. -/
def runCommandLine (arguments : List Text) (tree : FileTree) : Run (Except Abort Nat) :=
  match Invocation.ofTexts arguments with
  | .error .helpWanted => ⟨tree, [], .ok 0⟩
  | .error .usage => ⟨tree, [], .ok 2⟩
  | .ok i => i.run tree

end MipsImage
