import MipsImage.Report

/-!
# Batches

A batch is a list of jobs that share nothing, so each is assembled as if it were alone and the
verdicts come in the order of the jobs. Inside a batch what cannot be converted is a failure of its
job like any other, though one without a line. The number of workers is without effect on the
verdicts; it only has to be a positive number where there is anything to do.
-/
set_option autoImplicit false

namespace MipsImage

structure Job where
  file : Text
  lines : List SourceLine
  deriving DecidableEq, Repr

/-- What became of a file: its image unless it failed, and then why. -/
structure Verdict where
  file : Text
  image : Option Bytes
  errors : List (Diagnostic Text)
  warnings : List (Diagnostic Text)

namespace Verdict

/-- A file that failed for a reason without a line. -/
def failed (file : Text) (message : Text) (warnings : List (Diagnostic Text)) : Verdict :=
  ⟨file, none, [⟨some file, none, message⟩], warnings⟩

def ofAssembly (file : Text) (a : Assembly) : Verdict :=
  match a.report (some file) with
  | .ok report =>
    match report.errors with
    | [] => ⟨file, some report.image, [], report.warnings⟩
    | errors => ⟨file, none, errors, report.warnings⟩
  | .error cause =>
    failed file ("Internal error: ".toText ++ cause.message) (a.warnings.map (·.report (some file)))

end Verdict

def Job.assemble (limit : Option Int) (job : Job) : Verdict :=
  .ofAssembly job.file (Assembly.ofLines limit job.lines)

/-! ## Workers -/

/-- How many workers are wanted for a batch. -/
inductive Workers where
  /-- Nothing is said of workers. -/
  | any
  | atMost (count : Int)
  /-- A number was to be said and is missing. -/
  | unnumbered
  deriving DecidableEq, Repr

/-- Why no worker can be put to work. -/
inductive WorkerFault where
  | notPositive
  | unnumbered
  deriving DecidableEq, Repr

def WorkerFault.message : WorkerFault → String
  | notPositive => "max_workers must be greater than 0"
  | unnumbered => "'<=' not supported between instances of 'list' and 'int'"

def Workers.check : Workers → Except WorkerFault Unit
  | any => .ok ⟨⟩
  | atMost count => if count ≤ 0 then .error .notPositive else .ok ⟨⟩
  | unnumbered => .error .unnumbered

/-- The results of a task on all items. The workers are looked at only if there is an item. -/
def runAll {α β : Type} (workers : Workers) (task : α → β) (items : List α) :
    Except WorkerFault (List β) :=
  match items with
  | [] => .ok []
  | _ :: _ => workers.check.map fun _ => items.map task

def assembleAll (workers : Workers) (limit : Option Int) (jobs : List Job) :
    Except WorkerFault (List Verdict) :=
  runAll workers (Job.assemble limit) jobs

/-! ## Names of images -/

/-- The extensions of sources. -/
def sourceExtensions : List Text := [".asm".toText, ".s".toText]

/-- A name with a source extension gets the extension of images instead. A closing line feed is no
part of the extension, and any other name is left as it is. -/
def outputName (name : Text) : Text :=
  let (stem, closing) :=
    match Text.beforeEnd? [.char '\n'] name with
    | some stem => (stem, [.char '\n'])
    | none => (name, [])
  match sourceExtensions.findSome? (Text.beforeEnd? · stem) with
  | some stem => stem ++ ".hex".toText ++ closing
  | none => name

end MipsImage
