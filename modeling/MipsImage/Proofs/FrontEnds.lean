import MipsImage.Proofs.Delivery
import MipsImage.Proofs.OverlongNumerals
import MipsImage.Proofs.PhaseOrder
import MipsImage.Proofs.RefusedPaths
import MipsImage.Proofs.SingleFiles

/-!
# Answers in every case

An assembler answers every source with an image or with one error, and the command line ends with
an exit code, whatever the sources hold. What keeps them from it are conversions that cannot be
made, of overlong numerals and of lone surrogates, except in a directory; paths that cannot be used
and directories that cannot be made; directories left without a name; and workers that cannot work.
-/
set_option autoImplicit false

namespace MipsImage

/-! ## Reports -/

namespace Assembler

variable {a : Assembler} {source file : Text}

end Assembler

section Paths
variable {tree : FileTree} {path : Path} {cause : PathFault} {e : FileError}

theorem readSource_of_fault (tree : FileTree) (fault : FileTree.pathFault? path = some cause) :
    readSource tree path = .error (.unusable cause) := by
  rw [readSource, FileTree.readText, FileTree.read_of_fault tree fault]
  rfl

theorem abort?_of_readSource (h : readSource tree path = .error e) :
    e.abort? = (FileTree.pathFault? path).map .unusablePath := by
  unfold readSource FileTree.readText at h
  cases read : tree.read path with
  | error other =>
    rw [read] at h
    cases h
    exact FileTree.abort?_of_read read
  | ok bytes =>
    rw [read] at h
    cases fault : FileTree.pathFault? path with
    | some cause => cases read.symm.trans (FileTree.read_of_fault tree fault)
    | none =>
      dsimp only [bind, Except.bind] at h
      split at h <;> cases h
      rfl

theorem pathFault?_of_readSource {lines : List SourceLine} (h : readSource tree path = .ok lines) :
    FileTree.pathFault? path = none := by
  cases fault : FileTree.pathFault? path with
  | none => rfl
  | some cause => cases h.symm.trans (readSource_of_fault tree fault)

/-- The image of a path that can be used has a path that can be used. -/
theorem pathFault?_imagePath (usable : FileTree.pathFault? path = none) :
    FileTree.pathFault? (imagePath path) = none := by
  rw [FileTree.pathFault?_eq_none_iff] at usable ⊢
  rintro ⟨step, member, c, inside, forbidden⟩
  rcases List.mem_append.1 member with front | last
  · exact usable ⟨step, List.dropLast_subset _ front, c, inside, forbidden⟩
  · rw [List.mem_singleton.1 last] at inside
    rcases mem_outputName inside with own | extension
    · refine usable ⟨path.name, ?_, c, own, forbidden⟩
      rw [FileTree.steps_eq_of_name_ne_nil (List.ne_nil_of_mem own)]
      exact List.mem_append_right _ (List.mem_singleton_self _)
    · have plain : ∀ c ∈ ".hex".toText, FileTree.isForbidden c = false := by decide
      rw [plain c extension] at forbidden
      cases forbidden

end Paths

/-! ## File arguments -/

/-- An argument whose turn it is, and the files that it finds. -/
structure Turn where
  file : Text
  before : FileTree

namespace Turn

def run (turn : Turn) : Run (Except SingleError Path) :=
  assembleSingle turn.before (.ofText turn.file)

/-- What the turn ends the whole run with, if it does. -/
def abort? (turn : Turn) : Option Abort :=
  match turn.run.result with
  | .ok _ => none
  | .error e => e.abort?

def succeeds (turn : Turn) : Bool := turn.run.result.toBool

def told (turn : Turn) : List LogEntry :=
  turn.run.log ++
    match turn.run.result with
    | .ok _ => []
    | .error e => [e.entry turn.file]

/-- A turn that leaves no answer: the path cannot be used, or something in the source cannot be
converted. -/
inductive Aborts (turn : Turn) : Abort → Prop
  | unusable {cause : PathFault} (fault : FileTree.pathFault? (.ofText turn.file) = some cause) :
    Aborts turn (.unusablePath cause)
  | conversion {lines : List SourceLine} {cause : Unconvertible}
    (read : readSource turn.before (.ofText turn.file) = .ok lines)
    (failed : (Assembly.ofLines none lines).image = .error (.conversion cause)) :
    Aborts turn (.conversion cause)

theorem abort?_eq_some_iff {turn : Turn} {abort : Abort} :
    turn.abort? = some abort ↔ turn.Aborts abort := by
  have ways := singleRun turn.before (.ofText turn.file)
  unfold abort?
  change SingleRun _ _ turn.run at ways
  generalize turn.run = result at ways
  constructor
  · intro h
    cases ways with
    | unreadable unread =>
      have own := (abort?_of_readSource unread).symm.trans h
      obtain ⟨cause, fault, rfl⟩ := Option.map_eq_some_iff.1 own
      exact .unusable fault
    | conversion read failed =>
      cases h
      exact .conversion read failed
    | faulty => cases h
    | unwritable read _ unwritten =>
      -- the image goes where the source could be read
      have own := (FileTree.abort?_of_write unwritten).symm.trans h
      rw [pathFault?_imagePath (pathFault?_of_readSource read)] at own
      cases own
    | written => cases h
  · intro h
    cases h with
    | unusable fault =>
      have unread := readSource_of_fault turn.before fault
      cases ways with
      | unreadable other =>
        cases unread.symm.trans other
        rfl
      | conversion read | faulty read | unwritable read | written read =>
        cases unread.symm.trans read
    | conversion read failed =>
      cases ways with
      | unreadable unread => cases read.symm.trans unread
      | conversion other failed₂ =>
        cases read.symm.trans other
        cases failed.symm.trans failed₂
        rfl
      | faulty other failed₂ =>
        cases read.symm.trans other
        cases failed.symm.trans failed₂
      | unwritable other assembled | written other assembled =>
        cases read.symm.trans other
        cases failed.symm.trans assembled

theorem abort?_of_succeeds {turn : Turn} (h : turn.succeeds = true) : turn.abort? = none := by
  unfold succeeds at h
  unfold abort?
  cases result : turn.run.result with
  | ok target => rfl
  | error e =>
    rw [result] at h
    cases h

theorem succeeds_iff {turn : Turn} : turn.succeeds = true ↔
    ∃ lines image after, readSource turn.before (.ofText turn.file) = .ok lines ∧
      (Assembly.ofLines none lines).image = .ok image ∧
      turn.before.write (imagePath (.ofText turn.file)) image = .ok after := by
  have ways := singleRun turn.before (.ofText turn.file)
  unfold succeeds
  change SingleRun _ _ turn.run at ways
  generalize turn.run = result at ways
  cases ways with
  | unreadable unread =>
    refine iff_of_false Bool.false_ne_true ?_
    rintro ⟨_, _, _, read, -⟩
    cases unread.symm.trans read
  | conversion read failed | faulty read failed =>
    refine iff_of_false Bool.false_ne_true ?_
    rintro ⟨_, _, _, other, assembled, -⟩
    cases read.symm.trans other
    cases failed.symm.trans assembled
  | unwritable read assembled unwritten =>
    refine iff_of_false Bool.false_ne_true ?_
    rintro ⟨_, _, _, other, image, written⟩
    cases read.symm.trans other
    cases assembled.symm.trans image
    cases unwritten.symm.trans written
  | written read assembled written =>
    exact iff_of_true rfl ⟨_, _, _, read, assembled, written⟩

end Turn

/-- The arguments with the files as they are when it is their turn. -/
def turns (tree : FileTree) : List Text → List Turn
  | [] => []
  | file :: rest => ⟨file, tree⟩ :: turns (assembleSingle tree (.ofText file)).tree rest

/-- The files when all arguments have had their turn. -/
def afterTurns (tree : FileTree) (files : List Text) : FileTree :=
  files.foldl (fun tree file => (assembleSingle tree (.ofText file)).tree) tree

section Files
variable {tree : FileTree} {file : Text} {files : List Text} {abort : Abort}

theorem result_assembleFiles_cons (rest : List Text)
    (aborts : Turn.abort? ⟨file, tree⟩ = some abort) :
    (assembleFiles tree (file :: rest)).result = .error abort := by
  unfold Turn.abort? Turn.run at aborts
  cases result : (assembleSingle tree (.ofText file)).result with
  | ok target =>
    rw [result] at aborts
    cases aborts
  | error e =>
    rw [result] at aborts
    rw [assembleFiles_cons_of_abort rest result aborts]

/-- A turn adds what it tells and whether it succeeds to the turns after it. -/
theorem assembleFiles_cons (rest : List Text) (goes : Turn.abort? ⟨file, tree⟩ = none) :
    let turn : Turn := ⟨file, tree⟩
    let next := assembleFiles turn.run.tree rest
    assembleFiles tree (file :: rest) =
      ⟨next.tree, turn.told ++ next.log, next.result.map (turn.succeeds && ·)⟩ := by
  intro turn next
  unfold Turn.abort? Turn.run at goes
  unfold turn Turn.told Turn.succeeds Turn.run
  dsimp only
  cases result : (assembleSingle tree (.ofText file)).result with
  | ok target =>
    rw [assembleFiles_cons_of_ok rest result, List.append_nil]
    change Run.mk next.tree _ next.result = Run.mk next.tree _ (next.result.map fun b => b)
    cases next.result <;> rfl
  | error e =>
    rw [result] at goes
    rw [assembleFiles_cons_of_error rest result goes, List.append_assoc]
    rfl

/-- A run over files ends with the first turn that aborts. -/
theorem result_assembleFiles (first : (turns tree files).findSome? Turn.abort? = some abort) :
    (assembleFiles tree files).result = .error abort := by
  induction files generalizing tree with
  | nil => cases first
  | cons file rest ih =>
    rw [turns, List.findSome?_cons] at first
    cases aborts : Turn.abort? ⟨file, tree⟩ with
    | some other =>
      rw [aborts] at first
      cases first
      exact result_assembleFiles_cons rest aborts
    | none =>
      rw [aborts] at first
      have later : (assembleFiles (Turn.run ⟨file, tree⟩).tree rest).result = _ := ih first
      rw [assembleFiles_cons rest aborts]
      dsimp only
      rw [later]
      rfl

/-- If no turn aborts then every argument has one. -/
theorem assembleFiles_eq (goes : ∀ turn ∈ turns tree files, turn.abort? = none) :
    assembleFiles tree files =
      ⟨afterTurns tree files, (turns tree files).flatMap Turn.told,
        .ok ((turns tree files).all Turn.succeeds)⟩ := by
  induction files generalizing tree with
  | nil => rfl
  | cons file rest ih =>
    rw [turns, List.forall_mem_cons] at goes
    have later : assembleFiles (Turn.run ⟨file, tree⟩).tree rest = _ := ih goes.2
    rw [assembleFiles_cons rest goes.1, later]
    rfl

end Files

/-! ## Directories -/

section Directory
variable {tree after : FileTree} {directory : Path} {name : Text} {verdicts : List Verdict}

theorem image_ofAssembly {file : Text} {a : Assembly} :
    (Verdict.ofAssembly file a).image = a.image.toOption := by
  unfold Verdict.ofAssembly Assembly.report
  cases a.image with
  | ok image => rfl
  | error failure => cases failure <;> rfl

theorem image_assembleSource_iff : (assembleSource tree directory name).2.image.isSome = true ↔
    ∃ lines image, readSource tree (directory.append ⟨false, [name]⟩) = .ok lines ∧
      (Assembly.ofLines none lines).image = .ok image := by
  unfold assembleSource readJob
  cases readSource tree (directory.append ⟨false, [name]⟩) with
  | error e => simp [Except.map, Verdict.failed]
  | ok lines =>
    have image : (Assembly.ofLines none lines).image.toOption.isSome = true ↔
        ∃ image, (Assembly.ofLines none lines).image = .ok image := by
      cases (Assembly.ofLines none lines).image with
      | error failure => simp [Except.toOption]
      | ok image => exact iff_of_true rfl ⟨image, rfl⟩
    simp only [Except.map, image_ofAssembly, image, Except.ok.injEq, exists_and_left,
      exists_eq_left']

/-- A source that could be read has nothing in its name that no path can hold. -/
theorem allowed_of_image (success : (assembleSource tree directory name).2.image.isSome = true) :
    ∀ c ∈ name, FileTree.isForbidden c = false := by
  obtain ⟨lines, -, read, -⟩ := image_assembleSource_iff.1 success
  have usable := FileTree.pathFault?_eq_none_iff.1 (pathFault?_of_readSource read)
  intro c member
  cases forbidden : FileTree.isForbidden c with
  | false => rfl
  | true =>
    exact absurd ⟨name, List.mem_append_right _ (List.mem_singleton_self name), c, member,
      forbidden⟩ usable

theorem sourceNames_of_fault {cause : PathFault} (tree : FileTree)
    (fault : FileTree.pathFault? directory = some cause) :
    sourceNames tree directory = .error (.unusable cause) := by
  rw [sourceNames, FileTree.fileNames_of_fault tree fault]
  rfl

theorem abort?_of_sourceNames {e : FileError} (h : sourceNames tree directory = .error e) :
    e.abort? = (FileTree.pathFault? directory).map .unusablePath := by
  unfold sourceNames at h
  cases listed : tree.fileNames directory with
  | error other =>
    rw [listed] at h
    cases h
    exact FileTree.abort?_of_fileNames listed
  | ok names =>
    rw [listed] at h
    cases h

theorem abort?_of_writeImages {e : FileError} (usable : FileTree.pathFault? directory = none)
    (names : ∀ verdict ∈ verdicts, verdict.image.isSome = true →
      ∀ c ∈ verdict.file, FileTree.isForbidden c = false)
    (h : (writeImages tree directory verdicts).2 = .error e) : e.abort? = none := by
  induction verdicts generalizing tree with
  | nil => cases h
  | cons verdict rest ih =>
    rw [List.forall_mem_cons] at names
    rw [writeImages] at h
    cases success : verdict.image with
    | none =>
      rw [success] at h
      exact ih names.2 h
    | some image =>
      have allowed := names.1 (by rw [success]; rfl)
      have target : FileTree.pathFault?
          (directory.append (.ofText (outputName verdict.file))) = none := by
        rw [FileTree.pathFault?_eq_none_iff] at usable ⊢
        refine fun forbidden => forbidden.of_append.elim usable fun own => ?_
        obtain ⟨c, member, forbidden⟩ := Path.hasForbidden_ofText_iff.1 own
        have plain : ∀ c ∈ ".hex".toText, FileTree.isForbidden c = false := by decide
        rw [(mem_outputName member).elim (allowed c) (plain c)] at forbidden
        cases forbidden
      rw [success] at h
      dsimp only at h
      cases written : tree.write (directory.append (.ofText (outputName verdict.file))) image with
      | error other =>
        rw [written] at h
        cases h
        rw [FileTree.abort?_of_write written, target]
        rfl
      | ok middle =>
        rw [written] at h
        dsimp only at h
        cases later : (writeImages middle directory rest).2 with
        | error other =>
          rw [later] at h
          cases h
          exact ih names.2 later
        | ok paths =>
          rw [later] at h
          cases h

section Deliver
variable {input : Path} {names : List Text} {cause : PathFault} {e : FileError}

theorem allowed_of_verdicts : ∀ verdict ∈ names.map fun name => (assembleSource tree input name).2,
    verdict.image.isSome = true → ∀ c ∈ verdict.file, FileTree.isForbidden c = false := by
  intro verdict member success
  obtain ⟨name, -, rfl⟩ := List.mem_map.1 member
  rw [file_assembleSource]
  exact allowed_of_image success

theorem deliver_of_fault (fault : FileTree.pathFault? directory = some cause) :
    (deliver tree directory verdicts).2 = .error (.unusable cause) := by
  rw [deliver, FileTree.makeDirectories_of_fault tree fault]

/-- Once the directory is made nothing ends the program any more. -/
theorem abort?_of_delivered {opened : FileTree} (made : tree.makeDirectories directory = .ok opened)
    (h : (writeImages opened directory
      (names.map fun name => (assembleSource tree input name).2)).2 = .error e) :
    e.abort? = none := by
  refine abort?_of_writeImages ?_ allowed_of_verdicts h
  cases fault : FileTree.pathFault? directory with
  | none => rfl
  | some cause => cases made.symm.trans (FileTree.makeDirectories_of_fault tree fault)

theorem deliver_eq_tooDeep_iff :
    (deliver tree directory (names.map fun name => (assembleSource tree input name).2)).2 =
      .error .tooDeep ↔ tree.TooDeep directory := by
  unfold deliver
  rw [← FileTree.makeDirectories_eq_tooDeep_iff]
  cases made : tree.makeDirectories directory with
  | error other => simp
  | ok opened =>
    refine iff_of_false (fun h => ?_) nofun
    cases abort?_of_delivered made h

theorem abort?_of_deliver (other : e ≠ .tooDeep)
    (h : (deliver tree directory (names.map fun name => (assembleSource tree input name).2)).2 =
      .error e) : e.abort? = (FileTree.pathFault? directory).map .unusablePath := by
  unfold deliver at h
  cases made : tree.makeDirectories directory with
  | error cause =>
    rw [made] at h
    cases h
    exact FileTree.abort?_of_makeDirectories made other
  | ok opened =>
    rw [made] at h
    rw [abort?_of_delivered made h]
    cases fault : FileTree.pathFault? directory with
    | none => rfl
    | some cause => cases made.symm.trans (FileTree.makeDirectories_of_fault tree fault)

end Deliver

end Directory

namespace Invocation

variable {i : Invocation} {tree : FileTree} {abort : Abort}

/-- The sources of a directory are known and there is someone to assemble them. -/
structure Works (i : Invocation) (tree : FileTree) (input : Text) (names : List Text) : Prop where
  files : i.files = []
  named : i.inputDir = some input
  listed : sourceNames tree (.ofText input) = .ok names
  workers : names = [] ∨ i.workers.check = .ok ⟨⟩

/-- All that keeps an invocation from ending with an exit code. -/
inductive Interrupts (i : Invocation) (tree : FileTree) : Abort → Prop
  | turn {before after : List Turn} {turn : Turn} {abort : Abort}
    (order : turns tree i.files = before ++ turn :: after)
    (goes : ∀ other ∈ before, ∀ cause, ¬other.Aborts cause) (aborts : turn.Aborts abort) :
    Interrupts i tree abort
  | unnamedInput (files : i.files = []) (unnamed : i.inputDir = none) :
    Interrupts i tree .unnamedDirectory
  | unusableInput {input : Text} {cause : PathFault} (files : i.files = [])
    (named : i.inputDir = some input)
    (fault : FileTree.pathFault? (.ofText input) = some cause) :
    Interrupts i tree (.unusablePath cause)
  | workers {input : Text} {names : List Text} {cause : WorkerFault} (files : i.files = [])
    (named : i.inputDir = some input) (listed : sourceNames tree (.ofText input) = .ok names)
    (some : names ≠ []) (refused : i.workers.check = .error cause) :
    Interrupts i tree (.workers cause)
  | unnamedOutput {input : Text} {names : List Text} (works : i.Works tree input names)
    (unnamed : i.outputDir = none) : Interrupts i tree .unnamedDirectory
  | unusableOutput {input output : Text} {names : List Text} {cause : PathFault}
    (works : i.Works tree input names) (named : i.outputDir = some output)
    (fault : FileTree.pathFault? (.ofText output) = some cause) :
    Interrupts i tree (.unusablePath cause)
  | deepOutput {input output : Text} {names : List Text} (works : i.Works tree input names)
    (named : i.outputDir = some output) (deep : tree.TooDeep (.ofText output)) :
    Interrupts i tree .tooDeep

/-- Everything that was asked for is read, assembled and written. -/
inductive Succeeds (i : Invocation) (tree : FileTree) : Prop
  | files (some : i.files ≠ [])
    (all : ∀ turn ∈ turns tree i.files, ∃ lines image after,
      readSource turn.before (.ofText turn.file) = .ok lines ∧
        (Assembly.ofLines none lines).image = .ok image ∧
        turn.before.write (imagePath (.ofText turn.file)) image = .ok after)
  | directory {input output : Text} {names : List Text} {paths : List Path}
    (works : i.Works tree input names)
    (all : ∀ name ∈ names, ∃ lines image,
      readSource tree ((Path.ofText input).append ⟨false, [name]⟩) = .ok lines ∧
        (Assembly.ofLines none lines).image = .ok image)
    (named : i.outputDir = Option.some output)
    (delivered : (deliver tree (.ofText output)
      (names.map fun name => (assembleSource tree (.ofText input) name).2)).2 = .ok paths)

theorem Works.results {input : Text} {names : List Text} (works : i.Works tree input names) :
    assembleSources tree (i.inputDir.map .ofText) i.workers =
      .ok (names.map (assembleSource tree (.ofText input))) := by
  rw [works.named, Option.map_some, assembleSources]
  simp only [works.listed]
  cases names with
  | nil => rfl
  | cons name rest =>
    rw [runAll, works.workers.resolve_left (List.cons_ne_nil _ _)]
    rfl

theorem Works.run_unnamed {input : Text} {names : List Text} (works : i.Works tree input names)
    (unnamed : i.outputDir = none) : (i.run tree).result = .error .unnamedDirectory := by
  unfold Invocation.run assembleDirectory
  rw [if_neg (not_not.2 works.files)]
  simp only [works.results, unnamed, Option.map_none]

theorem Works.run_eq {input output : Text} {names : List Text} (works : i.Works tree input names)
    (named : i.outputDir = some output) :
    (i.run tree).result =
      let verdicts := names.map fun name => (assembleSource tree (.ofText input) name).2
      match (deliver tree (.ofText output) verdicts).2 with
      | .error e =>
        match e.abort? with
        | some abort => .error abort
        | none => .ok 1
      | .ok _ => .ok (if verdicts.any (·.image.isNone) then 1 else 0) := by
  have verdicts : (names.map (assembleSource tree (.ofText input))).map Prod.snd =
      names.map fun name => (assembleSource tree (.ofText input) name).2 := List.map_map ..
  unfold Invocation.run assembleDirectory
  rw [if_neg (not_not.2 works.files)]
  simp only [works.results, named, Option.map_some, verdicts]
  rcases deliver tree (.ofText output)
    (names.map fun name => (assembleSource tree (.ofText input) name).2) with ⟨after, written⟩
  cases written with
  | ok paths => rfl
  | error e => cases aborts : e.abort? <;> simp only [aborts]

theorem run_of_files (asked : i.files ≠ []) (tree : FileTree) :
    i.run tree = ⟨(assembleFiles tree i.files).tree, (assembleFiles tree i.files).log,
      (assembleFiles tree i.files).result.map fun succeeded => if succeeded then 0 else 1⟩ := by
  unfold Invocation.run
  exact if_pos asked

theorem Interrupts.result (h : i.Interrupts tree abort) :
    (i.run tree).result = .error abort := by
  cases h with
  | @turn before after turn abort order goes aborts =>
    have asked : i.files ≠ [] := by
      intro files
      rw [files, turns] at order
      exact absurd order.symm (List.append_ne_nil_of_right_ne_nil _ (List.cons_ne_nil _ _))
    have first : (turns tree i.files).findSome? Turn.abort? = some abort := by
      refine List.findSome?_eq_some_iff.2 ⟨before, turn, after, order,
        Turn.abort?_eq_some_iff.2 aborts, fun other member => ?_⟩
      refine Option.eq_none_iff_forall_ne_some.2 fun cause h => ?_
      exact goes other member cause (Turn.abort?_eq_some_iff.1 h)
    rw [run_of_files asked, result_assembleFiles first]
    rfl
  | unnamedInput files unnamed =>
    unfold Invocation.run
    rw [if_neg (not_not.2 files), unnamed]
    rfl
  | unusableInput files named fault =>
    have unlisted := sourceNames_of_fault tree fault
    unfold Invocation.run assembleDirectory assembleSources
    rw [if_neg (not_not.2 files), named]
    simp only [Option.map_some, unlisted]
    rfl
  | @workers _ names _ files named listed present refused =>
    obtain ⟨name, rest, rfl⟩ := List.exists_cons_of_ne_nil present
    unfold Invocation.run assembleDirectory assembleSources
    rw [if_neg (not_not.2 files), named]
    simp only [Option.map_some, listed, runAll, refused]
    rfl
  | unnamedOutput works unnamed => exact works.run_unnamed unnamed
  | unusableOutput works named fault =>
    rw [works.run_eq named]
    dsimp only
    rw [deliver_of_fault fault]
    rfl
  | deepOutput works named deep =>
    rw [works.run_eq named]
    dsimp only
    rw [deliver_eq_tooDeep_iff.2 deep]
    rfl

theorem Succeeds.result (h : i.Succeeds tree) : (i.run tree).result = .ok 0 := by
  cases h with
  | files asked all =>
    have succeeds : ∀ turn ∈ turns tree i.files, turn.succeeds = true := fun turn member =>
      Turn.succeeds_iff.2 (all turn member)
    have goes : ∀ turn ∈ turns tree i.files, turn.abort? = none := fun turn member =>
      Turn.abort?_of_succeeds (succeeds turn member)
    rw [run_of_files asked, assembleFiles_eq goes, List.all_eq_true.2 succeeds]
    rfl
  | directory works all named delivered =>
    rw [works.run_eq named]
    dsimp only
    rw [delivered]
    dsimp only
    rw [if_neg]
    rw [List.any_map, List.any_eq_true]
    rintro ⟨name, member, failed⟩
    have success := image_assembleSource_iff.2 (all name member)
    rw [Option.isSome_iff_ne_none] at success
    exact success (Option.isNone_iff_eq_none.1 failed)

theorem Works.run_cases {input : Text} {names : List Text} (works : i.Works tree input names) :
    (∃ abort, i.Interrupts tree abort) ∨ i.Succeeds tree ∨ (i.run tree).result = .ok 1 := by
  cases named : i.outputDir with
  | none => exact .inl ⟨_, .unnamedOutput works named⟩
  | some output =>
    have run := works.run_eq named
    dsimp only at run
    cases delivered : (deliver tree (.ofText output)
        (names.map fun name => (assembleSource tree (.ofText input) name).2)).2 with
    | error e =>
      by_cases deep : e = .tooDeep
      · rw [deep, deliver_eq_tooDeep_iff] at delivered
        exact .inl ⟨_, .deepOutput works named delivered⟩
      · cases fault : FileTree.pathFault? (.ofText output) with
        | some cause => exact .inl ⟨_, .unusableOutput works named fault⟩
        | none =>
          have goes := abort?_of_deliver deep delivered
          rw [fault, Option.map_none] at goes
          rw [delivered] at run
          simp only [goes] at run
          exact .inr (.inr run)
    | ok paths =>
      rw [delivered] at run
      by_cases all : ∀ name ∈ names,
          (assembleSource tree (.ofText input) name).2.image.isSome = true
      · exact .inr (.inl (.directory works
          (fun name member => image_assembleSource_iff.1 (all name member)) named delivered))
      · push Not at all
        obtain ⟨name, member, failed⟩ := all
        refine .inr (.inr (run.trans (congrArg Except.ok (if_pos ?_))))
        refine List.any_eq_true.2 ⟨_, List.mem_map_of_mem member, ?_⟩
        exact Option.isNone_iff_eq_none.2 (Option.not_isSome_iff_eq_none.1 failed)

/-- An invocation is interrupted, or succeeds, or ends with the exit code of a failure. -/
theorem run_cases (i : Invocation) (tree : FileTree) :
    (∃ abort, i.Interrupts tree abort) ∨ i.Succeeds tree ∨ (i.run tree).result = .ok 1 := by
  by_cases files : i.files = []
  · cases named : i.inputDir with
    | none => exact .inl ⟨_, .unnamedInput files named⟩
    | some input =>
      cases listed : sourceNames tree (.ofText input) with
      | error e =>
        cases fault : FileTree.pathFault? (.ofText input) with
        | some cause => exact .inl ⟨_, .unusableInput files named fault⟩
        | none =>
          have goes := abort?_of_sourceNames listed
          rw [fault, Option.map_none] at goes
          refine .inr (.inr ?_)
          unfold Invocation.run assembleDirectory assembleSources
          rw [if_neg (not_not.2 files), named]
          simp only [Option.map_some, listed, goes]
      | ok names =>
        by_cases idle : names ≠ [] ∧ ∃ cause, i.workers.check = .error cause
        · obtain ⟨present, cause, refused⟩ := idle
          exact .inl ⟨_, .workers files named listed present refused⟩
        · have allowed : names = [] ∨ i.workers.check = .ok ⟨⟩ := by
            rw [not_and_or, not_not] at idle
            refine idle.imp_right fun h => ?_
            cases checked : i.workers.check with
            | error cause => exact absurd ⟨cause, checked⟩ h
            | ok => rfl
          exact (Works.mk files named listed allowed).run_cases
  · cases first : (turns tree i.files).findSome? Turn.abort? with
    | some abort =>
      obtain ⟨before, turn, after, order, aborts, goes⟩ := List.findSome?_eq_some_iff.1 first
      refine .inl ⟨abort, .turn order (fun other member cause h => ?_)
        (Turn.abort?_eq_some_iff.1 aborts)⟩
      cases (goes other member).symm.trans (Turn.abort?_eq_some_iff.2 h)
    | none =>
      have run := congrArg Run.result (run_of_files files tree)
      rw [assembleFiles_eq (List.findSome?_eq_none_iff.1 first)] at run
      cases all : (turns tree i.files).all Turn.succeeds with
      | true =>
        exact .inr (.inl (.files files fun turn member =>
          Turn.succeeds_iff.1 (List.all_eq_true.1 all turn member)))
      | false =>
        rw [all] at run
        exact .inr (.inr run)

end Invocation

/-! ## Both front ends -/

end MipsImage
