import MipsImage.CommandLine
import MipsImage.Proofs.EntryPoints
import MipsImage.Proofs.FileTrees
import MipsImage.Proofs.ImageNames

/-!
# Files that are assembled one by one

A file is assembled into an image next to it. All that changes is the file of the image, and nothing
changes after a failure. The source is kept if its name has an extension of sources; a source under
any other name has the name of its image already and is overwritten by it.
-/
set_option autoImplicit false

namespace MipsImage

/-! ## One file -/

/-- Where the image of a source goes. -/
def imagePath (path : Path) : Path := path.withName (outputName path.name)

/-- All ways in which the assembly of a single file can go. -/
inductive SingleRun (tree : FileTree) (path : Path) : Run (Except SingleError Path) → Prop
  | unreadable {e : FileError} (unread : readSource tree path = .error e) :
    SingleRun tree path ⟨tree, [], .error (.file e)⟩
  | conversion {lines : List SourceLine} {cause : Unconvertible}
    (read : readSource tree path = .ok lines)
    (failed : (Assembly.ofLines none lines).image = .error (.conversion cause)) :
    SingleRun tree path ⟨tree, [], .error (.conversion cause)⟩
  | faulty {lines : List SourceLine} {e : LocatedFault} (read : readSource tree path = .ok lines)
    (failed : (Assembly.ofLines none lines).image = .error (.fault e)) :
    SingleRun tree path ⟨tree, [], .error (.source (e.report (some path.name)))⟩
  | unwritable {lines : List SourceLine} {image : Bytes} {e : FileError}
    (read : readSource tree path = .ok lines)
    (assembled : (Assembly.ofLines none lines).image = .ok image)
    (unwritten : tree.write (imagePath path) image = .error e) :
    SingleRun tree path ⟨tree, [], .error (.file e)⟩
  | written {lines : List SourceLine} {image : Bytes} {after : FileTree} {log : List LogEntry}
    (read : readSource tree path = .ok lines)
    (assembled : (Assembly.ofLines none lines).image = .ok image)
    (written : tree.write (imagePath path) image = .ok after) :
    SingleRun tree path ⟨after, log, .ok (imagePath path)⟩

theorem singleRun (tree : FileTree) (path : Path) :
    SingleRun tree path (assembleSingle tree path) := by
  unfold assembleSingle
  cases read : readSource tree path with
  | error e => exact .unreadable read
  | ok lines =>
    cases assembled : (Assembly.ofLines none lines).image with
    | error failure =>
      cases failure with
      | fault e => simpa only [assembled] using .faulty read assembled
      | conversion cause => simpa only [assembled] using .conversion read assembled
    | ok image =>
      simp only [assembled]
      cases written : tree.write (imagePath path) image with
      | error e =>
        unfold imagePath at written
        simpa only [written] using .unwritable read assembled written
      | ok after =>
        unfold imagePath at written
        simpa only [written] using .written read assembled written

theorem imagePath_name (path : Path) : (imagePath path).name = outputName path.name := by
  rw [imagePath, Path.withName, Path.name, List.getLast?_concat, Option.getD_some]

theorem imagePath_dropLast (path : Path) :
    (imagePath path).steps.dropLast = path.steps.dropLast := by
  rw [imagePath, Path.withName, List.dropLast_concat]

/-- A name of which nothing is made by an image is no step upwards either. -/
theorem plain_of_outputName {name : Text} (named : outputName name ≠ [])
    (down : outputName name ≠ FileTree.parentStep) : name ≠ [] ∧ name ≠ FileTree.parentStep := by
  constructor
  · rintro rfl
    exact named rfl
  · rintro rfl
    exact down rfl

theorem exists_read_of_readSource {tree : FileTree} {path : Path} {lines : List SourceLine}
    (h : readSource tree path = .ok lines) : ∃ content, tree.read path = .ok content := by
  unfold readSource FileTree.readText at h
  cases held : tree.read path with
  | error e =>
    rw [held] at h
    cases h
  | ok content => exact ⟨content, rfl⟩

section Single
variable {tree after : FileTree} {path : Path} {content image : Bytes}

/-- The image stands in the directory of its source. -/
theorem exists_directory_of_write (held : tree.read path = .ok content)
    (written : tree.write (imagePath path) image = .ok after) :
    ∃ directory, tree.find path = .ok (directory ++ [path.name]) ∧
      after.find (imagePath path) = .ok (directory ++ [outputName path.name]) ∧
      tree.Puts (directory ++ [outputName path.name]) image after := by
  obtain ⟨directory, leads, puts⟩ := FileTree.puts_of_write written
  have found := puts.find leads
  rw [imagePath_name] at leads puts found
  obtain ⟨front, steps, walked⟩ := leads.steps
  have front_eq : front = path.steps.dropLast := by
    rw [← imagePath_dropLast, steps, List.dropLast_concat]
  have plain := plain_of_outputName leads.named leads.down
  obtain ⟨source, located, -⟩ := FileTree.read_eq_ok_iff.1 held
  have arrived := (FileTree.find_eq_ok_iff.1 located).2
  rw [FileTree.steps_eq_of_name_ne_nil plain.1, FileTree.walk_concat_eq_ok_iff plain.2]
    at arrived
  obtain ⟨parent, reached, -, -, rfl, -⟩ := arrived
  -- both paths lead through the same steps
  rw [front_eq] at walked
  have same : parent = directory := Except.ok.inj (reached.symm.trans walked)
  subst same
  exact ⟨parent, located, found, puts⟩

theorem read_image_of_write (written : tree.write path image = .ok after) :
    after.read path = .ok image := by
  obtain ⟨parent, leads, puts⟩ := FileTree.puts_of_write written
  exact FileTree.read_eq_ok_iff.2 ⟨_, puts.find leads, puts.put⟩

theorem read_source_of_write (source : IsSourceName path.name)
    (held : tree.read path = .ok content)
    (written : tree.write (imagePath path) image = .ok after) :
    after.read path = .ok content := by
  obtain ⟨directory, located, -, puts⟩ := exists_directory_of_write held written
  have other : directory ++ [path.name] ≠ directory ++ [outputName path.name] := by
    intro h
    have name : path.name = outputName path.name := by simpa using h
    exact outputName_eq_self_iff.1 name.symm source
  rw [puts.grows.read located (puts.kept _ other), held]

/-- A source without an extension of sources makes way for its image. -/
theorem imagePath_eq_self (source : ¬IsSourceName path.name) (named : path.name ≠ []) :
    imagePath path = path := by
  rw [imagePath, Path.withName, outputName_eq_self_iff.2 source,
    ← FileTree.steps_eq_of_name_ne_nil named]

end Single

/-! ## One file after another -/

/-- What ends the whole run and not only the assembly of one file. -/
def SingleError.abort? : SingleError → Option Abort
  | .conversion cause => some (.conversion cause)
  | .file e => e.abort?
  | .source _ => none

/-- What is told of a file that failed under the name of the argument. -/
def SingleError.entry (argument : Text) : SingleError → LogEntry
  | .source diagnostic => ⟨.error, .commandLine, diagnostic.render⟩
  | _ => assembleFiles.unreadable argument

section Arguments
variable {tree : FileTree} {file : Text} {e : SingleError} {abort : Abort} {target : Path}

theorem assembleFiles_cons_of_abort (rest : List Text)
    (failed : (assembleSingle tree (.ofText file)).result = .error e)
    (aborts : e.abort? = some abort) :
    assembleFiles tree (file :: rest) =
      ⟨(assembleSingle tree (.ofText file)).tree, (assembleSingle tree (.ofText file)).log,
        .error abort⟩ := by
  cases e with
  | source diagnostic => cases aborts
  | conversion cause =>
    cases aborts
    simp only [assembleFiles, failed]
  | file e =>
    have own : e.abort? = some abort := aborts
    simp only [assembleFiles, failed, own]

theorem assembleFiles_cons_of_error (rest : List Text)
    (failed : (assembleSingle tree (.ofText file)).result = .error e) (goes : e.abort? = none) :
    let next := assembleFiles (assembleSingle tree (.ofText file)).tree rest
    assembleFiles tree (file :: rest) =
      ⟨next.tree, (assembleSingle tree (.ofText file)).log ++ e.entry file :: next.log,
        next.result.map fun _ => false⟩ := by
  cases e with
  | source diagnostic => simp only [assembleFiles, failed, SingleError.entry]
  | conversion cause => cases goes
  | file e =>
    have own : e.abort? = none := goes
    simp only [assembleFiles, failed, own, SingleError.entry]

theorem assembleFiles_cons_of_ok (rest : List Text)
    (succeeded : (assembleSingle tree (.ofText file)).result = .ok target) :
    let next := assembleFiles (assembleSingle tree (.ofText file)).tree rest
    assembleFiles tree (file :: rest) =
      ⟨next.tree, (assembleSingle tree (.ofText file)).log ++ next.log, next.result⟩ := by
  simp only [assembleFiles, succeeded]

end Arguments

theorem assembleSingle_changes (tree : FileTree) (path : Path) :
    tree.Changes [imagePath path] (assembleSingle tree path).tree := by
  have run := singleRun tree path
  generalize assembleSingle tree path = result at run ⊢
  cases run with
  | unreadable | conversion | faulty | unwritable => exact .refl tree _
  | written _ _ written => exact FileTree.changes_of_write written

/-- A run over files changes nothing but the files of their images. -/
theorem assembleFiles_changes (tree : FileTree) (files : List Text) :
    tree.Changes (files.map fun file => imagePath (.ofText file))
      (assembleFiles tree files).tree := by
  induction files generalizing tree with
  | nil => exact .refl tree _
  | cons file rest ih =>
    have first := assembleSingle_changes tree (.ofText file)
    have both := first.trans (ih (assembleSingle tree (.ofText file)).tree)
    cases result : (assembleSingle tree (.ofText file)).result with
    | ok target =>
      rw [assembleFiles_cons_of_ok rest result]
      exact both
    | error e =>
      cases aborts : e.abort? with
      | none =>
        rw [assembleFiles_cons_of_error rest result aborts]
        exact both
      | some abort =>
        rw [assembleFiles_cons_of_abort rest result aborts]
        exact first.mono (List.cons_subset_cons _ (List.nil_subset _))

theorem runCommandLine_of_files {arguments : List Text} {i : Invocation}
    (understood : Invocation.ofTexts arguments = .ok i) (files : i.files ≠ []) (tree : FileTree) :
    runCommandLine arguments tree =
      ⟨(assembleFiles tree i.files).tree, (assembleFiles tree i.files).log,
        (assembleFiles tree i.files).result.map fun succeeded => if succeeded then 0 else 1⟩ := by
  rw [runCommandLine, understood]
  simp only [Invocation.run, if_pos files]

/-! ## What becomes of sources -/

theorem IsSourceName.plain_name {name : Text} (source : IsSourceName name) :
    name ≠ [] ∧ name ≠ FileTree.parentStep := by
  constructor
  · rintro rfl
    exact outputName_eq_self_iff.1 rfl source
  · rintro rfl
    exact outputName_eq_self_iff.1 rfl source

/-- Images that are written for sources with an extension overwrite no such source. -/
theorem read_source_of_changes {tree after : FileTree} {files : List Text} {path : Path}
    {content : Bytes}
    (changes : tree.Changes (files.map fun file => imagePath (.ofText file)) after)
    (sources : ∀ file ∈ files, IsSourceName (Path.ofText file).name)
    (source : IsSourceName path.name) (held : tree.read path = .ok content) :
    after.read path = .ok content := by
  obtain ⟨place, found, -⟩ := FileTree.read_eq_ok_iff.1 held
  have own := FileTree.getLast?_of_find source.plain_name.1 source.plain_name.2 found
  have same : after.node? place = tree.node? place := by
    refine (changes.only place).resolve_right ?_
    rintro ⟨target, member, _, -, last, -⟩
    obtain ⟨file, hfile, rfl⟩ := List.mem_map.1 member
    have name : path.name = outputName (Path.ofText file).name := by
      rw [← imagePath_name]
      exact Option.some.inj (own.symm.trans last)
    exact not_isSourceName_outputName (sources file hfile) (name ▸ source)
  rw [changes.grows.read found same, held]

/-- A failure changes nothing. A success changes the file of the image alone, which then holds the
image and stands next to the source; the source is kept if its name has an extension of sources, and
any other source makes way for its image. In the same way the arguments of a command line change
nothing but images, and if all of them have an extension then no source with one is changed. -/
theorem sources_kept (tree : FileTree) (path : Path) :
    let run := assembleSingle tree path
    (∀ e, run.result = .error e → run.tree = tree) ∧
    (∀ target, run.result = .ok target → target = imagePath path ∧
      ∃ source lines image directory, tree.read path = .ok source ∧
        readSource tree path = .ok lines ∧ (Assembly.ofLines none lines).image = .ok image ∧
        tree.find path = .ok (directory ++ [path.name]) ∧
        run.tree.find target = .ok (directory ++ [outputName path.name]) ∧
        tree.Puts (directory ++ [outputName path.name]) image run.tree ∧
        run.tree.read target = .ok image ∧
        (IsSourceName path.name → run.tree.read path = .ok source) ∧
        (¬IsSourceName path.name → target = path)) ∧
    ∀ arguments i, Invocation.ofTexts arguments = .ok i → i.files ≠ [] →
      let after := (runCommandLine arguments tree).tree
      tree.Changes (i.files.map fun file => imagePath (.ofText file)) after ∧
      ((∀ file ∈ i.files, IsSourceName (Path.ofText file).name) →
        ∀ (source : Path) content, IsSourceName source.name → tree.read source = .ok content →
          after.read source = .ok content) := by
  intro run
  have ways := singleRun tree path
  refine ⟨?_, ?_, ?_⟩
  · intro e failed
    change SingleRun tree path run at ways
    generalize run = result at ways failed ⊢
    cases ways with
    | unreadable | conversion | faulty | unwritable => rfl
    | written => cases failed
  · intro target succeeded
    change SingleRun tree path run at ways
    generalize run = result at ways succeeded ⊢
    cases ways with
    | unreadable | conversion | faulty | unwritable => cases succeeded
    | @written lines image after _ read assembled written =>
      cases succeeded
      obtain ⟨source, held⟩ := exists_read_of_readSource read
      obtain ⟨directory, located, found, puts⟩ := exists_directory_of_write held written
      refine ⟨rfl, source, lines, image, directory, held, read, assembled, located, found, puts,
        read_image_of_write written, fun own => read_source_of_write own held written, ?_⟩
      intro other
      refine imagePath_eq_self other fun unnamed => ?_
      obtain ⟨_, leads, -⟩ := FileTree.puts_of_write written
      rw [imagePath_name] at leads
      exact (plain_of_outputName leads.named leads.down).1 unnamed
  · intro arguments i understood files after
    have same : after = (assembleFiles tree i.files).tree :=
      congrArg Run.tree (runCommandLine_of_files understood files tree)
    have changes := assembleFiles_changes tree i.files
    rw [← same] at changes
    exact ⟨changes, fun sources source content own held =>
      read_source_of_changes changes sources own held⟩

/-- One source is assembled, the other one is not, and a file that is no source is left alone. -/
theorem sources_kept_two_files :
    let good := "sub/good.s".toText
    let bad := "bad.asm".toText
    let source := Bytes.ofString ".byte 7"
    let tree : FileTree :=
      ⟨[(["sub".toText], .directory), (["sub".toText, "good.s".toText], .file source),
        (["bad.asm".toText], .file [255]), (["notes".toText], .file [1])], [], 100⟩
    let run := assembleSingle tree (.ofText good)
    let after := (runCommandLine [good, bad] tree).tree
    (assembleSingle tree (.ofText bad)).tree = tree ∧
    run.tree.read (.ofText "sub/good.hex".toText) = .ok [7] ∧
    run.tree.read (.ofText good) = .ok source ∧
    after.read (.ofText good) = .ok source ∧ after.read (.ofText bad) = .ok [255] := by
  intro good bad source tree run after
  have extensions : IsSourceName "good.s".toText ∧ IsSourceName "bad.asm".toText := by
    rw [show "good.s".toText = "good".toText ++ ".s".toText by decide,
      show "bad.asm".toText = "bad".toText ++ ".asm".toText by decide]
    exact ⟨.plain (by decide), .plain (by decide)⟩
  have names : (Path.ofText good).name = "good.s".toText ∧
      (Path.ofText bad).name = "bad.asm".toText := by decide +kernel
  have held : tree.read (.ofText good) = .ok source ∧ tree.read (.ofText bad) = .ok [255] := by
    decide +kernel
  have results : run.result.toOption = some (.ofText "sub/good.hex".toText) ∧
      (assembleSingle tree (.ofText bad)).result.toOption = none := by decide +kernel
  have image : run.tree.read (.ofText "sub/good.hex".toText) = .ok [7] := by decide +kernel
  obtain ⟨failure, -, -⟩ := sources_kept tree (.ofText bad)
  obtain ⟨-, success, arguments⟩ := sources_kept tree (.ofText good)
  obtain ⟨hgood, hbad⟩ := results
  cases failed : (assembleSingle tree (.ofText bad)).result with
  | ok target =>
    rw [failed] at hbad
    cases hbad
  | error e =>
    cases succeeded : run.result with
    | error e =>
      rw [succeeded] at hgood
      cases hgood
    | ok target =>
      obtain ⟨-, content, _, _, _, read, -, -, -, -, -, -, kept, -⟩ := success target succeeded
      have same : content = source := Except.ok.inj (read.symm.trans held.1)
      have understood : Invocation.ofTexts [good, bad] =
          .ok { Invocation.default with files := [good, bad] } := by decide +kernel
      obtain ⟨-, all⟩ := arguments _ _ understood (List.cons_ne_nil _ _)
      have sources : ∀ file ∈ [good, bad], IsSourceName (Path.ofText file).name := by
        simp only [List.forall_mem_cons, names, extensions, true_and]
        exact nofun
      refine ⟨failure e failed, image, ?_, ?_, ?_⟩
      · rw [← same]
        exact kept (names.1 ▸ extensions.1)
      · exact all sources _ source (names.1 ▸ extensions.1) held.1
      · exact all sources _ _ (names.2 ▸ extensions.2) held.2

/-- A source without an extension of sources is lost: its image takes its place. -/
theorem source_overwritten :
    let path := Path.ofText "prog".toText
    let source := Bytes.ofString "nop"
    let tree : FileTree := ⟨[(["prog".toText], .file source)], [], 100⟩
    let run := assembleSingle tree path
    run.result.toOption = some path ∧ tree.read path = .ok source ∧
      run.tree.read path = .ok [0, 0, 0, 0] ∧ run.tree.read path ≠ tree.read path := by
  decide +kernel

end MipsImage
