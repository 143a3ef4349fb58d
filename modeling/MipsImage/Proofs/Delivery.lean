import Mathlib.Data.List.Nodup
import MipsImage.Proofs.EntryPoints
import MipsImage.Proofs.FileTrees
import MipsImage.Proofs.ImageNames
import MipsImage.Proofs.Tokens

/-!
# Images of a directory

The images of a directory are written one after another, each under the name of its source with the
extension of images. Nothing but these files changes. Of several successes with one name the last
one stays, so every image is kept exactly if no two successes share a name and differ in the image.
-/
set_option autoImplicit false

namespace MipsImage

/-! ## Names in a tree -/

/-- No name in a tree holds a slash, which would divide it. -/
def FileTree.Undivided (tree : FileTree) : Prop :=
  ∀ entry ∈ tree.nodes, ∀ name ∈ entry.1, .char '/' ∉ name

theorem Path.ofText_single {name : Text} (undivided : .char '/' ∉ name) (named : name ≠ [])
    (elsewhere : name ≠ [.char '.']) : Path.ofText name = ⟨false, [name]⟩ := by
  have relative : [.char '/'].isPrefixOf name = false := by
    rw [Bool.eq_false_iff]
    intro h
    obtain ⟨rest, rfl⟩ := List.isPrefixOf_iff_prefix.1 h
    exact undivided (List.mem_cons_self ..)
  unfold Path.ofText
  rw [relative, Text.splitOn_of_not_mem undivided, List.filter_cons_of_pos (by simp [*])]
  rfl

section Sources
variable {tree : FileTree} {directory : Path} {names : List Text} {name : Text}

theorem FileTree.Undivided.fileNames (undivided : tree.Undivided)
    (h : tree.fileNames directory = .ok names) (member : name ∈ names) : .char '/' ∉ name := by
  unfold FileTree.fileNames at h
  cases found : tree.find directory with
  | error e => simp [found, bind, Except.bind] at h
  | ok place =>
    simp only [found, bind, Except.bind] at h
    split at h
    · cases h
      obtain ⟨⟨other, node⟩, entry, hname⟩ := List.mem_filterMap.1 (List.mem_mergeSort.1 member)
      cases node with
      | directory => cases hname
      | file content =>
        simp only at hname
        split at hname
        · exact undivided _ entry name (List.mem_of_getLast? hname)
        · cases hname
    · cases h
    · cases h

/-- The name of a source is a stem with one of the extensions. -/
theorem exists_stem_of_sourceNames (h : sourceNames tree directory = .ok names)
    (member : name ∈ names) :
    ∃ stem extension, extension ∈ sourceExtensions ∧ name = stem ++ extension := by
  unfold sourceNames at h
  cases found : tree.fileNames directory with
  | error e =>
    rw [found] at h
    cases h
  | ok all =>
    rw [found] at h
    cases h
    obtain ⟨extension, known, suffix⟩ := List.any_eq_true.1 (List.mem_filter.1 member).2
    obtain ⟨stem, rfl⟩ := List.isSuffixOf_iff_suffix.1 suffix
    exact ⟨stem, extension, known, rfl⟩

/-- The image of a source is a file in the output directory itself. -/
theorem ofText_outputName (undivided : tree.Undivided)
    (h : sourceNames tree directory = .ok names) (member : name ∈ names) :
    Path.ofText (outputName name) = ⟨false, [outputName name]⟩ := by
  have whole : .char '/' ∉ name := by
    unfold sourceNames at h
    cases found : tree.fileNames directory with
    | error e =>
      rw [found] at h
      cases h
    | ok all =>
      rw [found] at h
      cases h
      exact undivided.fileNames found (List.mem_of_mem_filter member)
  obtain ⟨stem, extension, known, rfl⟩ := exists_stem_of_sourceNames h member
  have long : 4 ≤ (outputName (stem ++ extension)).length := by
    rw [outputName_plain known, List.length_append]
    exact Nat.le_add_left ..
  refine Path.ofText_single ?_ ?_ ?_
  · intro slash
    exact (mem_outputName slash).elim whole (by decide)
  · intro empty
    rw [empty] at long
    exact absurd long (by decide)
  · intro dot
    rw [dot] at long
    exact absurd long (by decide)

end Sources

/-! ## One write after another -/

/-- The path of an image in the output directory. -/
def Verdict.path (directory : Path) (verdict : Verdict) : Path :=
  directory.append (.ofText (outputName verdict.file))

/-- The image that stays under a name: that of the last success with this name. -/
def lastImage? (verdicts : List Verdict) (name : Text) : Option Bytes :=
  match verdicts with
  | [] => none
  | verdict :: rest =>
    (lastImage? rest name).or (if outputName verdict.file = name then verdict.image else none)

theorem exists_of_lastImage? {verdicts : List Verdict} {name : Text} {image : Bytes}
    (h : lastImage? verdicts name = some image) :
    ∃ verdict ∈ verdicts, verdict.image = some image ∧ outputName verdict.file = name := by
  induction verdicts with
  | nil => cases h
  | cons verdict rest ih =>
    rw [lastImage?, Option.or_eq_some_iff] at h
    rcases h with later | ⟨-, own⟩
    · obtain ⟨other, member, found⟩ := ih later
      exact ⟨other, List.mem_cons_of_mem verdict member, found⟩
    · split at own
      · rename_i same
        exact ⟨verdict, List.mem_cons_self .., own, same⟩
      · cases own

theorem lastImage?_isSome {verdicts : List Verdict} {verdict : Verdict} {image : Bytes}
    (member : verdict ∈ verdicts) (success : verdict.image = some image) :
    ∃ last, lastImage? verdicts (outputName verdict.file) = some last := by
  induction verdicts with
  | nil => cases member
  | cons first rest ih =>
    rw [lastImage?]
    rcases List.mem_cons.1 member with rfl | later
    · rw [if_pos rfl, success]
      cases lastImage? rest (outputName verdict.file) with
      | none => exact ⟨image, rfl⟩
      | some last => exact ⟨last, rfl⟩
    · obtain ⟨last, found⟩ := ih later
      exact ⟨last, by rw [found, Option.some_or]⟩

section Writes
variable {tree after : FileTree} {directory : Path} {verdicts : List Verdict} {paths : List Path}

theorem writeImages_cons_eq_ok {verdict : Verdict}
    (h : writeImages tree directory (verdict :: verdicts) = (after, .ok paths)) :
    (verdict.image = none ∧ writeImages tree directory verdicts = (after, .ok paths)) ∨
    ∃ image middle more, verdict.image = some image ∧
      tree.write (verdict.path directory) image = .ok middle ∧
      writeImages middle directory verdicts = (after, .ok more) ∧
      paths = verdict.path directory :: more := by
  rw [writeImages] at h
  cases success : verdict.image with
  | none =>
    simp only [success] at h
    exact .inl ⟨rfl, h⟩
  | some image =>
    simp only [success] at h
    cases written : tree.write (verdict.path directory) image with
    | error e =>
      unfold Verdict.path at written
      simp [written] at h
    | ok middle =>
      have kept := written
      unfold Verdict.path at written
      simp only [written] at h
      rcases hrest : writeImages middle directory verdicts with ⟨last, more⟩
      simp only [hrest, Prod.mk.injEq] at h
      obtain ⟨rfl, hpaths⟩ := h
      cases more with
      | error e => cases hpaths
      | ok more =>
        cases hpaths
        exact .inr ⟨image, middle, more, rfl, kept, hrest, rfl⟩

/-- Writing images changes nothing but the files of the successes. -/
theorem writeImages_changes (h : writeImages tree directory verdicts = (after, .ok paths)) :
    tree.Changes paths after ∧
      ∀ path ∈ paths, ∃ verdict ∈ verdicts, verdict.image ≠ none ∧
        path = verdict.path directory := by
  induction verdicts generalizing tree paths with
  | nil =>
    cases h
    exact ⟨.refl after _, nofun⟩
  | cons verdict rest ih =>
    rcases writeImages_cons_eq_ok h with
      ⟨-, hrest⟩ | ⟨image, middle, more, success, written, hrest, rfl⟩
    · obtain ⟨changes, all⟩ := ih hrest
      refine ⟨changes, fun path member => ?_⟩
      obtain ⟨other, hother, found⟩ := all path member
      exact ⟨other, List.mem_cons_of_mem verdict hother, found⟩
    · obtain ⟨changes, all⟩ := ih hrest
      refine ⟨(FileTree.changes_of_write written).trans changes, fun path member => ?_⟩
      rcases List.mem_cons.1 member with rfl | later
      · exact ⟨verdict, List.mem_cons_self .., by simp [success], rfl⟩
      · obtain ⟨other, hother, found⟩ := all path later
        exact ⟨other, List.mem_cons_of_mem verdict hother, found⟩

/-- An image is a file in the directory and not somewhere else. -/
def Verdict.Direct (verdict : Verdict) : Prop :=
  Path.ofText (outputName verdict.file) = ⟨false, [outputName verdict.file]⟩

theorem Verdict.Direct.path_eq {verdict : Verdict} (direct : verdict.Direct) (directory : Path) :
    verdict.path directory =
      ⟨directory.absolute, directory.steps ++ [outputName verdict.file]⟩ := by
  rw [Verdict.path, direct, Path.append]
  rfl

theorem Verdict.Direct.path_name {verdict : Verdict} (direct : verdict.Direct) (directory : Path) :
    (verdict.path directory).name = outputName verdict.file := by
  rw [direct.path_eq, Path.name, List.getLast?_concat, Option.getD_some]

/-- What was written last under a name can be read. -/
theorem read_of_writeImages (direct : ∀ verdict ∈ verdicts, verdict.Direct) {name : Text}
    {image : Bytes} (h : writeImages tree directory verdicts = (after, .ok paths))
    (last : lastImage? verdicts name = some image) :
    after.read ⟨directory.absolute, directory.steps ++ [name]⟩ = .ok image := by
  induction verdicts generalizing tree paths with
  | nil => cases last
  | cons verdict rest ih =>
    have later : ∀ other ∈ rest, other.Direct := fun other member =>
      direct other (List.mem_cons_of_mem verdict member)
    rw [lastImage?, Option.or_eq_some_iff] at last
    rcases writeImages_cons_eq_ok h with
      ⟨failure, hrest⟩ | ⟨own, middle, more, success, written, hrest, rfl⟩
    · rcases last with last | ⟨-, last⟩
      · exact ih later hrest last
      · rw [failure, ite_self] at last
        cases last
    · rcases last with last | ⟨none, last⟩
      · exact ih later hrest last
      · split at last
        · rename_i hname
          rw [success] at last
          cases last
          subst hname
          have first := direct verdict (List.mem_cons_self ..)
          rw [← first.path_eq]
          -- no later success has this name, so the file stays as it was written
          obtain ⟨parent, leads, puts⟩ := FileTree.puts_of_write written
          obtain ⟨changes, all⟩ := writeImages_changes hrest
          have found := puts.find leads
          have held := FileTree.read_eq_ok_iff.2 ⟨_, found, puts.put⟩
          rw [changes.grows.read found, held]
          refine (changes.only _).resolve_right ?_
          rintro ⟨path, member, _, -, ends, -⟩
          obtain ⟨other, hother, succeeded, rfl⟩ := all path member
          rw [List.getLast?_concat, first.path_name, (later other hother).path_name] at ends
          obtain ⟨image, himage⟩ := Option.ne_none_iff_exists'.1 succeeded
          obtain ⟨_, taken⟩ := lastImage?_isSome hother himage
          rw [← Option.some.inj ends, none] at taken
          cases taken
        · cases last

end Writes

/-! ## The whole directory -/

theorem file_assembleSource (tree : FileTree) (directory : Path) (name : Text) :
    (assembleSource tree directory name).2.file = name := by
  unfold assembleSource
  split
  · rename_i job _
    exact Service.file_assemble none ⟨name, job.lines⟩
  · rfl

theorem eq_map_of_runAll {α β : Type} {workers : Workers} {task : α → β} {items : List α}
    {results : List β} (h : runAll workers task items = .ok results) :
    results = items.map task := by
  cases items with
  | nil =>
    cases h
    rfl
  | cons item rest =>
    rw [runAll] at h
    cases checked : workers.check with
    | error e =>
      rw [checked] at h
      cases h
    | ok =>
      rw [checked] at h
      cases h
      rfl

section Directory
variable {tree after : FileTree} {input output : Path} {workers : Workers}
  {verdicts : List Verdict}

/-- The verdicts on a directory are those on its sources, and then their images are written. -/
theorem of_assembleDirectory
    (h : (assembleDirectory tree (some input) (some output) workers).result = .ok verdicts) :
    ∃ names opened paths, sourceNames tree input = .ok names ∧
      verdicts = names.map (fun name => (assembleSource tree input name).2) ∧
      tree.makeDirectories output = .ok opened ∧
      writeImages opened output verdicts =
        ((assembleDirectory tree (some input) (some output) workers).tree, .ok paths) := by
  unfold assembleDirectory assembleSources at h ⊢
  cases listed : sourceNames tree input with
  | error e => simp [listed] at h
  | ok names =>
    cases ran : runAll workers (assembleSource tree input) names with
    | error e => simp [listed, ran, Except.mapError] at h
    | ok results =>
      simp only [listed, ran, Except.mapError] at h ⊢
      have all : results.map Prod.snd =
          names.map fun name => (assembleSource tree input name).2 := by
        rw [eq_map_of_runAll ran]
        exact List.map_map ..
      rw [all] at h ⊢
      unfold deliver at h ⊢
      cases made : tree.makeDirectories output with
      | error e => simp [made] at h
      | ok opened =>
        simp only [made] at h ⊢
        rcases hwritten : writeImages opened output
          (names.map fun name => (assembleSource tree input name).2) with ⟨last, paths⟩
        simp only [hwritten] at h ⊢
        cases paths with
        | error e => cases h
        | ok paths =>
          cases h
          exact ⟨names, opened, paths, rfl, rfl, rfl, hwritten⟩

/-- Two sources with one name for their images have one stem, and are otherwise the same. -/
theorem eq_or_exists_stem {first second : Text} {names : List Text}
    (listed : sourceNames tree input = .ok names) (hfirst : first ∈ names)
    (hsecond : second ∈ names) (same : outputName first = outputName second) :
    first = second ∨ ∃ stem, stem ++ ".asm".toText ∈ names ∧ stem ++ ".s".toText ∈ names := by
  obtain ⟨stem, extension, known, rfl⟩ := exists_stem_of_sourceNames listed hfirst
  obtain ⟨stem₂, extension₂, known₂, rfl⟩ := exists_stem_of_sourceNames listed hsecond
  rw [outputName_eq_iff known known₂] at same
  subst same
  simp only [sourceExtensions, List.mem_cons, List.not_mem_nil, or_false] at known known₂
  rcases known with rfl | rfl <;> rcases known₂ with rfl | rfl
  · exact .inl rfl
  · exact .inr ⟨stem, hfirst, hsecond⟩
  · exact .inr ⟨stem, hsecond, hfirst⟩
  · exact .inl rfl

/-- If every path holds the last image of its name, then every image is there exactly if no other
image has its name. -/
theorem delivered_iff
    (last : ∀ verdict ∈ verdicts, ∀ image,
      lastImage? verdicts (outputName verdict.file) = some image →
        after.read (verdict.path output) = .ok image) :
    (∀ verdict ∈ verdicts, ∀ image, verdict.image = some image →
        after.read (verdict.path output) = .ok image) ↔
      ∀ first ∈ verdicts, ∀ second ∈ verdicts, ∀ image other,
        first.image = some image → second.image = some other →
          outputName first.file = outputName second.file → image = other := by
  constructor
  · intro all first hfirst second hsecond image other hi ho same
    have path : first.path output = second.path output := by
      rw [Verdict.path, Verdict.path, same]
    have read := all first hfirst image hi
    rw [path] at read
    exact Except.ok.inj (read.symm.trans (all second hsecond other ho))
  · intro agree verdict h image success
    obtain ⟨kept, found⟩ := lastImage?_isSome h success
    obtain ⟨other, hother, himage, name⟩ := exists_of_lastImage? found
    rw [agree verdict h other hother image kept success himage name.symm]
    exact last verdict h kept found

/-- Images have the names of others only for sources that share their stem. -/
theorem images_agree_of_apart {names : List Text} (listed : sourceNames tree input = .ok names)
    (apart : ∀ stem, stem ++ ".asm".toText ∈ names → stem ++ ".s".toText ∉ names) :
    ∀ first ∈ names.map (fun name => (assembleSource tree input name).2),
      ∀ second ∈ names.map (fun name => (assembleSource tree input name).2), ∀ image other,
        first.image = some image → second.image = some other →
          outputName first.file = outputName second.file → image = other := by
  intro first hfirst second hsecond image other hi ho same
  obtain ⟨name, hname, rfl⟩ := List.mem_map.1 hfirst
  obtain ⟨name₂, hname₂, rfl⟩ := List.mem_map.1 hsecond
  rw [file_assembleSource, file_assembleSource] at same
  rcases eq_or_exists_stem listed hname hname₂ same with rfl | ⟨stem, asm, s⟩
  · exact Option.some.inj (hi.symm.trans ho)
  · exact absurd s (apart stem asm)

end Directory

/-- When a directory has been assembled, every success has a file with the image of the last success
of this name. So all images are there exactly if no two successes share a name and differ in the
image, and certainly if no two sources have the same name up to the extension. Nothing is different
but directories that were made and files of successes. -/
theorem images_delivered (tree : FileTree) (undivided : tree.Undivided) (input output : Path)
    (workers : Workers) (verdicts : List Verdict)
    (returned :
      (assembleDirectory tree (some input) (some output) workers).result = .ok verdicts) :
    let after := (assembleDirectory tree (some input) (some output) workers).tree
    let names := verdicts.map Verdict.file
    let AllDelivered := ∀ verdict ∈ verdicts, ∀ image, verdict.image = some image →
      after.read (verdict.path output) = .ok image
    sourceNames tree input = .ok names ∧
    (∀ verdict ∈ verdicts, verdict.image ≠ none → ∃ image,
      lastImage? verdicts (outputName verdict.file) = some image ∧
        after.read (verdict.path output) = .ok image) ∧
    (AllDelivered ↔ ∀ first ∈ verdicts, ∀ second ∈ verdicts, ∀ image other,
      first.image = some image → second.image = some other →
        outputName first.file = outputName second.file → image = other) ∧
    ((∀ stem, stem ++ ".asm".toText ∈ names → stem ++ ".s".toText ∉ names) → AllDelivered) ∧
    ∀ place, after.node? place = tree.node? place ∨
      (tree.node? place = none ∧ after.node? place = some .directory) ∨
      ∃ verdict ∈ verdicts, verdict.image ≠ none ∧
        after.find (verdict.path output) = .ok place ∧
        ∃ content, after.node? place = some (.file content) := by
  intro after names AllDelivered
  obtain ⟨sources, opened, paths, listed, hverdicts, made, written⟩ :=
    of_assembleDirectory returned
  have written : writeImages opened output verdicts = (after, .ok paths) := written
  have hnames : names = sources := by
    have own : (Verdict.file ∘ fun name => (assembleSource tree input name).2) = id :=
      funext fun name => file_assembleSource tree input name
    rw [show names = verdicts.map Verdict.file from rfl, hverdicts, List.map_map, own, List.map_id]
  have member : ∀ verdict ∈ verdicts, verdict.file ∈ sources := fun verdict h =>
    hnames ▸ List.mem_map_of_mem h
  have direct : ∀ verdict ∈ verdicts, verdict.Direct := fun verdict h =>
    ofText_outputName undivided listed (member verdict h)
  have last : ∀ verdict ∈ verdicts, ∀ image,
      lastImage? verdicts (outputName verdict.file) = some image →
        after.read (verdict.path output) = .ok image := by
    intro verdict h image found
    rw [(direct verdict h).path_eq]
    exact read_of_writeImages direct written found
  have exact : AllDelivered ↔ _ := delivered_iff last
  refine ⟨hnames ▸ listed, ?_, exact, ?_, ?_⟩
  · intro verdict h success
    obtain ⟨image, himage⟩ := Option.ne_none_iff_exists'.1 success
    obtain ⟨kept, found⟩ := lastImage?_isSome h himage
    exact ⟨kept, found, last verdict h kept found⟩
  · intro apart
    rw [hnames] at apart
    refine exact.2 ?_
    rw [hverdicts]
    exact images_agree_of_apart listed apart
  · intro place
    obtain ⟨changes, all⟩ := writeImages_changes written
    have opens := FileTree.opens_of_makeDirectories made
    rcases changes.only place with same | ⟨path, hpath, content, found, -, held⟩
    · rw [same]
      exact (opens.nodes place).imp_right .inl
    · obtain ⟨verdict, h, success, rfl⟩ := all path hpath
      exact .inr (.inr ⟨verdict, h, success, found, content, held⟩)

/-- Two sources succeed and one fails; the output directory has to be made. -/
theorem images_delivered_three_sources :
    let input := Path.ofText "in".toText
    let output := Path.ofText "out/new".toText
    let tree : FileTree :=
      ⟨[(["in".toText], .directory),
        (["in".toText, "a.asm".toText], .file (.ofString ".byte 1")),
        (["in".toText, "b.s".toText], .file (.ofString ".byte 2")),
        (["in".toText, "c.s".toText], .file (.ofString "j nowhere"))], [], 100⟩
    let run := assembleDirectory tree (some input) (some output) (.atMost 2)
    tree.Undivided ∧ ∃ verdicts, run.result = .ok verdicts ∧
      verdicts.map (fun verdict => (verdict.file, verdict.image)) =
        [("a.asm".toText, some [1]), ("b.s".toText, some [2]), ("c.s".toText, none)] ∧
      ∀ verdict ∈ verdicts, ∀ image, verdict.image = some image →
        run.tree.read (verdict.path output) = .ok image := by
  intro input output tree run
  have undivided : ∀ entry ∈ tree.nodes, ∀ name ∈ entry.1, .char '/' ∉ name := by decide +kernel
  let names := ["a.asm".toText, "b.s".toText, "c.s".toText]
  have sorted : names.mergeSort Text.atMost = names := List.mergeSort_of_pairwise (by decide)
  have listed : sourceNames tree input = .ok names := by
    have all : tree.fileNames input = .ok (names.mergeSort Text.atMost) := rfl
    rw [sourceNames, all, sorted]
    decide
  have known : run.result.toOption.map
      (·.map fun verdict => (verdict.file, verdict.image)) =
      some [("a.asm".toText, some [1]), ("b.s".toText, some [2]), ("c.s".toText, none)] := by
    change (assembleDirectory tree (some input) (some output) (.atMost 2)).result.toOption.map _ = _
    unfold assembleDirectory assembleSources
    simp only [listed]
    decide +kernel
  cases returned : run.result with
  | error e =>
    rw [returned] at known
    cases known
  | ok verdicts =>
    rw [returned] at known
    have content := Option.some.inj known
    obtain ⟨-, -, -, delivered, -⟩ :=
      images_delivered tree undivided input output (.atMost 2) verdicts returned
    have files : verdicts.map Verdict.file = names := by
      have firsts := congrArg (List.map Prod.fst) content
      rwa [List.map_map] at firsts
    refine ⟨undivided, verdicts, rfl, content, delivered fun stem asm s => ?_⟩
    rw [files] at asm s
    have distinct : (names.map outputName).Nodup := by decide
    have same : outputName (stem ++ ".asm".toText) = outputName (stem ++ ".s".toText) :=
      (outputName_eq_iff (by decide) (by decide)).2 rfl
    have equal := List.inj_on_of_nodup_map distinct asm s same
    exact absurd (List.append_cancel_left equal) (by decide)

/-- Of two sources that differ in the extension alone the first one loses its image. -/
theorem image_overwritten :
    let input := Path.ofText "in".toText
    let output := Path.ofText "out".toText
    let tree : FileTree :=
      ⟨[(["in".toText], .directory),
        (["in".toText, "a.asm".toText], .file (.ofString ".byte 1")),
        (["in".toText, "a.s".toText], .file (.ofString ".byte 2"))], [], 100⟩
    let run := assembleDirectory tree (some input) (some output) .any
    run.result.toOption.map (·.map fun verdict => (verdict.file, verdict.image)) =
      some [("a.asm".toText, some [1]), ("a.s".toText, some [2])] ∧
    outputName "a.asm".toText = outputName "a.s".toText ∧
    run.tree.read (output.append (.ofText (outputName "a.asm".toText))) = .ok [2] := by
  intro input output tree run
  let names := ["a.asm".toText, "a.s".toText]
  have sorted : names.mergeSort Text.atMost = names := List.mergeSort_of_pairwise (by decide)
  have listed : sourceNames tree input = .ok names := by
    have all : tree.fileNames input = .ok (names.mergeSort Text.atMost) := rfl
    rw [sourceNames, all, sorted]
    decide
  have run_eq : run = assembleDirectory tree (some input) (some output) .any := rfl
  rw [run_eq]
  unfold assembleDirectory assembleSources
  simp only [listed]
  decide +kernel

end MipsImage
