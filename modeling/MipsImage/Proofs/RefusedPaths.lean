import MipsImage.CommandLine
import MipsImage.Proofs.FileTrees
import MipsImage.Proofs.Tokens

/-!
# Paths that end a program

A path with a null character or with a surrogate that stands for no byte is an error of the caller,
which ends a program, and not one of the files. It is found before any step is taken, and it is said
of no other path. Besides that a program ends if too many directories are missing one above another.
-/
set_option autoImplicit false

namespace MipsImage

/-! ## What no path can hold -/

namespace FileTree

/-- The null character and the surrogates that stand for no bytes. -/
def isForbidden : CodePoint → Bool
  | .char c => c = '\x00'
  | .surrogate place => !isEscapedByte place

theorem unstorableFrom?_eq_none_iff {t : Text} {position : Nat} :
    unstorableFrom? position t = none ↔
      ∀ place, .surrogate place ∈ t → isEscapedByte place = true := by
  induction t generalizing position with
  | nil => simp [unstorableFrom?]
  | cons c rest ih =>
    cases c with
    | char c => simp [unstorableFrom?, ih]
    | surrogate place =>
      rw [unstorableFrom?]
      split
      · rename_i stored
        simp [ih, stored]
      · rename_i lone
        exact iff_of_false (by simp) fun all => lone (all place (List.mem_cons_self ..))

end FileTree

namespace Path

theorem mem_text_iff {path : Path} {c : CodePoint} (slash : c ≠ .char '/') (dot : c ≠ .char '.') :
    c ∈ path.text ↔ ∃ step ∈ path.steps, c ∈ step := by
  have joined : c ∈ Text.join [.char '/'] path.steps ↔ ∃ step ∈ path.steps, c ∈ step :=
    Text.mem_join_iff fun member => slash (List.mem_singleton.1 member)
  unfold text
  split
  · rw [List.mem_cons, joined, or_iff_right slash]
  · split
    · rename_i empty
      simp [empty, dot]
    · exact joined

/-- Some step holds what no path can hold. -/
def HasForbidden (path : Path) : Prop :=
  ∃ step ∈ path.steps, ∃ c ∈ step, FileTree.isForbidden c = true

theorem hasForbidden_ofText_iff {t : Text} :
    (ofText t).HasForbidden ↔ ∃ c ∈ t, FileTree.isForbidden c = true := by
  constructor
  · rintro ⟨step, member, c, own, forbidden⟩
    have slash : c ≠ .char '/' := by
      rintro rfl
      cases forbidden
    exact ⟨c, (Text.exists_mem_splitOn_iff slash).1 ⟨step, List.mem_of_mem_filter member, own⟩,
      forbidden⟩
  · rintro ⟨c, member, forbidden⟩
    have other : c ≠ .char '/' ∧ c ≠ .char '.' := by
      constructor <;> rintro rfl <;> cases forbidden
    obtain ⟨step, part, own⟩ := (Text.exists_mem_splitOn_iff other.1).2 member
    refine ⟨step, List.mem_filter.2 ⟨part, decide_eq_true ⟨?_, ?_⟩⟩, c, own, forbidden⟩
    · rintro rfl
      cases own
    · rintro rfl
      exact other.2 (List.mem_singleton.1 own)

theorem HasForbidden.of_append {first second : Path} (h : (first.append second).HasForbidden) :
    first.HasForbidden ∨ second.HasForbidden := by
  unfold append at h
  split at h
  · exact .inr h
  · obtain ⟨step, member, forbidden⟩ := h
    exact (List.mem_append.1 member).imp (fun own => ⟨step, own, forbidden⟩) fun own =>
      ⟨step, own, forbidden⟩

end Path

namespace FileTree

variable {tree : FileTree} {path : Path} {content : Bytes} {cause : PathFault} {e : FileError}

/-- There is a reason to refuse a path exactly if it holds what no path can hold. -/
theorem pathFault?_eq_none_iff : pathFault? path = none ↔ ¬path.HasForbidden := by
  have surrogates : unstorableFrom? 0 path.text = none ↔
      ∀ step ∈ path.steps, ∀ place, .surrogate place ∈ step → isEscapedByte place = true := by
    have within (place : Fin 0x800) : .surrogate place ∈ path.text ↔
        ∃ step ∈ path.steps, .surrogate place ∈ step := Path.mem_text_iff (by simp) (by simp)
    simp only [unstorableFrom?_eq_none_iff, within]
    exact ⟨fun all step member place own => all place ⟨step, member, own⟩,
      fun all place ⟨step, member, own⟩ => all step member place own⟩
  have nulls : path.steps.any (·.contains (.char '\x00')) = false ↔
      ∀ step ∈ path.steps, .char '\x00' ∉ step := by
    simp
  have parts : pathFault? path = none ↔ unstorableFrom? 0 path.text = none ∧
      path.steps.any (·.contains (.char '\x00')) = false := by
    unfold pathFault?
    cases unstorableFrom? 0 path.text with
    | some run => exact iff_of_false nofun nofun
    | none => simp
  rw [parts, surrogates, nulls]
  constructor
  · rintro ⟨stored, plain⟩ ⟨step, member, c, own, forbidden⟩
    cases c with
    | char c =>
      rw [isForbidden, decide_eq_true_eq] at forbidden
      exact plain step member (forbidden ▸ own)
    | surrogate place => simp [isForbidden, stored step member place own] at forbidden
  · intro free
    refine ⟨fun step member place own => ?_,
      fun step member own => free ⟨step, member, _, own, rfl⟩⟩
    by_contra lone
    exact free ⟨step, member, _, own, by simpa [isForbidden] using lone⟩

theorem checkPath_of_fault (fault : pathFault? path = some cause) :
    checkPath path = .error (.unusable cause) := by
  rw [checkPath, fault]

theorem abort?_of_checkPath (h : checkPath path = .error e) :
    e.abort? = (pathFault? path).map .unusablePath := by
  unfold checkPath at h
  split at h
  · rename_i fault
    cases h
    rw [fault]
    rfl
  · rename_i usable
    rw [usable]
    split at h
    · cases h
      rfl
    · cases h

theorem pathFault?_of_checkPath (h : checkPath path = .ok ()) : pathFault? path = none := by
  cases fault : pathFault? path with
  | none => rfl
  | some cause => cases (checkPath_of_fault fault).symm.trans h

/-! ## Following, reading, writing -/

theorem abort?_of_walk {place : Place} {steps : List Text} (h : tree.walk place steps = .error e) :
    e.abort? = none := by
  induction steps generalizing place with
  | nil => cases h
  | cons step rest ih =>
    rw [walk] at h
    split at h
    · split at h
      · exact ih h
      · split at h
        · cases h
          rfl
        · split at h
          · exact ih h
          · cases h
            rfl
    · cases h
      rfl
    · cases h
      rfl

theorem find_of_fault (tree : FileTree) (fault : pathFault? path = some cause) :
    tree.find path = .error (.unusable cause) := by
  rw [find, checkPath_of_fault fault]
  rfl

/-- What ends a program when a path is followed is said of the path alone. -/
theorem abort?_of_find (h : tree.find path = .error e) :
    e.abort? = (pathFault? path).map .unusablePath := by
  unfold find at h
  cases checked : checkPath path with
  | error other =>
    rw [checked] at h
    cases h
    exact abort?_of_checkPath checked
  | ok =>
    rw [checked] at h
    rw [abort?_of_walk h, pathFault?_of_checkPath checked]
    rfl

theorem pathFault?_of_find {place : Place} (h : tree.find path = .ok place) :
    pathFault? path = none :=
  pathFault?_of_checkPath (find_eq_ok_iff.1 h).1

theorem read_of_fault (tree : FileTree) (fault : pathFault? path = some cause) :
    tree.read path = .error (.unusable cause) := by
  rw [read, find_of_fault tree fault]
  rfl

theorem abort?_of_read (h : tree.read path = .error e) :
    e.abort? = (pathFault? path).map .unusablePath := by
  unfold read at h
  cases found : tree.find path with
  | error other =>
    rw [found] at h
    cases h
    exact abort?_of_find found
  | ok place =>
    rw [found] at h
    rw [pathFault?_of_find found]
    dsimp only [bind, Except.bind] at h
    split at h <;> cases h <;> rfl

theorem fileNames_of_fault (tree : FileTree) (fault : pathFault? path = some cause) :
    tree.fileNames path = .error (.unusable cause) := by
  rw [fileNames, find_of_fault tree fault]
  rfl

theorem abort?_of_fileNames (h : tree.fileNames path = .error e) :
    e.abort? = (pathFault? path).map .unusablePath := by
  unfold fileNames at h
  cases found : tree.find path with
  | error other =>
    rw [found] at h
    cases h
    exact abort?_of_find found
  | ok place =>
    rw [found] at h
    rw [pathFault?_of_find found]
    dsimp only [bind, Except.bind] at h
    split at h <;> cases h <;> rfl

/-- A path that can be used leads to a directory that can be used. -/
theorem pathFault?_dropLast (usable : pathFault? path = none) :
    pathFault? { path with steps := path.steps.dropLast } = none := by
  rw [pathFault?_eq_none_iff] at usable ⊢
  rintro ⟨step, member, forbidden⟩
  exact usable ⟨step, List.dropLast_subset _ member, forbidden⟩

theorem abort?_of_write (h : tree.write path content = .error e) :
    e.abort? = (pathFault? path).map .unusablePath := by
  unfold write at h
  cases checked : checkPath path with
  | error other =>
    rw [checked] at h
    cases h
    exact abort?_of_checkPath checked
  | ok =>
    have usable := pathFault?_of_checkPath checked
    rw [usable]
    simp only [checked, bind, Except.bind] at h
    split at h
    · cases h
      rfl
    · cases found : tree.find { path with steps := path.steps.dropLast } with
      | error other =>
        simp only [found] at h
        cases h
        rw [abort?_of_find found, pathFault?_dropLast usable]
      | ok place =>
        simp only [found] at h
        split at h
        · split at h
          · cases h
            rfl
          · split at h
            · cases h
              rfl
            · cases h
        · cases h
          rfl

/-! ## Making directories -/

/-- On the way down these steps, the first directory that is missing has so many steps behind it. -/
inductive FirstMissing (tree : FileTree) : Place → List Text → Nat → Prop
  | here {place : Place} {step : Text} {rest : List Text} (down : step ≠ parentStep)
    (short : byteCount step ≤ maxNameBytes) (missing : tree.node? (place ++ [step]) = none) :
    FirstMissing tree place (step :: rest) rest.length
  | up {place : Place} {rest : List Text} {count : Nat}
    (later : FirstMissing tree place.dropLast rest count) :
    FirstMissing tree place (parentStep :: rest) count
  | down {place : Place} {step : Text} {rest : List Text} {count : Nat} (down : step ≠ parentStep)
    (short : byteCount step ≤ maxNameBytes)
    (directory : tree.node? (place ++ [step]) = some .directory)
    (later : FirstMissing tree (place ++ [step]) rest count) :
    FirstMissing tree place (step :: rest) count

/-- A few steps are never too many, however much is missing. -/
theorem makeSteps_ne_tooDeep {place : Place} {steps : List Text}
    (few : steps.length ≤ tree.nesting) : tree.makeSteps place steps ≠ .error .tooDeep := by
  induction steps generalizing tree place with
  | nil => simp [makeSteps]
  | cons step rest ih =>
    rw [List.length_cons] at few
    have fewer := Nat.le_of_succ_le few
    rw [makeSteps]
    split
    · exact ih fewer
    · split
      · simp
      · dsimp only
        split
        · exact ih fewer
        · split <;> simp
        · rw [if_neg (Nat.not_le.2 few)]
          exact ih fewer

theorem makeSteps_eq_tooDeep_iff {place : Place} {steps : List Text} :
    tree.makeSteps place steps = .error .tooDeep ↔
      ∃ count, tree.FirstMissing place steps count ∧ tree.nesting ≤ count := by
  induction steps generalizing place with
  | nil =>
    refine iff_of_false (by simp [makeSteps]) ?_
    rintro ⟨count, missing, -⟩
    cases missing
  | cons step rest ih =>
    rw [makeSteps]
    split
    · rename_i up
      subst up
      rw [ih]
      refine exists_congr fun count => and_congr_left fun _ => ⟨.up, fun missing => ?_⟩
      cases missing with
      | here down | down down => exact absurd rfl down
      | up later => exact later
    · rename_i down
      split
      · rename_i long
        refine iff_of_false (by simp) ?_
        rintro ⟨count, missing, -⟩
        cases missing with
        | here _ short | down _ short => exact absurd long (Nat.not_lt.2 short)
        | up later => exact down rfl
      · rename_i short
        rw [Nat.not_lt] at short
        dsimp only
        split
        · rename_i directory
          rw [ih]
          refine exists_congr fun count =>
            and_congr_left fun _ => ⟨.down down short directory, fun missing => ?_⟩
          cases missing with
          | here _ _ missing => cases missing.symm.trans directory
          | up later => exact absurd rfl down
          | down _ _ _ later => exact later
        · rename_i file
          have left : (Except.error (if rest = [] then .alreadyExists else .notADirectory) :
              Except FileError FileTree) ≠ .error .tooDeep := by
            split <;> simp
          refine iff_of_false left ?_
          rintro ⟨count, missing, -⟩
          cases missing with
          | here _ _ missing => cases missing.symm.trans file
          | up later => exact down rfl
          | down _ _ directory => cases directory.symm.trans file
        · rename_i missing
          by_cases deep : tree.nesting ≤ rest.length
          · rw [if_pos deep]
            exact iff_of_true rfl ⟨_, .here down short missing, deep⟩
          · rw [if_neg deep]
            have few : rest.length ≤ (tree.insert (place ++ [step]) .directory).nesting :=
              Nat.le_of_not_le deep
            refine iff_of_false (makeSteps_ne_tooDeep few) ?_
            rintro ⟨count, first, many⟩
            cases first with
            | here => exact deep many
            | up later => exact down rfl
            | down _ _ directory => cases missing.symm.trans directory

theorem abort?_of_makeSteps {place : Place} {steps : List Text}
    (h : tree.makeSteps place steps = .error e) (other : e ≠ .tooDeep) : e.abort? = none := by
  induction steps generalizing tree place with
  | nil => cases h
  | cons step rest ih =>
    rw [makeSteps] at h
    split at h
    · exact ih h
    · split at h
      · cases h
        rfl
      · dsimp only at h
        split at h
        · exact ih h
        · cases h
          split <;> rfl
        · split at h
          · cases h
            exact absurd rfl other
          · exact ih h

/-- More directories are missing on the way to a path than can be made at once. -/
def TooDeep (tree : FileTree) (path : Path) : Prop :=
  checkPath path = .ok () ∧
    ∃ count, tree.FirstMissing (tree.start path) path.steps count ∧ tree.nesting ≤ count

theorem makeDirectories_of_fault (tree : FileTree) (fault : pathFault? path = some cause) :
    tree.makeDirectories path = .error (.unusable cause) := by
  rw [makeDirectories, checkPath_of_fault fault]
  rfl

theorem makeDirectories_eq_tooDeep_iff :
    tree.makeDirectories path = .error .tooDeep ↔ tree.TooDeep path := by
  unfold makeDirectories TooDeep
  cases checked : checkPath path with
  | error other =>
    refine iff_of_false (fun h => ?_) fun h => by cases h.1
    have none := abort?_of_checkPath checked
    cases h
    cases fault : pathFault? path <;> rw [fault] at none <;> cases none
  | ok => exact makeSteps_eq_tooDeep_iff.trans (and_iff_right rfl).symm

theorem abort?_of_makeDirectories (h : tree.makeDirectories path = .error e)
    (other : e ≠ .tooDeep) : e.abort? = (pathFault? path).map .unusablePath := by
  unfold makeDirectories at h
  cases checked : checkPath path with
  | error cause =>
    rw [checked] at h
    cases h
    exact abort?_of_checkPath checked
  | ok =>
    rw [checked] at h
    rw [abort?_of_makeSteps h other, pathFault?_of_checkPath checked]
    rfl

end FileTree

end MipsImage
