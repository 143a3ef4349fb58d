import Mathlib.Data.List.Basic
import MipsImage.FileTree

/-!
# What changes in a file tree

Writing a file changes one place, which was no directory before, and making directories fills places
at which nothing stood. So no path to a file or a directory is ever cut off: what could be found
before is found at the same place afterwards.
-/
set_option autoImplicit false

namespace MipsImage.FileTree

variable {tree middle after : FileTree} {place : Place} {path : Path} {content : Bytes}

/-! ## Nodes -/

theorem lookup_filter_ne {nodes : List (Place × Node)} {other : Place} (h : other ≠ place) :
    (nodes.filter (·.1 ≠ place)).lookup other = nodes.lookup other := by
  induction nodes with
  | nil => rfl
  | cons entry rest ih =>
    by_cases own : entry.1 = place
    · have differs : (other == entry.1) = false := beq_false_of_ne (own ▸ h)
      rw [List.filter_cons_of_neg (by simpa using own), ih, List.lookup_cons, differs]
    · rw [List.filter_cons_of_pos (by simpa using own), List.lookup_cons, List.lookup_cons, ih]

theorem lookup_filter_self (nodes : List (Place × Node)) :
    (nodes.filter (·.1 ≠ place)).lookup place = none := by
  rw [List.lookup_eq_none_iff]
  intro entry member
  have other := of_decide_eq_true (List.mem_filter.1 member).2
  exact bne_iff_ne.2 (Ne.symm other)

theorem node?_root (tree : FileTree) : tree.node? [] = some .directory := if_pos rfl

theorem node?_insert_self (tree : FileTree) (h : place ≠ []) (node : Node) :
    (tree.insert place node).node? place = some node := by
  rw [node?, if_neg h, insert, List.lookup_append, lookup_filter_self]
  simp

theorem node?_insert_of_ne (tree : FileTree) (node : Node) {other : Place} (h : other ≠ place) :
    (tree.insert place node).node? other = tree.node? other := by
  have differs : (other == place) = false := beq_false_of_ne h
  unfold node? insert
  rw [List.lookup_append, lookup_filter_ne h, List.lookup_cons, differs, List.lookup_nil]
  simp

/-! ## Trees that only grow -/

/-- Whatever stands in a tree stands in the other one too, and directories are still directories. -/
structure Extends (tree after : FileTree) : Prop where
  here : after.here = tree.here
  present : ∀ place, (tree.node? place).isSome = true → (after.node? place).isSome = true
  directory : ∀ place, tree.node? place = some .directory → after.node? place = some .directory

theorem Extends.refl (tree : FileTree) : tree.Extends tree :=
  ⟨rfl, fun _ h => h, fun _ h => h⟩

theorem Extends.trans (first : tree.Extends middle) (second : middle.Extends after) :
    tree.Extends after where
  here := second.here.trans first.here
  present place h := second.present place (first.present place h)
  directory place h := second.directory place (first.directory place h)

theorem Extends.walk (grows : tree.Extends after) {steps : List Text} {target : Place}
    (h : tree.walk place steps = .ok target) : after.walk place steps = .ok target := by
  induction steps generalizing place with
  | nil => exact h
  | cons step rest ih =>
    simp only [FileTree.walk] at h ⊢
    split at h
    · rename_i directory
      simp only [grows.directory place directory]
      split at h
      · rename_i up
        rw [if_pos up]
        exact ih h
      · rename_i up
        rw [if_neg up]
        split at h
        · cases h
        · rename_i short
          rw [if_neg short]
          split at h
          · rename_i present
            rw [if_pos (grows.present _ present)]
            exact ih h
          · cases h
    · cases h
    · cases h

theorem find_eq_ok_iff : tree.find path = .ok place ↔
    checkPath path = .ok () ∧ tree.walk (tree.start path) path.steps = .ok place := by
  unfold find
  cases checkPath path with
  | error e => simp [bind, Except.bind]
  | ok => simp [bind, Except.bind]

theorem Extends.find (grows : tree.Extends after) (h : tree.find path = .ok place) :
    after.find path = .ok place := by
  obtain ⟨checked, walked⟩ := find_eq_ok_iff.1 h
  have start : after.start path = tree.start path := by rw [start, start, grows.here]
  refine find_eq_ok_iff.2 ⟨checked, ?_⟩
  rw [start]
  exact grows.walk walked

theorem read_eq_ok_iff : tree.read path = .ok content ↔
    ∃ place, tree.find path = .ok place ∧ tree.node? place = some (.file content) := by
  unfold read
  cases tree.find path with
  | error e => simp [bind, Except.bind]
  | ok found =>
    simp only [bind, Except.bind, Except.ok.injEq, exists_eq_left']
    cases h : tree.node? found with
    | none => simp
    | some node => cases node <;> simp

/-- A file can still be read, and at the place where it was, if nothing has changed there. -/
theorem Extends.read (grows : tree.Extends after) (found : tree.find path = .ok place)
    (same : after.node? place = tree.node? place) : after.read path = tree.read path := by
  rw [FileTree.read, FileTree.read, found, grows.find found]
  simp only [bind, Except.bind, same]

/-! ## Steps -/

theorem walk_append (tree : FileTree) (place : Place) (front back : List Text) :
    tree.walk place (front ++ back) =
      (tree.walk place front).bind fun middle => tree.walk middle back := by
  induction front generalizing place with
  | nil => rfl
  | cons step rest ih =>
    simp only [List.cons_append, walk]
    split
    · split
      · exact ih _
      · split
        · rfl
        · split
          · exact ih _
          · rfl
    · rfl
    · rfl

/-- A step that does not lead upwards leads from a directory to something in it. -/
theorem walk_concat_eq_ok_iff {front : List Text} {name : Text} {start target : Place}
    (down : name ≠ parentStep) : tree.walk start (front ++ [name]) = .ok target ↔
      ∃ parent, tree.walk start front = .ok parent ∧ tree.node? parent = some .directory ∧
        byteCount name ≤ maxNameBytes ∧ target = parent ++ [name] ∧
        (tree.node? target).isSome = true := by
  rw [walk_append]
  cases tree.walk start front with
  | error e => simp [Except.bind]
  | ok parent =>
    simp only [Except.bind, walk, if_neg down, Except.ok.injEq, exists_eq_left']
    cases tree.node? parent with
    | none => simp
    | some node =>
      cases node with
      | file bytes => simp
      | directory =>
        simp only [true_and]
        split
        · rename_i long
          simp only [reduceCtorEq, false_iff, not_and]
          exact fun short => absurd long (Nat.not_lt.2 short)
        · rename_i short
          split
          · rename_i present
            simp only [Except.ok.injEq, Nat.not_lt.1 short, true_and]
            constructor
            · rintro rfl
              exact ⟨rfl, present⟩
            · exact fun h => h.1.symm
          · rename_i absent
            simp only [reduceCtorEq, false_iff, not_and]
            rintro - rfl
            exact absent

/-! ## Writing -/

/-- The other tree differs from the first in one file, which may be new. -/
structure Puts (tree : FileTree) (place : Place) (content : Bytes) (after : FileTree) : Prop where
  free : tree.node? place ≠ some .directory
  put : after.node? place = some (.file content)
  kept : ∀ other, other ≠ place → after.node? other = tree.node? other
  here : after.here = tree.here

theorem Puts.grows (puts : tree.Puts place content after) : tree.Extends after where
  here := puts.here
  present other h := by
    by_cases own : other = place
    · rw [own, puts.put]
      rfl
    · rwa [puts.kept other own]
  directory other h := by
    by_cases own : other = place
    · exact absurd (own ▸ h) puts.free
    · rwa [puts.kept other own]

/-- The place at which a path would put a file: a name in a directory that exists. -/
structure Leads (tree : FileTree) (path : Path) (parent : Place) (name : Text) : Prop where
  checked : checkPath path = .ok ()
  steps : ∃ front, path.steps = front ++ [name] ∧ tree.walk (tree.start path) front = .ok parent
  directory : tree.node? parent = some .directory
  named : name ≠ []
  down : name ≠ parentStep
  short : byteCount name ≤ maxNameBytes

theorem steps_eq_of_name_ne_nil (h : path.name ≠ []) :
    path.steps = path.steps.dropLast ++ [path.name] := by
  unfold Path.name at h ⊢
  cases last : path.steps.getLast? with
  | none => simp [last] at h
  | some step => rw [Option.getD_some, List.dropLast_append_getLast? step last]

/-- A file that was written stands where its path leads, and nothing else has changed. -/
theorem puts_of_write (h : tree.write path content = .ok after) :
    ∃ parent, tree.Leads path parent path.name ∧
      tree.Puts (parent ++ [path.name]) content after := by
  unfold write at h
  cases checked : checkPath path with
  | error e => simp [checked, bind, Except.bind] at h
  | ok =>
    simp only [checked, bind, Except.bind] at h
    split at h
    · cases h
    · rename_i named
      rw [not_or] at named
      have steps := steps_eq_of_name_ne_nil named.1
      cases found : tree.find { path with steps := path.steps.dropLast } with
      | error e => simp [found] at h
      | ok parent =>
        simp only [found] at h
        split at h
        · rename_i directory
          split at h
          · cases h
          · rename_i short
            have free : tree.node? (parent ++ [path.name]) ≠ some .directory := by
              intro taken
              rw [taken] at h
              cases h
            have inserted : tree.insert (parent ++ [path.name]) (.file content) = after := by
              split at h
              · cases h
              · exact Except.ok.inj h
            subst inserted
            refine ⟨parent, ⟨checked, ⟨_, steps, (find_eq_ok_iff.1 found).2⟩, directory, named.1,
              named.2, Nat.not_lt.1 short⟩, free, ?_, ?_, rfl⟩
            · exact node?_insert_self tree (by simp) _
            · exact fun other differs => node?_insert_of_ne tree _ differs
        · cases h

theorem Leads.find {parent : Place} {name : Text} (leads : tree.Leads path parent name)
    (grows : tree.Extends after) (present : (after.node? (parent ++ [name])).isSome = true) :
    after.find path = .ok (parent ++ [name]) := by
  obtain ⟨front, steps, walked⟩ := leads.steps
  have start : after.start path = tree.start path := by
    rw [FileTree.start, FileTree.start, grows.here]
  refine find_eq_ok_iff.2 ⟨leads.checked, ?_⟩
  rw [start, steps, walk_concat_eq_ok_iff leads.down]
  exact ⟨parent, grows.walk walked, grows.directory _ leads.directory, leads.short, rfl, present⟩

theorem Puts.find {parent : Place} {name : Text} (leads : tree.Leads path parent name)
    (puts : tree.Puts (parent ++ [name]) content after) :
    after.find path = .ok (parent ++ [name]) :=
  leads.find puts.grows (by rw [puts.put]; rfl)

/-- What a path with a name of its own leads to has this name. -/
theorem getLast?_of_find (named : path.name ≠ []) (down : path.name ≠ parentStep)
    (h : tree.find path = .ok place) : place.getLast? = some path.name := by
  have walked := (find_eq_ok_iff.1 h).2
  rw [steps_eq_of_name_ne_nil named, walk_concat_eq_ok_iff down] at walked
  obtain ⟨parent, -, -, -, rfl, -⟩ := walked
  rw [List.getLast?_concat]

/-! ## Runs of writes -/

/-- What is different in the other tree are files, and each is at the end of one of these paths. -/
structure Changes (tree : FileTree) (paths : List Path) (after : FileTree) : Prop where
  grows : tree.Extends after
  only : ∀ place, after.node? place = tree.node? place ∨
    ∃ path ∈ paths, ∃ content, after.find path = .ok place ∧ place.getLast? = some path.name ∧
      after.node? place = some (.file content)

theorem Changes.refl (tree : FileTree) (paths : List Path) : tree.Changes paths tree :=
  ⟨.refl tree, fun _ => .inl rfl⟩

theorem Changes.mono {paths more : List Path} (changes : tree.Changes paths after)
    (subset : paths ⊆ more) : tree.Changes more after where
  grows := changes.grows
  only place := (changes.only place).imp_right fun ⟨path, member, changed⟩ =>
    ⟨path, subset member, changed⟩

theorem Changes.trans {paths more : List Path} (first : tree.Changes paths middle)
    (second : middle.Changes more after) : tree.Changes (paths ++ more) after where
  grows := first.grows.trans second.grows
  only place := by
    rcases second.only place with same | ⟨path, member, changed⟩
    · rcases first.only place with kept | ⟨path, member, content, found, last, held⟩
      · exact .inl (same.trans kept)
      · exact .inr ⟨path, List.mem_append_left _ member, content, second.grows.find found, last,
          same.trans held⟩
    · exact .inr ⟨path, List.mem_append_right _ member, changed⟩

theorem changes_of_write (h : tree.write path content = .ok after) :
    tree.Changes [path] after := by
  obtain ⟨parent, leads, puts⟩ := puts_of_write h
  refine ⟨puts.grows, fun place => ?_⟩
  by_cases own : place = parent ++ [path.name]
  · subst own
    exact .inr ⟨path, List.mem_singleton_self path, content, puts.find leads,
      List.getLast?_concat, puts.put⟩
  · exact .inl (puts.kept place own)

/-! ## Making directories -/

/-- The other tree has more directories, and nothing else is different. -/
structure Opens (tree after : FileTree) : Prop where
  nodes : ∀ place, after.node? place = tree.node? place ∨
    tree.node? place = none ∧ after.node? place = some .directory
  here : after.here = tree.here

theorem Opens.trans (first : tree.Opens middle) (second : middle.Opens after) :
    tree.Opens after where
  here := second.here.trans first.here
  nodes place := by
    rcases second.nodes place with same | ⟨empty, made⟩
    · rw [same]
      exact first.nodes place
    · rcases first.nodes place with same | ⟨_, earlier⟩
      · exact .inr ⟨same ▸ empty, made⟩
      · rw [earlier] at empty
        cases empty

theorem opens_insert_directory (h : tree.node? place = none) :
    tree.Opens (tree.insert place .directory) where
  here := rfl
  nodes other := by
    by_cases own : other = place
    · subst own
      have below : other ≠ [] := by
        rintro rfl
        rw [node?_root] at h
        cases h
      exact .inr ⟨h, node?_insert_self tree below _⟩
    · exact .inl (node?_insert_of_ne tree _ own)

theorem opens_of_makeSteps {steps : List Text} (h : tree.makeSteps place steps = .ok after) :
    tree.Opens after := by
  induction steps generalizing tree place with
  | nil =>
    cases h
    exact ⟨fun _ => .inl rfl, rfl⟩
  | cons step rest ih =>
    simp only [makeSteps] at h
    split at h
    · exact ih h
    · split at h
      · cases h
      · split at h
        · exact ih h
        · cases h
        · rename_i empty
          split at h
          · cases h
          · exact (opens_insert_directory empty).trans (ih h)

theorem opens_of_makeDirectories (h : tree.makeDirectories path = .ok after) :
    tree.Opens after := by
  unfold makeDirectories at h
  cases checked : checkPath path with
  | error e => simp [checked, bind, Except.bind] at h
  | ok =>
    simp only [checked, bind, Except.bind] at h
    exact opens_of_makeSteps h

end MipsImage.FileTree
