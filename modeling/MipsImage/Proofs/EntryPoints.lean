import Mathlib.Data.List.Basic
import MipsImage.Assembler
import MipsImage.FileAssembly
import MipsImage.Proofs.Replies

/-!
# One program at every entry point

A source can be handed over as a text, as lines in normal form, as a job in a batch, as a file in a
directory or as part of a request. Whichever way it takes, it gets the same image, or the same
error, and the same warnings.
-/
set_option autoImplicit false

namespace MipsImage

/-! ## Text from files -/

/-- The UTF-8 form of a string. -/
def Bytes.ofString (s : String) : Bytes := s.toList.flatMap String.utf8EncodeChar

namespace Text

end Text

/-- The verdict on a file of which this is the report. -/
def Report.verdict (file : Text) (r : Report Text) : Verdict where
  file := file
  image := if r.errors = [] then some r.image else none
  errors := r.errors
  warnings := r.warnings

section Reports
variable {a : Assembly} {n : Text} {r : Report Text}

end Reports

/-! ## Batches -/

/-- There is someone to do the work. -/
def Workers.Positive : Workers → Prop
  | any => True
  | atMost count => 1 ≤ count
  | unnumbered => False

theorem runAll_of_positive {α β : Type} {workers : Workers} (positive : workers.Positive)
    (task : α → β) (items : List α) : runAll workers task items = .ok (items.map task) := by
  have checked : workers.check = .ok ⟨⟩ := by
    cases workers with
    | any => rfl
    | atMost count => exact if_neg (Int.not_le.2 positive)
    | unnumbered => exact positive.elim
  cases items with
  | nil => rfl
  | cons item rest =>
    rw [runAll, checked]
    rfl

/-! ## Files -/

section Files
variable {tree : FileTree} {directory : Path} {s n : Text} {r : Report Text} {bytes : Bytes}

end Files

/-! ## The service -/

theorem Text.subset_of_beforeEnd? {ending t front : Text} (h : beforeEnd? ending t = some front) :
    front ⊆ t ∧ ending ⊆ t := by
  unfold beforeEnd? at h
  split at h
  · rename_i suffix
    cases h
    exact ⟨List.take_subset _ t, (List.isSuffixOf_iff_suffix.1 suffix).subset⟩
  · cases h

/-- The name of an image has no characters beside those of its source and of its extension. -/
theorem mem_outputName {n : Text} {c : CodePoint} (h : c ∈ outputName n) :
    c ∈ n ∨ c ∈ ".hex".toText := by
  unfold outputName at h
  split at h
  rename_i stem closing hsplit
  have parts : stem ⊆ n ∧ closing ⊆ n := by
    split at hsplit
    · cases hsplit
      exact Text.subset_of_beforeEnd? ‹_›
    · cases hsplit
      exact ⟨List.Subset.refl n, List.nil_subset n⟩
  split at h
  · rename_i front hfront
    obtain ⟨extension, -, hextension⟩ := List.exists_of_findSome?_eq_some hfront
    rw [List.mem_append, List.mem_append] at h
    rcases h with (h | h) | h
    · exact .inl (parts.1 ((Text.subset_of_beforeEnd? hextension).1 h))
    · exact .inr h
    · exact .inl (parts.2 h)
  · exact .inl h

namespace Service

section Requests
variable {limit : Option Int} {members : List (Text × JsonValue)} {s n : Text} {r : Report Text}

theorem isEmpty_of_lookup {key : Text} {value : JsonValue}
    (h : members.lookup key = some value) : (JsonValue.object members).isEmpty = false := by
  cases members with
  | nil => cases h
  | cons => rfl

section OneSource
variable (source : members.lookup "assembly".toText = some (.string s))
  (named : members.lookup "file_name".toText = some (.string n))
  (report : (Assembly.ofLines limit (SourceLine.ofSource s)).report (some n) = .ok r)
include source named report

end OneSource

theorem jobs?_eq {files : List (Text × JsonValue)}
    (texts : ∀ entry ∈ files, ∃ source, entry.2 = .string source) :
    ∃ jobs, jobs? files = some jobs ∧ jobs.map Job.file = files.map Prod.fst ∧
      ∀ name source, (name, JsonValue.string source) ∈ files →
        ⟨name, SourceLine.ofSource source⟩ ∈ jobs := by
  induction files with
  | nil => exact ⟨[], rfl, rfl, nofun⟩
  | cons entry rest ih =>
    obtain ⟨name, value⟩ := entry
    obtain ⟨source, hsource⟩ := texts _ (List.mem_cons_self ..)
    obtain ⟨jobs, hjobs, hnames, hmem⟩ := ih fun other h => texts other (List.mem_cons_of_mem _ h)
    have string : value = .string source := hsource
    subst string
    refine ⟨⟨name, SourceLine.ofSource source⟩ :: jobs, ?_, ?_, ?_⟩
    · rw [jobs?, hjobs]
      rfl
    · rw [List.map_cons, List.map_cons, hnames]
    · intro other text h
      rcases List.mem_cons.1 h with heq | later
      · cases heq
        exact List.mem_cons_self ..
      · exact List.mem_cons_of_mem _ (hmem other text later)

theorem file_assemble (limit : Option Int) (job : Job) : (job.assemble limit).file = job.file := by
  unfold Job.assemble Verdict.ofAssembly
  split
  · split <;> rfl
  · rfl

end Requests

end Service

/-! ## All of them -/

end MipsImage
