import Mathlib.Data.List.Basic
import MipsImage.Batch

/-!
# Names of images

The name of an image is that of its source with another extension. It is a name of its own exactly
if the source has one of the known extensions, and two sources share it only if they have the same
name but for the extension.
-/
set_option autoImplicit false

namespace MipsImage

/-! ## Ends of texts -/

theorem Text.beforeEnd?_eq_some_iff {ending t front : Text} :
    beforeEnd? ending t = some front ↔ t = front ++ ending := by
  unfold beforeEnd?
  constructor
  · intro h
    split at h
    · rename_i suffix
      obtain ⟨before, rfl⟩ := List.isSuffixOf_iff_suffix.1 suffix
      cases h
      simp
    · cases h
  · rintro rfl
    rw [if_pos (List.isSuffixOf_iff_suffix.2 (List.suffix_append front ending))]
    simp

theorem Text.beforeEnd?_eq_none_iff {ending t : Text} :
    beforeEnd? ending t = none ↔ ∀ front, t ≠ front ++ ending := by
  rw [Option.eq_none_iff_forall_ne_some]
  exact forall_congr' fun front => not_congr beforeEnd?_eq_some_iff

/-! ## Names with an extension -/

/-- A name with an extension of sources; a line feed may close it. -/
inductive IsSourceName : Text → Prop
  | plain {stem extension : Text} (known : extension ∈ sourceExtensions) :
    IsSourceName (stem ++ extension)
  | closed {stem extension : Text} (known : extension ∈ sourceExtensions) :
    IsSourceName (stem ++ extension ++ [.char '\n'])

theorem getLast?_of_sourceExtension {extension : Text} (known : extension ∈ sourceExtensions)
    (stem : Text) :
    (stem ++ extension).getLast? = some 'm' ∨ (stem ++ extension).getLast? = some 's' := by
  simp only [sourceExtensions, List.mem_cons, List.not_mem_nil, or_false] at known
  rcases known with rfl | rfl
  · exact .inl (List.getLast?_append_of_ne_nil _ (by decide))
  · exact .inr (List.getLast?_append_of_ne_nil _ (by decide))

theorem findSome?_sourceExtensions {stem extension : Text}
    (known : extension ∈ sourceExtensions) :
    sourceExtensions.findSome? (Text.beforeEnd? · (stem ++ extension)) = some stem := by
  have own : Text.beforeEnd? extension (stem ++ extension) = some stem :=
    Text.beforeEnd?_eq_some_iff.2 rfl
  simp only [sourceExtensions, List.mem_cons, List.not_mem_nil, or_false] at known
  rcases known with rfl | rfl
  · rw [sourceExtensions, List.findSome?_cons, own]
  · have other : Text.beforeEnd? ".asm".toText (stem ++ ".s".toText) = none := by
      rw [Text.beforeEnd?_eq_none_iff]
      intro front h
      have last := congrArg List.getLast? h
      rw [List.getLast?_append_of_ne_nil _ (by decide),
        List.getLast?_append_of_ne_nil _ (by decide)] at last
      revert last
      decide
    rw [sourceExtensions, List.findSome?_cons, other, List.findSome?_cons, own]

theorem outputName_plain {stem extension : Text} (known : extension ∈ sourceExtensions) :
    outputName (stem ++ extension) = stem ++ ".hex".toText := by
  have bare : Text.beforeEnd? ['\n'] (stem ++ extension) = none := by
    rw [Text.beforeEnd?_eq_none_iff]
    intro front h
    have last := getLast?_of_sourceExtension known stem
    rw [h, List.getLast?_append_of_ne_nil _ (by decide)] at last
    revert last
    decide
  unfold outputName
  simp only [bare, findSome?_sourceExtensions known, List.append_nil]

theorem outputName_closed {stem extension : Text} (known : extension ∈ sourceExtensions) :
    outputName (stem ++ extension ++ [.char '\n']) = stem ++ ".hex".toText ++ [.char '\n'] := by
  have feed : Text.beforeEnd? [.char '\n'] (stem ++ extension ++ [.char '\n']) =
      some (stem ++ extension) := Text.beforeEnd?_eq_some_iff.2 rfl
  unfold outputName
  simp only [feed, findSome?_sourceExtensions known]

theorem outputName_of_not_isSourceName {name : Text} (h : ¬IsSourceName name) :
    outputName name = name := by
  unfold outputName
  split
  rename_i stem closing hsplit
  split
  · rename_i front hfront
    obtain ⟨extension, known, hextension⟩ := List.exists_of_findSome?_eq_some hfront
    have hstem := Text.beforeEnd?_eq_some_iff.1 hextension
    split at hsplit
    · rename_i whole hwhole
      cases hsplit
      have hname := Text.beforeEnd?_eq_some_iff.1 hwhole
      rw [hname, hstem] at h
      exact absurd (.closed known) h
    · cases hsplit
      rw [hstem] at h
      exact absurd (.plain known) h
  · rfl

theorem sourceExtension_ne_hex {stem extension : Text} (known : extension ∈ sourceExtensions)
    (front : Text) : stem ++ extension ≠ front ++ ".hex".toText := by
  intro h
  have last := getLast?_of_sourceExtension known stem
  rw [h, List.getLast?_append_of_ne_nil _ (by decide)] at last
  revert last
  decide

theorem outputName_eq_self_iff {name : Text} : outputName name = name ↔ ¬IsSourceName name := by
  refine ⟨fun h source => ?_, outputName_of_not_isSourceName⟩
  cases source with
  | plain known =>
    rw [outputName_plain known] at h
    exact sourceExtension_ne_hex known _ h.symm
  | closed known =>
    rw [outputName_closed known] at h
    exact sourceExtension_ne_hex known _ (List.append_cancel_right h).symm

/-- An image never has the name of a source. -/
theorem not_isSourceName_outputName {name : Text} (h : IsSourceName name) :
    ¬IsSourceName (outputName name) := by
  intro source
  generalize himage : outputName name = image at source
  have ends : image.getLast? = some (.char 'x') ∨
      ∃ front, image = front ++ ".hex".toText ++ [.char '\n'] := by
    cases h with
    | plain known =>
      rw [outputName_plain known] at himage
      rw [← himage]
      exact .inl (List.getLast?_append_of_ne_nil _ (by decide))
    | @closed stem _ known =>
      rw [outputName_closed known] at himage
      exact .inr ⟨stem, himage.symm⟩
  cases source with
  | @plain stem extension known =>
    have last := getLast?_of_sourceExtension known stem
    rcases ends with hx | ⟨front, heq⟩
    · rw [hx] at last
      revert last
      decide
    · rw [heq, List.getLast?_append_of_ne_nil _ (by decide)] at last
      revert last
      decide
  | @closed stem extension known =>
    rcases ends with hx | ⟨front, heq⟩
    · rw [List.getLast?_append_of_ne_nil _ (by decide)] at hx
      revert hx
      decide
    · exact sourceExtension_ne_hex known front (List.append_cancel_right heq)

/-- Two sources share the name of their image if they are called the same up to the extension. -/
theorem outputName_eq_iff {stem₁ stem₂ extension₁ extension₂ : Text}
    (known₁ : extension₁ ∈ sourceExtensions) (known₂ : extension₂ ∈ sourceExtensions) :
    outputName (stem₁ ++ extension₁) = outputName (stem₂ ++ extension₂) ↔ stem₁ = stem₂ := by
  rw [outputName_plain known₁, outputName_plain known₂, List.append_cancel_right_eq]

end MipsImage
