import MipsImage.Directive
import MipsImage.Mnemonic
import MipsImage.Proofs.Tokens
import MipsImage.Pseudo

/-!
# Directives as they are written

A directive is known by a name that begins with a point and that no instruction has. A space closes
the name, and the rest of the line is the body.
-/
set_option autoImplicit false

namespace MipsImage.Directive

/-! ## Names -/

theorem solid_name (d : Directive) : ∀ c ∈ d.name, Text.isBlank c = false := by
  have table : ∀ d ∈ all, d.name.all (!Text.isBlank ·) = true := by decide +kernel
  intro c member
  have own := List.all_eq_true.1 (table d d.mem_all) c member
  rwa [Bool.not_eq_true'] at own

theorem name_ne_nil (d : Directive) : d.name ≠ [] := by
  have table : ∀ d ∈ all, d.name ≠ [] := by decide
  exact table d d.mem_all

theorem not_mem_space (d : Directive) : .char ' ' ∉ d.name := fun member =>
  absurd (d.solid_name ' ' member) (by decide)

/-- No instruction has the name of a directive. -/
theorem name_unknown (d : Directive) :
    Text.toLower d.name = d.name ∧ d.name ≠ "li".toText ∧
      d.name ≠ Mnemonic.la.name.toText ∧ Pseudo.named? d.name = none ∧
      Mnemonic.named? d.name = none := by
  have table : ∀ d ∈ all, Text.toLower d.name = d.name ∧ d.name ≠ "li".toText ∧
      d.name ≠ Mnemonic.la.name.toText ∧ Pseudo.named? d.name = none ∧
      Mnemonic.named? d.name = none := by decide +kernel
  exact table d d.mem_all

theorem name_of_named? {t : Text} {d : Directive} (h : named? t = some d) : d.name = t := by
  simpa using List.find?_some h

theorem named?_eq_none_of_head? {t : Text} (point : t.head? ≠ some '.') : named? t = none := by
  have pointed : ∀ d ∈ all, d.name.head? = some '.' := by decide
  refine Option.eq_none_iff_forall_ne_some.2 fun d named => point ?_
  rw [← name_of_named? named, pointed d d.mem_all]

/-! ## Texts -/

theorem ofText?_of_not_mem {t : Text} (whole : .char ' ' ∉ t) : ofText? t = none := by
  rw [ofText?, Text.cut_of_not_mem whole]

theorem ofText?_append_space {word rest : Text} (whole : .char ' ' ∉ word)
    (unbroken : .char '\n' ∉ rest) (present : rest ≠ []) :
    ofText? (word ++ .char ' ' :: rest) = (named? word).map (·, rest) := by
  have line : ∀ c ∈ rest, decide (c ≠ .char '\n') = true := by
    intro c member
    refine decide_eq_true ?_
    rintro rfl
    exact unbroken member
  rw [ofText?, Text.cut_append_cons whole]
  dsimp only
  cases named? word with
  | none => rfl
  | some directive =>
    simp only [List.takeWhile_eq_self_iff.2 line, List.dropWhile_eq_nil_iff.2 line]
    exact if_pos ⟨present, rfl⟩

theorem ofText?_eq_some_prefix {t body : Text} {d : Directive} (h : ofText? t = some (d, body)) :
    d.name ++ [.char ' '] <+: t := by
  unfold ofText? at h
  split at h
  · cases h
  · rename_i name rest cut
    split at h
    · cases h
    · rename_i directive named
      have text := (Text.of_cut_eq_some cut).1
      dsimp only at h
      split at h
      · cases h
        exact ⟨rest, by rw [text, name_of_named? named]; simp⟩
      · cases h

/-- The name of a directive is read as a mnemonic where no directive is meant. -/
theorem mnemonic_of_prefix {d : Directive} {t : Text} (h : d.name ++ [.char ' '] <+: t) :
    (Instruction.ofText t).mnemonic = d.name := by
  have lower := d.name_unknown.1
  have trimmed : Text.trim d.name = d.name := Text.trim_eq_self_of_solid d.solid_name
  obtain ⟨rest, rfl⟩ := h
  by_cases blank : rest.rdropWhile Text.isBlank = []
  · -- nothing is left but the name
    have blanks : ∀ c ∈ .char ' ' :: rest, Text.isBlank c = true :=
      List.forall_mem_cons.2 ⟨by decide, List.rdropWhile_eq_nil_iff.1 blank⟩
    have name : Text.trim (d.name ++ [.char ' '] ++ rest) = d.name := by
      rw [List.append_assoc]
      exact (Text.trim_append_blanks blanks).trans trimmed
    rw [Instruction.ofText, name, Text.cut_of_not_mem d.not_mem_space]
    exact lower
  · have begins :
        (d.name ++ [CodePoint.char ' ']).dropWhile Text.isBlank = d.name ++ [.char ' '] := by
      have front := (Text.trim_eq_self_iff.1 trimmed).1
      rw [Text.dropWhile_append_of_ne_nil (front.symm ▸ d.name_ne_nil), front]
    rw [← List.append_cons, Instruction.ofText_append_space d.not_mem_space begins blank]
    exact lower

end MipsImage.Directive
