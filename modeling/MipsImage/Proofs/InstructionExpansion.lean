import MipsImage.Expansion
import MipsImage.Proofs.DecimalText

/-!
# Expansion of instructions

What an instruction can become, as one case analysis from which later proofs start, and that the
instructions which expansion writes are read back operand by operand.
-/
set_option autoImplicit false

namespace MipsImage

/-! ## Cases -/

/-- The instruction of both words of `la`. -/
def loadAddress (destination target : Text) : Instruction :=
  ⟨Mnemonic.la.name.toText, [destination, target]⟩

/-- What an instruction as written becomes. -/
inductive Instruction.Becomes (t : Text) : List Fragment → Prop
  | loadImmediate {destination source : Text} {value : Int}
    (written : ofText t = ⟨"li".toText, [destination, source]⟩)
    (read : readInteger source = .ok value) :
    Becomes t ((MipsImage.loadImmediate destination value).map Fragment.ofInstruction)
  | loadAddress {destination target : Text}
    (written : ofText t = MipsImage.loadAddress destination target) :
    Becomes t [.instruction (MipsImage.loadAddress destination target).text (some .upper),
      .instruction (MipsImage.loadAddress destination target).text (some .lower)]
  | template {p : Pseudo} (named : Pseudo.named? (ofText t).mnemonic = some p)
    (fills : fillsPlaces p.arity (ofText t).operands = true) :
    Becomes t ((p.templates.map (Template.fill (ofText t).operands)).map Fragment.ofInstruction)
  | itself : Becomes t [.instruction t none]

theorem expandInstruction.becomes_of_template {t : Text} {fragments : List Fragment}
    (h : expandInstruction.template t (Instruction.ofText t) = .ok fragments) :
    Instruction.Becomes t fragments := by
  unfold expandInstruction.template at h
  split at h
  · rename_i instructions expanded
    obtain ⟨p, named, hp⟩ := Option.bind_eq_some_iff.1 expanded
    unfold Pseudo.expand? at hp
    split at hp
    · rename_i fills
      cases hp
      cases h
      exact .template named fills
    · cases hp
  · cases h
    exact .itself

theorem expandInstruction_becomes {t : Text} {fragments : List Fragment}
    (h : expandInstruction t = .ok fragments) : Instruction.Becomes t fragments := by
  simp only [expandInstruction] at h
  split at h
  · rename_i destination source operands
    split at h
    · rename_i mnemonic
      cases hvalue : readInteger source with
      | error failure =>
        rw [hvalue] at h
        cases h
      | ok value =>
        rw [hvalue] at h
        cases h
        exact .loadImmediate (by rw [← mnemonic, ← operands]) hvalue
    · split at h
      · rename_i mnemonic
        cases h
        exact .loadAddress (by rw [loadAddress, ← mnemonic, ← operands])
      · exact expandInstruction.becomes_of_template h
  · exact expandInstruction.becomes_of_template h

/-- An instruction fails to be expanded only in the number of `li`. -/
theorem expandInstruction_eq_error {t : Text} {failure : Failure Fault}
    (h : expandInstruction t = .error failure) :
    ∃ source ∈ (Instruction.ofText t).operands, readInteger source = .error failure := by
  have template {i : Instruction} : expandInstruction.template t i ≠ .error failure := by
    unfold expandInstruction.template
    split <;> exact nofun
  simp only [expandInstruction] at h
  split at h
  · rename_i destination source operands
    split at h
    · refine ⟨source, by simp [operands], ?_⟩
      cases hvalue : readInteger source with
      | error cause =>
        rw [hvalue] at h
        cases h
        rfl
      | ok value =>
        rw [hvalue] at h
        cases h
    · split at h
      · cases h
      · exact absurd h template
  · exact absurd h template

theorem Pseudo.templates_ne_nil (p : Pseudo) : p.templates ≠ [] := by
  cases p <;> decide

namespace Instruction.Becomes

variable {t : Text} {fragments : List Fragment}

theorem ne_nil (h : Becomes t fragments) : fragments ≠ [] := by
  cases h with
  | loadImmediate | loadAddress | itself => exact List.cons_ne_nil _ _
  | @template p => simp [p.templates_ne_nil]

theorem instructions (h : Becomes t fragments) :
    ∀ fragment ∈ fragments, ∃ text half, fragment = .instruction text half := by
  intro fragment member
  cases h with
  | loadImmediate | template =>
    obtain ⟨i, -, rfl⟩ := List.mem_map.1 member
    exact ⟨_, _, rfl⟩
  | loadAddress =>
    rcases List.mem_cons.1 member with rfl | member
    · exact ⟨_, _, rfl⟩
    · exact ⟨_, _, List.mem_singleton.1 member⟩
  | itself => exact ⟨_, _, List.mem_singleton.1 member⟩

end Instruction.Becomes

/-! ## Reading back -/

/-- The tokens that templates fix. -/
def TemplateOperand.fixedTokens : List String := ["$0", "$1", "0", "1", "8"]

theorem TemplateOperand.fixed_mem {p : Pseudo} {template : Template} {token : String}
    (ht : template ∈ p.templates) (h : .fixed token ∈ template.operands) :
    token ∈ fixedTokens := by
  have table : ∀ p ∈ Pseudo.all, ∀ template ∈ p.templates, ∀ operand ∈ template.operands,
      operand ∈ fixedTokens.map TemplateOperand.fixed ∨
        ∃ place < 3, operand = TemplateOperand.given place := by decide +kernel
  rcases table p p.mem_all template ht _ h with known | ⟨place, -, given⟩
  · obtain ⟨_, member, heq⟩ := List.mem_map.1 known
    cases heq
    exact member
  · cases given

/-- An operand of a template is one that was given, nothing at all or one of the fixed tokens. -/
theorem TemplateOperand.fill_cases {p : Pseudo} {template : Template} {operand : TemplateOperand}
    (ht : template ∈ p.templates) (h : operand ∈ template.operands) (tokens : List Text) :
    operand.fill tokens ∈ tokens ∨ operand.fill tokens = [] ∨
      ∃ token ∈ fixedTokens, operand.fill tokens = token.toText := by
  cases operand with
  | given place =>
    rw [fill]
    cases hplace : tokens[place]? with
    | none => exact .inr (.inl rfl)
    | some token => exact .inl (List.mem_of_getElem? hplace)
  | fixed token => exact .inr (.inr ⟨token, fixed_mem ht h, rfl⟩)

theorem Mnemonic.isMnemonic_name (m : Mnemonic) : Instruction.IsMnemonic m.name.toText := by
  have table : ∀ m ∈ all, Instruction.IsMnemonic m.name.toText := by decide +kernel
  exact table m m.mem_all

/-- An instruction with two operands or more is read back. -/
theorem Instruction.ofText_text_of_mnemonic {m : Mnemonic} {first second : Text}
    {more : List Text} (tokens : ∀ token ∈ first :: second :: more, Text.IsToken token) :
    ofText (text ⟨m.name.toText, first :: second :: more⟩) =
      ⟨m.name.toText, first :: second :: more⟩ :=
  ofText_text m.isMnemonic_name (List.cons_ne_nil _ _) (by simp) tokens

theorem TemplateOperand.isToken_fixed : ∀ token ∈ fixedTokens, Text.IsToken token.toText := by
  decide

theorem Template.ofText_fill {p : Pseudo} {template : Template} (ht : template ∈ p.templates)
    {tokens : List Text} (h : ∀ token ∈ tokens, Text.IsToken token) :
    Instruction.ofText (template.fill tokens).text = template.fill tokens := by
  have several : ∀ p ∈ Pseudo.all, ∀ template ∈ p.templates, 2 ≤ template.operands.length := by
    decide +kernel
  have length := several p p.mem_all template ht
  have filled : ∀ token ∈ template.operands.map (TemplateOperand.fill tokens),
      Text.IsToken token := by
    intro token member
    obtain ⟨operand, hoperand, rfl⟩ := List.mem_map.1 member
    rcases TemplateOperand.fill_cases ht hoperand tokens with given | none | ⟨fixed, known, heq⟩
    · exact h _ given
    · rw [none]
      decide
    · rw [heq]
      exact TemplateOperand.isToken_fixed fixed known
  unfold Template.fill
  match hoperands : template.operands with
  | [] | [_] => simp [hoperands] at length
  | first :: second :: more =>
    rw [hoperands] at filled
    exact Instruction.ofText_text_of_mnemonic filled

theorem ofText_loadImmediate {destination : Text} (h : Text.IsToken destination) (value : Int) :
    ∀ i ∈ loadImmediate destination value, Instruction.ofText i.text = i := by
  have scratch : Text.IsToken "$at".toText := by decide
  intro i member
  rcases List.mem_cons.1 member with rfl | member
  · apply Instruction.ofText_text_of_mnemonic
    simp only [List.forall_mem_cons]
    exact ⟨scratch, Numeral.isToken_decimalText _, nofun⟩
  · rw [List.mem_singleton.1 member]
    apply Instruction.ofText_text_of_mnemonic
    simp only [List.forall_mem_cons]
    exact ⟨h, scratch, Numeral.isToken_decimalText _, nofun⟩

theorem ofText_loadAddress {destination target : Text} (h : Text.IsToken destination)
    (h' : Text.IsToken target) :
    Instruction.ofText (loadAddress destination target).text = loadAddress destination target := by
  apply Instruction.ofText_text_of_mnemonic
  simp [h, h']

end MipsImage
