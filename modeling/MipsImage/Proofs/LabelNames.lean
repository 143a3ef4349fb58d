import MipsImage.Proofs.Headers
import MipsImage.Proofs.Tokens
import MipsImage.SymbolTable

/-!
# What a label is not

A label has no blank, comma, parenthesis or colon in it and opens with a letter or an underscore. So
it is one operand wherever it stands as one, and neither a numeral nor a register nor an offset with
a register.
-/
set_option autoImplicit false

namespace MipsImage

/-! ## Characters -/

/-- No range of one table meets one of the other. -/
def Text.Apart (first second : List (Nat × Nat)) : Prop :=
  ∀ a ∈ first, ∀ b ∈ second, a.2 < b.1 ∨ b.2 < a.1

theorem Text.Apart.inRanges {first second : List (Nat × Nat)} (apart : Apart first second)
    {c : CodePoint} (own : inRanges first c = true) : inRanges second c = false := by
  rw [Bool.eq_false_iff]
  intro other
  obtain ⟨a, ha, hfirst⟩ := List.any_eq_true.1 own
  obtain ⟨b, hb, hsecond⟩ := List.any_eq_true.1 other
  rw [Bool.and_eq_true, decide_eq_true_eq, decide_eq_true_eq] at hfirst hsecond
  rcases apart a ha b hb with below | above <;> omega

namespace Label

instance (t : Text) : Decidable (Proper t) :=
  match t with
  | [] => inferInstanceAs (Decidable False)
  | c :: rest =>
    decidable_of_iff (isFirst c = true ∧ rest.all isNext = true)
      (and_congr_right fun _ => List.all_eq_true)

theorem not_isBlank_of_isNext {c : CodePoint} (h : isNext c = true) : Text.isBlank c = false := by
  have apart : Text.Apart Text.blankRanges Text.wordRanges := by
    unfold Text.Apart
    decide +kernel
  have ascii : ∀ n < 0x80, Text.isBlank (CodePoint.ofNat n) = true →
      isNext (CodePoint.ofNat n) = false := by decide +kernel
  rw [Bool.eq_false_iff]
  intro blank
  by_cases small : c.toNat < 0x80
  · have none := ascii c.toNat small
    rw [CodePoint.ofNat_toNat] at none
    rw [none blank] at h
    cases h
  · rw [isNext, Text.isWordChar, if_neg small, apart.inRanges blank, Bool.false_or,
      decide_eq_true_eq] at h
    subst h
    exact small (by decide)

/-- What can open a label is among the first characters of all. -/
theorem forall_isFirst {p : CodePoint → Prop}
    (h : ∀ n < 0x80, isFirst (CodePoint.ofNat n) = true → p (CodePoint.ofNat n)) {c : CodePoint}
    (first : isFirst c = true) : p c := by
  have small : c.toNat < 0x80 := by
    rw [isFirst, Bool.or_eq_true, decide_eq_true_eq] at first
    rcases first with letter | rfl
    · exact CodePoint.toNat_lt_of_isAlpha letter
    · decide
  have own := h c.toNat small
  rw [CodePoint.ofNat_toNat] at own
  exact own first

theorem isNext_of_isFirst {c : CodePoint} (h : isFirst c = true) : isNext c = true :=
  forall_isFirst (p := fun c => isNext c = true) (by decide +kernel) h

namespace Proper

variable {t : Text}

theorem isNext (proper : Proper t) : ∀ c ∈ t, isNext c = true := by
  cases t with
  | nil => exact proper.elim
  | cons c rest =>
    intro d member
    rcases List.mem_cons.1 member with rfl | later
    · exact isNext_of_isFirst proper.1
    · exact proper.2 d later

theorem not_mem (proper : Proper t) {c : CodePoint} (other : Label.isNext c = false) : c ∉ t := by
  intro member
  rw [proper.isNext c member] at other
  cases other

theorem solid (proper : Proper t) : ∀ c ∈ t, Text.isBlank c = false := fun c member =>
  not_isBlank_of_isNext (proper.isNext c member)

theorem isToken (proper : Proper t) : Text.IsToken t where
  trimmed := Text.trim_eq_self_of_solid proper.solid
  single := proper.not_mem (by decide)

theorem ne_nil (proper : Proper t) : t ≠ [] := by
  rintro rfl
  exact proper.elim

/-- A label is no numeral. -/
theorem ofToken?_eq_none (proper : Proper t) : Numeral.ofToken? t = none := by
  rw [Numeral.ofToken?, proper.isToken.trimmed]
  cases t with
  | nil => exact proper.elim
  | cons c rest =>
    obtain ⟨minus, zero, digit⟩ : c ≠ '-' ∧ c ≠ '0' ∧ Text.decimalDigit? c = none :=
      forall_isFirst (p := fun c => c ≠ '-' ∧ c ≠ '0' ∧ Text.decimalDigit? c = none)
        (by decide +kernel) proper.1
    have mark : Numeral.afterHexMark? (c :: rest) = none := by
      unfold Numeral.afterHexMark?
      split
      · rename_i h
        cases h
        exact absurd rfl zero
      · rename_i h
        cases h
        exact absurd rfl zero
      · rfl
    have unsigned : Numeral.unsigned? (c :: rest) = none := by
      rw [Numeral.unsigned?, mark]
      dsimp only
      rw [if_neg (List.cons_ne_nil _ _), Text.digits?, digit]
      rfl
    unfold Numeral.ofText?
    split
    · rename_i h
      cases h
      exact absurd rfl minus
    · rw [unsigned]
      rfl

/-- A label is no register. -/
theorem register_ofToken?_eq_none (proper : Proper t) : Register.ofToken? t = none := by
  rw [Register.ofToken?, proper.isToken.trimmed]
  cases t with
  | nil => exact proper.elim
  | cons c rest =>
    obtain ⟨sigma, dotted, dollar⟩ : c ≠ 'Σ' ∧ c ≠ 'İ' ∧ Text.lowerChar c ≠ '$' :=
      forall_isFirst (p := fun c => c ≠ 'Σ' ∧ c ≠ 'İ' ∧ Text.lowerChar c ≠ '$')
        (by decide +kernel) proper.1
    have lower : Text.toLower (c :: rest) = Text.lowerChar c :: Text.lowerFrom [c] rest := by
      rw [Text.toLower, Text.lowerFrom, Text.lowerWithin, if_neg sigma, if_neg dotted]
      rfl
    have marked : ∀ entry ∈ Register.names, entry.1.toText.head? = some '$' := by decide +kernel
    rw [lower, Register.named?, Option.map_eq_none_iff, List.find?_eq_none]
    intro entry member own
    have head := marked entry member
    rw [of_decide_eq_true own, List.head?_cons] at head
    exact dollar (Option.some.inj head)

/-- A label is no offset with a register. -/
theorem indexed?_eq_none (proper : Proper t) : SymbolTable.indexed? t = none := by
  rw [SymbolTable.indexed?, Text.cut_of_not_mem (proper.not_mem (by decide))]

end Proper

end Label

end MipsImage
