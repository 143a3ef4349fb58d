import Mathlib.Data.List.Forall2
import MipsImage.Proofs.LabelNames

/-!
# Integer literals as a grammar

A literal is an optional minus and either decimal digits, each of any script, or the mark `0x` and
hexadecimal digits. None of its characters is a blank, a separator, a parenthesis or a dollar sign,
so it is one operand and neither a register nor the operand of a load.
-/
set_option autoImplicit false

namespace MipsImage

namespace Text

theorem digits?_eq_some_iff {digit? : CodePoint → Option Nat} {t : Text} {values : List Nat} :
    digits? digit? t = some values ↔
      List.Forall₂ (fun c value => digit? c = some value) t values := by
  induction t generalizing values with
  | nil => simp [digits?, eq_comm]
  | cons c rest ih =>
    rw [digits?, List.forall₂_cons_left_iff]
    simp only [bind, Option.bind_eq_some_iff, pure, Option.some.injEq, ih]
    constructor
    · rintro ⟨value, own, more, later, rfl⟩
      exact ⟨value, more, own, later, rfl⟩
    · rintro ⟨value, more, own, later, rfl⟩
      exact ⟨value, own, more, later, rfl⟩

end Text

namespace Numeral

/-! ## The grammar -/

/-- The digits of a literal without its sign, with their values. -/
inductive Unsigned : Text → Radix → List Nat → Prop
  | decimal {t : Text} {values : List Nat} (present : t ≠ [])
    (digits : List.Forall₂ (fun c value => Text.decimalDigit? c = some value) t values) :
    Unsigned t .decimal values
  | hexadecimal {mark : CodePoint} {t : Text} {values : List Nat} (marked : mark = 'x' ∨ mark = 'X')
    (present : t ≠ [])
    (digits : List.Forall₂ (fun c value => Text.hexDigit? c = some value) t values) :
    Unsigned ('0' :: mark :: t) .hexadecimal values

/-- A text is a literal of these digits. -/
inductive Written : Text → Numeral → Prop
  | positive {t : Text} {radix : Radix} {values : List Nat} (unsigned : Unsigned t radix values) :
    Written t ⟨false, radix, values⟩
  | negative {t : Text} {radix : Radix} {values : List Nat} (unsigned : Unsigned t radix values) :
    Written ('-' :: t) ⟨true, radix, values⟩

/-! ## Reading -/

theorem afterHexMark?_eq_some_iff {t rest : Text} :
    afterHexMark? t = some rest ↔
      ∃ mark, (mark = .char 'x' ∨ mark = .char 'X') ∧ t = .char '0' :: mark :: rest := by
  unfold afterHexMark?
  split
  · simp [eq_comm]
  · simp [eq_comm]
  · rename_i small capital
    constructor
    · rintro ⟨⟩
    · rintro ⟨mark, rfl | rfl, rfl⟩
      · exact absurd rfl (small rest)
      · exact absurd rfl (capital rest)

theorem unsigned?_eq_some_iff {t : Text} {radix : Radix} {values : List Nat} :
    unsigned? t = some (radix, values) ↔ Unsigned t radix values := by
  constructor
  · intro h
    unfold unsigned? at h
    split at h
    · cases h
    · rename_i rest present mark
      obtain ⟨mark, marked, rfl⟩ := afterHexMark?_eq_some_iff.1 mark
      obtain ⟨_, digits, same⟩ := Option.map_eq_some_iff.1 h
      cases same
      exact .hexadecimal marked present (Text.digits?_eq_some_iff.1 digits)
    · split at h
      · cases h
      · rename_i present
        obtain ⟨_, digits, same⟩ := Option.map_eq_some_iff.1 h
        cases same
        exact .decimal present (Text.digits?_eq_some_iff.1 digits)
  · intro h
    cases h with
    | decimal present digits =>
      have unmarked : afterHexMark? t = none := by
        refine Option.eq_none_iff_forall_ne_some.2 fun rest found => ?_
        obtain ⟨mark, marked, rfl⟩ := afterHexMark?_eq_some_iff.1 found
        have none : Text.decimalDigit? mark = none := by
          rcases marked with rfl | rfl <;> decide
        rcases digits with _ | ⟨-, _ | ⟨digit, -⟩⟩
        rw [none] at digit
        cases digit
      rw [unsigned?, unmarked]
      dsimp only
      rw [if_neg present, Text.digits?_eq_some_iff.2 digits]
      rfl
    | @hexadecimal mark rest _ marked present digits =>
      have found : afterHexMark? ('0' :: mark :: rest) = some rest :=
        afterHexMark?_eq_some_iff.2 ⟨mark, marked, rfl⟩
      rw [unsigned?, found]
      cases rest with
      | nil => exact absurd rfl present
      | cons c more =>
        dsimp only
        rw [Text.digits?_eq_some_iff.2 digits]
        rfl

theorem Unsigned.head?_ne_minus {t : Text} {radix : Radix} {values : List Nat}
    (h : Unsigned t radix values) (rest : Text) : t ≠ .char '-' :: rest := by
  rintro rfl
  cases h with
  | decimal present digits =>
    have none : Text.decimalDigit? '-' = none := by decide
    rcases digits with _ | ⟨digit, -⟩
    rw [none] at digit
    cases digit

/-- A text is read as the literal that is written. -/
theorem ofText?_eq_some_iff {t : Text} {n : Numeral} : ofText? t = some n ↔ Written t n := by
  constructor
  · intro h
    unfold ofText? at h
    split at h
    · obtain ⟨⟨radix, values⟩, unsigned, rfl⟩ := Option.map_eq_some_iff.1 h
      exact .negative (unsigned?_eq_some_iff.1 unsigned)
    · obtain ⟨⟨radix, values⟩, unsigned, rfl⟩ := Option.map_eq_some_iff.1 h
      exact .positive (unsigned?_eq_some_iff.1 unsigned)
  · intro h
    cases h with
    | positive unsigned =>
      unfold ofText?
      split
      · exact absurd rfl (unsigned.head?_ne_minus _)
      · rw [unsigned?_eq_some_iff.2 unsigned]
        rfl
    | negative unsigned =>
      rw [ofText?, unsigned?_eq_some_iff.2 unsigned]
      rfl

/-! ## Characters -/

/-- A sign, a digit or the mark of hexadecimal digits. -/
def isLiteralChar (c : CodePoint) : Bool :=
  c = '-' || c = 'x' || c = 'X' || (Text.hexDigit? c).isSome || (Text.decimalDigit? c).isSome

/-- The digits of no script are blanks. -/
theorem not_isBlank_of_decimalDigit? {c : CodePoint}
    (digit : (Text.decimalDigit? c).isSome = true) : Text.isBlank c = false := by
  have apart : Text.Apart (Text.digitZeros.map fun first => (first, first + 9))
      Text.blankRanges := by
    unfold Text.Apart
    decide +kernel
  refine apart.inRanges ?_
  rw [Text.decimalDigit?, Option.isSome_map, List.find?_isSome] at digit
  obtain ⟨first, member, within⟩ := digit
  rw [Bool.and_eq_true, decide_eq_true_eq, decide_eq_true_eq] at within
  refine List.any_eq_true.2 ⟨_, List.mem_map_of_mem member, ?_⟩
  rw [Bool.and_eq_true, decide_eq_true_eq, decide_eq_true_eq]
  omega

theorem not_isBlank_of_isLiteralChar {c : CodePoint} (h : isLiteralChar c = true) :
    Text.isBlank c = false := by
  have ascii : ∀ n < 0x80, isLiteralChar (CodePoint.ofNat n) = true →
      Text.isBlank (CodePoint.ofNat n) = false := by decide +kernel
  by_cases small : c.toNat < 0x80
  · have own := ascii c.toNat small
    rw [CodePoint.ofNat_toNat] at own
    exact own h
  · apply not_isBlank_of_decimalDigit?
    have other : c ≠ '-' ∧ c ≠ 'x' ∧ c ≠ 'X' := by
      refine ⟨?_, ?_, ?_⟩ <;>
      · rintro rfl
        exact small (by decide)
    have hex : Text.hexDigit? c = none := by
      rw [Text.hexDigit?, if_neg (by omega), if_neg (by omega), if_neg (by omega)]
    simpa [isLiteralChar, other, hex] using h

/-- The characters of digits that have values are digits. -/
theorem forall_of_digits {digit? : CodePoint → Option Nat} {t : Text} {values : List Nat}
    (digits : List.Forall₂ (fun c value => digit? c = some value) t values) :
    ∀ c ∈ t, (digit? c).isSome = true := by
  have both := digits.imp fun c value read => show (digit? c).isSome = true ∧ _ from
    ⟨Option.isSome_of_eq_some read, read⟩
  exact ((List.forall₂_and_left t values).1 both).1

theorem Unsigned.literalChars {t : Text} {radix : Radix} {values : List Nat}
    (h : Unsigned t radix values) : ∀ c ∈ t, isLiteralChar c = true := by
  cases h with
  | decimal present digits =>
    intro c member
    simp [isLiteralChar, forall_of_digits digits c member]
  | hexadecimal marked present digits =>
    rw [List.forall_mem_cons, List.forall_mem_cons]
    refine ⟨by decide, ?_, fun c member => ?_⟩
    · rcases marked with rfl | rfl <;> decide
    · simp [isLiteralChar, forall_of_digits digits c member]

namespace Written

variable {t : Text} {n : Numeral}

theorem literalChars (h : Written t n) : ∀ c ∈ t, isLiteralChar c = true := by
  cases h with
  | positive unsigned => exact unsigned.literalChars
  | negative unsigned => exact List.forall_mem_cons.2 ⟨by decide, unsigned.literalChars⟩

theorem ne_nil (h : Written t n) : t ≠ [] := by
  rintro rfl
  cases h with
  | positive unsigned =>
    cases unsigned with
    | decimal present digits => exact present rfl

theorem not_mem (h : Written t n) {c : CodePoint} (other : isLiteralChar c = false) : c ∉ t := by
  intro member
  rw [h.literalChars c member] at other
  cases other

theorem solid (h : Written t n) : ∀ c ∈ t, Text.isBlank c = false := fun c member =>
  not_isBlank_of_isLiteralChar (h.literalChars c member)

theorem isToken (h : Written t n) : Text.IsToken t where
  trimmed := Text.trim_eq_self_of_solid h.solid
  single := h.not_mem (by decide)

theorem ofToken?_eq (h : Written t n) : ofToken? t = some n := by
  rw [ofToken?, h.isToken.trimmed, ofText?_eq_some_iff.2 h]

theorem readInteger_eq (written : Written t n) : readInteger t = n.convert := by
  rw [readInteger, written.ofToken?_eq]

theorem readInteger_eq_ok (written : Written t n) (short : n.isOverlong = false) :
    readInteger t = .ok n.value := by
  rw [written.readInteger_eq, convert, short]
  rfl

theorem isInteger (written : Written t n) : isInteger t = true := by
  rw [MipsImage.isInteger, written.ofToken?_eq]
  rfl

end Written

end Numeral

end MipsImage
