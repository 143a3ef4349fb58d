import Mathlib.Algebra.Group.Nat.Defs
import MipsImage.Numeral
import MipsImage.Proofs.Tokens

/-!
# Numbers written out

Expansion writes numbers into the text of instructions, from which the encoder reads them again. A
number that is written out is a token of decimal digits with its value, as many as the number needs.
-/
set_option autoImplicit false

namespace MipsImage

namespace Numeral

theorem decimalDigit?_digitChar {d : Nat} (h : d < 10) :
    Text.decimalDigit? (Nat.digitChar d) = some d := by
  revert d
  decide

theorem decimalText_of_lt {n : Nat} (h : n < 10) : decimalText n = [.char (Nat.digitChar n)] := by
  rw [decimalText, if_pos h]

theorem decimalText_of_ge {n : Nat} (h : 10 ≤ n) :
    decimalText n = decimalText (n / 10) ++ [.char (Nat.digitChar (n % 10))] := by
  rw [decimalText, if_neg (Nat.not_lt.2 h)]

theorem digits?_append {digit? : CodePoint → Option Nat} {a b : Text} {front back : List Nat}
    (ha : Text.digits? digit? a = some front) (hb : Text.digits? digit? b = some back) :
    Text.digits? digit? (a ++ b) = some (front ++ back) := by
  induction a generalizing front with
  | nil =>
    cases ha
    exact hb
  | cons c rest ih =>
    rw [Text.digits?] at ha
    obtain ⟨d, hd, ha⟩ := Option.bind_eq_some_iff.1 ha
    obtain ⟨digits, hdigits, ha⟩ := Option.bind_eq_some_iff.1 ha
    cases ha
    rw [List.cons_append, Text.digits?, hd, ih hdigits]
    rfl

/-- A number that is written out has digits with its value, one for each character. -/
theorem digits?_decimalText (n : Nat) :
    ∃ digits, Text.digits? Text.decimalDigit? (decimalText n) = some digits ∧
      digits.foldl (fun value digit => value * 10 + digit) 0 = n ∧
      ∀ k, 0 < k → n < 10 ^ k → digits.length ≤ k := by
  have single {d : Nat} (h : d < 10) :
      Text.digits? Text.decimalDigit? [Nat.digitChar d] = some [d] := by
    rw [Text.digits?, decimalDigit?_digitChar h]
    rfl
  induction n using Nat.strongRecOn with
  | ind n ih =>
    by_cases h : n < 10
    · rw [decimalText_of_lt h]
      exact ⟨[n], single h, by simp, fun k hk _ => hk⟩
    · rw [Nat.not_lt] at h
      obtain ⟨front, hfront, value, length⟩ := ih (n / 10) (by omega)
      rw [decimalText_of_ge h]
      refine ⟨_, digits?_append hfront (single (Nat.mod_lt n (by decide))), ?_, ?_⟩
      · rw [List.foldl_append, value]
        simp only [List.foldl_cons, List.foldl_nil]
        omega
      · intro k hk below
        obtain ⟨k, rfl⟩ := Nat.exists_eq_succ_of_ne_zero hk.ne'
        have more : 0 < k := by
          apply Nat.pos_of_ne_zero
          rintro rfl
          exact absurd (below.trans_eq (Nat.pow_one 10)) (Nat.not_lt.2 h)
        have shorter := length k more (by rw [Nat.pow_succ] at below; omega)
        rw [List.length_append, List.length_singleton]
        omega

theorem decimalText_ne_nil (n : Nat) : decimalText n ≠ [] := by
  by_cases h : n < 10
  · rw [decimalText_of_lt h]
    exact List.cons_ne_nil _ _
  · rw [decimalText_of_ge (Nat.not_lt.1 h)]
    simp

theorem mem_decimalText {n : Nat} {c : CodePoint} (h : c ∈ decimalText n) :
    ∃ d < 10, c = Nat.digitChar d := by
  induction n using Nat.strongRecOn with
  | ind n ih =>
    by_cases small : n < 10
    · rw [decimalText_of_lt small] at h
      exact ⟨n, small, List.mem_singleton.1 h⟩
    · rw [decimalText_of_ge (Nat.not_lt.1 small)] at h
      rcases List.mem_append.1 h with h | h
      · exact ih (n / 10) (by omega) h
      · exact ⟨n % 10, Nat.mod_lt n (by decide), List.mem_singleton.1 h⟩

/-- Nothing but digits stands in a number that is written out. -/
theorem decimalText_forall {p : CodePoint → Bool} (h : ∀ d < 10, p (Nat.digitChar d) = true)
    (n : Nat) : ∀ c ∈ decimalText n, p c = true := by
  intro c member
  obtain ⟨d, hd, rfl⟩ := mem_decimalText member
  exact h d hd

theorem isToken_decimalText (n : Nat) : Text.IsToken (decimalText n) := by
  constructor
  · apply Text.trim_eq_self_of_solid
    intro c member
    have := decimalText_forall (p := fun c => !Text.isBlank c) (by decide) n c member
    simpa using this
  · intro comma
    have := decimalText_forall (p := fun c => c ≠ ',') (by decide) n _ comma
    simp at this

theorem ofToken?_decimalText (n : Nat) :
    ∃ digits, ofToken? (decimalText n) = some ⟨false, .decimal, digits⟩ ∧
      digits.foldl (fun value digit => value * 10 + digit) 0 = n ∧
      ∀ k, 0 < k → n < 10 ^ k → digits.length ≤ k := by
  obtain ⟨digits, hdigits, value, length⟩ := digits?_decimalText n
  refine ⟨digits, ?_, value, length⟩
  have plain (c : CodePoint) (h : ∀ d < 10, Nat.digitChar d ≠ c) : c ∉ decimalText n := by
    intro member
    obtain ⟨d, hd, rfl⟩ := mem_decimalText member
    exact h d hd rfl
  have minus := plain '-' (by decide)
  have mark : afterHexMark? (decimalText n) = none := by
    have small := plain 'x' (by decide)
    have large := plain 'X' (by decide)
    unfold afterHexMark?
    split
    · rename_i h
      simp [h] at small
    · rename_i h
      simp [h] at large
    · rfl
  rw [ofToken?, (isToken_decimalText n).trimmed, ofText?]
  · rw [unsigned?, mark]
    simp only [decimalText_ne_nil, if_false, hdigits]
    rfl
  · intro rest h
    rw [h] at minus
    exact minus (List.mem_cons_self ..)

/-- A number that is written out is read back unless it has too many digits. -/
theorem readInteger_decimalText {n : Nat} (h : n < 10 ^ maxDecimalDigits) :
    readInteger (decimalText n) = .ok (n : Int) := by
  obtain ⟨digits, hdigits, value, length⟩ := ofToken?_decimalText n
  have short : isOverlong ⟨false, .decimal, digits⟩ = false := by
    rw [isOverlong, Bool.and_eq_false_iff]
    exact .inr (decide_eq_false (Nat.not_lt.2 (length maxDecimalDigits (by decide) h)))
  rw [readInteger, hdigits]
  simp only [convert, short, Numeral.value, magnitude, Radix.base, value]
  rfl

end Numeral

end MipsImage
