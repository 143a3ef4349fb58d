/-!
# Code points

What a text is made of. Besides characters these are surrogates, the halves of the pairs that write
the characters beyond the first plane in sixteen bits: a surrogate that stands alone is no
character, and no UTF-8 form belongs to it, but a text can hold it all the same.
-/
set_option autoImplicit false

namespace MipsImage

inductive CodePoint where
  | char (c : Char)
  /-- The surrogate so many places after the first one. -/
  | surrogate (place : Fin 0x800)
  deriving DecidableEq, Repr

namespace CodePoint

instance : Coe Char CodePoint := ⟨char⟩

def firstSurrogate : Nat := 0xD800

def toNat : CodePoint → Nat
  | char c => c.toNat
  | surrogate place => firstSurrogate + place

/-- The code point with this number; a number beyond all of them gives that of `Char.ofNat`. -/
def ofNat (n : Nat) : CodePoint :=
  if h : firstSurrogate ≤ n ∧ n < firstSurrogate + 0x800 then
    surrogate ⟨n - firstSurrogate, by omega⟩
  else char (Char.ofNat n)

def isSurrogate : CodePoint → Bool
  | char _ => false
  | surrogate _ => true

def isAlpha : CodePoint → Bool
  | char c => c.isAlpha
  | surrogate _ => false

def isDigit : CodePoint → Bool
  | char c => c.isDigit
  | surrogate _ => false

def isAlphanum (c : CodePoint) : Bool := c.isAlpha || c.isDigit

/-- The small form of a capital of ASCII; every other code point stays. -/
def toLower : CodePoint → CodePoint
  | char c => c.toLower
  | surrogate place => surrogate place

/-! ## Numbers -/

@[simp] theorem toNat_char (c : Char) : (char c).toNat = c.toNat := rfl

theorem not_surrogate_toNat (c : Char) :
    ¬(firstSurrogate ≤ c.toNat ∧ c.toNat < firstSurrogate + 0x800) := by
  have valid := c.valid
  simp only [UInt32.isValidChar, Nat.isValidChar] at valid
  simp only [firstSurrogate, Char.toNat]
  omega

@[simp] theorem ofNat_toNat (c : CodePoint) : ofNat c.toNat = c := by
  cases c with
  | char c => rw [toNat_char, ofNat, dif_neg (not_surrogate_toNat c), Char.ofNat_toNat]
  | surrogate place =>
    have within : firstSurrogate ≤ firstSurrogate + place.val ∧
        firstSurrogate + place.val < firstSurrogate + 0x800 := by omega
    simp [ofNat, toNat, within]

theorem toNat_lt_of_isAlpha {c : CodePoint} (letter : c.isAlpha = true) : c.toNat < 0x80 := by
  cases c with
  | char c =>
    have cases : (decide (c.val ≥ 'A'.val ∧ c.val ≤ 'Z'.val) ||
        decide (c.val ≥ 'a'.val) && decide (c.val ≤ 'z'.val)) = true := letter
    simp only [Bool.or_eq_true, Bool.and_eq_true, decide_eq_true_eq, ge_iff_le,
      UInt32.le_iff_toNat_le] at cases
    rcases cases with ⟨-, upper⟩ | ⟨-, upper⟩
    · exact Nat.lt_of_le_of_lt upper (by decide)
    · exact Nat.lt_of_le_of_lt upper (by decide)
  | surrogate place => cases letter

end CodePoint

end MipsImage
