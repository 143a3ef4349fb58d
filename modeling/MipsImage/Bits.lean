/-!
# Bits

How many values a number of bits has, the low bits of an integer in two's complement, and whether
an integer is within the range of so many bits.
-/
set_option autoImplicit false

namespace MipsImage.Bits

/-- How many values there are of so many bits. -/
def count (bits : Nat) : Nat := Nat.pow 2 bits

theorem count_pos (bits : Nat) : 0 < count bits := Nat.pow_pos (by decide)

/-- The low bits of an integer. -/
def low (bits : Nat) (value : Int) : Nat := (value % count bits).toNat

theorem low_lt (bits : Nat) (value : Int) : low bits value < count bits := by
  have positive := count_pos bits
  have below := Int.emod_lt_of_pos value (Int.natCast_pos.2 positive)
  unfold low
  omega

/-- What is left of an integer without its low bits. -/
def high (bits : Nat) (value : Nat) : Nat := value / count bits

/-- The integer is the value of so many bits without a sign. -/
def fitsUnsigned (bits : Nat) (value : Int) : Bool := 0 ≤ value && value < count bits

/-- The integer is the value of so many bits, either with a sign or without one. -/
def fits (bits : Nat) (value : Int) : Bool :=
  -(count (bits - 1) : Int) ≤ value && value < count bits

end MipsImage.Bits
