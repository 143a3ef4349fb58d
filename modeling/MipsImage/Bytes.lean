/-!
# Bytes

Images and string data are lists of bytes. Integers are laid out with their most significant byte
first, and bytes are shown as two lower-case hexadecimal digits each.
-/
set_option autoImplicit false

namespace MipsImage

abbrev Bytes := List UInt8

namespace Bytes

/-- The last `width` base-256 digits of `n`, most significant first. -/
def bigEndian : Nat → Nat → Bytes
  | 0, _ => []
  | width + 1, n => bigEndian width (n / 256) ++ [UInt8.ofNat n]

def zeros (count : Nat) : Bytes := List.replicate count 0

def hexDigits (b : UInt8) : List Char :=
  [Nat.digitChar (b.toNat / 16), Nat.digitChar (b.toNat % 16)]

def toHex (bytes : Bytes) : String := String.ofList (bytes.flatMap hexDigits)

end Bytes

end MipsImage
