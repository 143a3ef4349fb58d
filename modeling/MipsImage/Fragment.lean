import MipsImage.Bytes
import MipsImage.Encoding

/-!
# Fragments

A fragment is a piece of an image whose size is known before any label has an address: one
instruction, given bytes, reserved zero bytes, or the padding up to a boundary.
-/
set_option autoImplicit false

namespace MipsImage

inductive Fragment where
  /-- One word; `half` is set for the two words of `la`. -/
  | instruction (text : Text) (half : Option Half)
  | data (bytes : Bytes)
  | space (count : Nat)
  | align (boundary : Nat)
  deriving DecidableEq, Repr

/-- The least multiple of `boundary` from `offset` on. -/
def alignUp (offset boundary : Int) : Int := boundary * -(Int.fdiv (-offset) boundary)

/-- The address after a fragment that is placed at `address`. -/
def Fragment.endFrom (address : Int) : Fragment → Int
  | instruction _ _ => address + 4
  | data bytes => address + bytes.length
  | space count => address + count
  | align boundary => alignUp address boundary

end MipsImage
