/-!
# Widths of integer data

The three sizes in which integer data can be laid out.
-/
set_option autoImplicit false

namespace MipsImage

inductive Width where
  | byte
  | half
  | word
  deriving DecidableEq, Repr

namespace Width

def byteCount : Width → Nat
  | byte => 1
  | half => 2
  | word => 4

def bitCount (w : Width) : Nat := 8 * w.byteCount

def name : Width → String
  | byte => "byte"
  | half => "half"
  | word => "word"

end Width

end MipsImage
