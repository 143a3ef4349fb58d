import MipsImage.Block

/-!
# Images

The image is the bytes of the blocks in their order: a big-endian word for each instruction, given
bytes as they are, and zeros for reserved bytes and for padding.
-/
set_option autoImplicit false

namespace MipsImage

namespace Image

/-- How many bytes a fragment adds to those `emitted` before it, on which padding depends. -/
def addedSize (emitted : Nat) : Fragment → Nat
  | .instruction _ _ => 4
  | .data bytes => bytes.length
  | .space count => count
  | .align boundary => (alignUp emitted boundary - emitted).toNat

/-- The bytes of a fragment other than an instruction, which has this size. -/
def filling (size : Nat) : Fragment → Bytes
  | .data bytes => bytes
  | _ => Bytes.zeros size

/-- The bytes of blocks that come after `emitted` bytes. Sizes are counted ahead of the bytes, so
that no zeros are laid out in vain when a later block fails. -/
def ofBlocksFrom (symbols : SymbolTable) (emitted : Nat) : List Block → Assembling Bytes
  | [] => pure []
  | block :: rest => do
    let size := addedSize emitted block.fragment
    match block.fragment with
    | .instruction text half => do
      let word ← Outcome.atLine block.line (encode symbols half text)
      let more ← ofBlocksFrom symbols (emitted + size) rest
      pure (Bytes.bigEndian 4 word.toNat ++ more)
    | fragment => do
      let more ← ofBlocksFrom symbols (emitted + size) rest
      pure (filling size fragment ++ more)

def ofBlocks (symbols : SymbolTable) (blocks : List Block) : Assembling Bytes :=
  ofBlocksFrom symbols 0 blocks

end Image

end MipsImage
