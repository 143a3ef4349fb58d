import MipsImage.Image
import MipsImage.Placement
import MipsImage.Segments

/-!
# Assembling one source

The lines are expanded to blocks in the order of the image, the blocks give every label its address,
and with these they are encoded. A failure of any step stops the source. What was warned about up to
there is kept, and the blocks and the symbol table are kept if they were complete.
-/
set_option autoImplicit false

namespace MipsImage

/-- What is known after a source was assembled, well or not. -/
structure Assembly where
  blocks : List Block
  symbols : SymbolTable
  warnings : List Warning
  image : Except (Failure LocatedFault) Bytes

/-- Assembles lines in normal form into an image of limited size. -/
def Assembly.ofLines (limit : Option Int) (lines : List SourceLine) : Assembly :=
  let expansion := Block.ofLines limit (Segments.ofLines lines).inOrder
  match expansion.result with
  | .error failure => ⟨[], [], expansion.notes, .error failure⟩
  | .ok blocks =>
    match SymbolTable.ofBlocks blocks with
    | .error failure => ⟨blocks, [], expansion.notes, .error failure⟩
    | .ok symbols =>
      let encoding := Image.ofBlocks symbols blocks
      ⟨blocks, symbols, expansion.notes ++ encoding.notes, encoding.result⟩

end MipsImage
