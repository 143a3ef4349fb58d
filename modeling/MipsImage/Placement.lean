import MipsImage.Block

/-!
# Addresses of labels

Blocks are placed one after another from address zero on, and a label names the address of the
block that carries it. A label that is declared twice is refused with the lines of all its
declarations.
-/
set_option autoImplicit false

namespace MipsImage

namespace Block

/-- Every label with the line that declares it, in the order of the image. -/
def declarations (blocks : List Block) : List (Text × Int) :=
  blocks.flatMap fun block => block.labels.map (·, block.line)

/-- The lines of all declarations of a label, ascending. -/
def declaredLines (blocks : List Block) (name : Text) : List Int :=
  (((declarations blocks).filter (·.1 = name)).map Prod.snd).mergeSort

/-- Every label with its address, for blocks that are placed from `address` on. -/
def placements (address : Int) : List Block → SymbolTable
  | [] => []
  | block :: rest =>
    block.labels.map (·, address) ++ placements (block.fragment.endFrom address) rest

end Block

/-- The first name that repeats an earlier one or is among those that were `seen` before. -/
def firstRepeat? (seen : List Text) : List Text → Option Text
  | [] => none
  | name :: rest => if name ∈ seen then some name else firstRepeat? (name :: seen) rest

/-- The address of every label, unless some label is repeated; the one whose repetition comes first
in the image is at fault, in the line of its second declaration. -/
def SymbolTable.ofBlocks (blocks : List Block) : Except (Failure LocatedFault) SymbolTable :=
  let symbols := Block.placements 0 blocks
  match firstRepeat? [] (symbols.map Prod.fst) with
  | none => .ok symbols
  | some name =>
    let lines := Block.declaredLines blocks name
    .error (.fault ⟨lines[1]?.getD 0, .duplicateLabel name lines⟩)

end MipsImage
