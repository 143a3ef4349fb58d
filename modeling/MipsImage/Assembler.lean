import MipsImage.Report

/-!
# An assembler that is used again and again

An assembler keeps the blocks, the symbols and the warnings of the file that it assembled last. A
new file replaces them all; the single steps leave the blocks and the symbols alone and add their
warnings, under the name of the last file.
-/
set_option autoImplicit false

namespace MipsImage

structure Assembler where
  limit : Option Int
  file : Option Text
  symbols : SymbolTable
  blocks : List Block
  warnings : List (Diagnostic Text)

namespace Assembler

def new (limit : Option Int) : Assembler := ⟨limit, none, [], [], []⟩

def withLimit (a : Assembler) (limit : Option Int) : Assembler := { a with limit := limit }

/-! ## Whole files -/

/-- The assembler after it assembled the lines of a file. -/
def record (a : Assembler) (file : Text) (assembly : Assembly) : Assembler where
  limit := a.limit
  file := some file
  symbols := assembly.symbols
  blocks := assembly.blocks
  warnings := assembly.warnings.map (·.report (some file))

def assembleLines (a : Assembler) (lines : List SourceLine) (file : Text) :
    Assembler × Except (Failure LocatedFault) Bytes :=
  let assembly := Assembly.ofLines a.limit lines
  (a.record file assembly, assembly.image)

def assemble (a : Assembler) (source : Text) (file : Text) :
    Assembler × Except Unconvertible (Report Text) :=
  let assembly := Assembly.ofLines a.limit (SourceLine.ofSource source)
  (a.record file assembly, assembly.report (some file))

/-! ## Single steps -/

/-- The assembler after a step with these warnings. -/
def warn (a : Assembler) (warnings : List Warning) : Assembler :=
  { a with warnings := a.warnings ++ warnings.map (·.report a.file) }

/-- Expands lines in the order in which they come, without regard to segments. -/
def expand (a : Assembler) (lines : List SourceLine) :
    Assembler × Except (Failure LocatedFault) (List Block) :=
  let expansion := Block.ofLines a.limit lines
  (a.warn expansion.notes, expansion.result)

/-- Encodes blocks with the given symbols. -/
def encode (a : Assembler) (symbols : SymbolTable) (blocks : List Block) :
    Assembler × Except (Failure LocatedFault) Bytes :=
  let encoding := Image.ofBlocks symbols blocks
  (a.warn encoding.notes, encoding.result)

end Assembler

end MipsImage
