import MipsImage.Expansion
import MipsImage.SourceLine

/-!
# Blocks

A block is a fragment together with the line that it comes from and the labels that it carries. The
labels of a line go to its first block, and a line of labels alone becomes an empty piece of data,
so that they name the address of whatever follows.
-/
set_option autoImplicit false

namespace MipsImage

structure Block where
  line : Int
  labels : List Text
  fragment : Fragment
  deriving DecidableEq, Repr

/-- The address after blocks that are placed one after another from `address` on. -/
def endOf (address : Int) (blocks : List Block) : Int :=
  blocks.foldl (fun address block => block.fragment.endFrom address) address

abbrev Assembling (α : Type) := Outcome Warning (Failure LocatedFault) α

/-- What happens in one line is reported with the number of that line. -/
def Outcome.atLine {α : Type} (line : Int) (x : Encoding α) : Assembling α :=
  (x.mapNotes (Warning.mk line)).mapError (Failure.map (LocatedFault.mk line))

theorem Outcome.atLine_ok {α : Type} (line : Int) (notes : List Truncation) (value : α) :
    Outcome.atLine line ⟨notes, .ok value⟩ = ⟨notes.map (Warning.mk line), .ok value⟩ := rfl

theorem Outcome.atLine_error {α : Type} (line : Int) (notes : List Truncation)
    (failure : Failure Fault) :
    Outcome.atLine line (⟨notes, .error failure⟩ : Encoding α) =
      ⟨notes.map (Warning.mk line), .error (failure.map (LocatedFault.mk line))⟩ := rfl

theorem Outcome.atLine_eq_ok_iff {α : Type} {line : Int} {x : Encoding α}
    {warnings : List Warning} {value : α} :
    x.atLine line = ⟨warnings, .ok value⟩ ↔
      ∃ notes, x = ⟨notes, .ok value⟩ ∧ warnings = notes.map (Warning.mk line) := by
  obtain ⟨notes, result⟩ := x
  cases result with
  | error failure => simp [Outcome.atLine_error]
  | ok first =>
    rw [Outcome.atLine_ok]
    constructor
    · intro h
      cases h
      exact ⟨notes, rfl, rfl⟩
    · rintro ⟨_, h, rfl⟩
      cases h
      rfl

theorem Outcome.atLine_eq_error_iff {α : Type} {line : Int} {x : Encoding α}
    {warnings : List Warning} {failure : Failure LocatedFault} :
    x.atLine line = ⟨warnings, .error failure⟩ ↔
      ∃ notes cause, x = ⟨notes, .error cause⟩ ∧ warnings = notes.map (Warning.mk line) ∧
        failure = cause.map (LocatedFault.mk line) := by
  obtain ⟨notes, result⟩ := x
  cases result with
  | ok value => simp [Outcome.atLine_ok]
  | error cause =>
    rw [Outcome.atLine_error]
    constructor
    · intro h
      cases h
      exact ⟨notes, cause, rfl, rfl, rfl⟩
    · rintro ⟨_, _, h, rfl, rfl⟩
      cases h
      rfl

theorem Outcome.atLine_bind {α β : Type} (line : Int) (x : Encoding α) (f : α → Encoding β) :
    (x.bind f).atLine line = (x.atLine line).bind fun value => (f value).atLine line := by
  obtain ⟨notes, result⟩ := x
  cases result with
  | error failure => rfl
  | ok value =>
    rw [Outcome.atLine_ok]
    simp only [Outcome.bind, Outcome.atLine, Outcome.mapNotes, Outcome.mapError, List.map_append]

namespace Block

/-- The fragments of a line as blocks, the first of which carries the labels of the line. -/
def ofFragments (line : Int) (labels : List Text) : List Fragment → List Block
  | [] => []
  | first :: rest => ⟨line, labels, first⟩ :: rest.map fun fragment => ⟨line, [], fragment⟩

/-- The blocks of one line. -/
def ofLine (limit : Option Int) (line : SourceLine) : Assembling (List Block) := do
  let (labels, body) := Label.split line.text
  let fragments ←
    if body = [] then pure [Fragment.data []]
    else Outcome.atLine line.number (expandLine limit body)
  pure (ofFragments line.number labels fragments)

/-- An image that ends at an address must not be larger than the limit. -/
def checkLimit (limit : Option Int) (line address : Int) : Assembling PUnit :=
  match limit with
  | some most =>
    if most < address then Outcome.fail (.fault ⟨line, .imageTooLarge most⟩) else Outcome.ok ⟨⟩
  | none => Outcome.ok ⟨⟩

/-- The blocks of lines that are placed from `address` on. -/
def ofLinesFrom (limit : Option Int) (address : Int) : List SourceLine → Assembling (List Block)
  | [] => pure []
  | line :: rest => do
    let blocks ← ofLine limit line
    let next := endOf address blocks
    checkLimit limit line.number next
    let more ← ofLinesFrom limit next rest
    pure (blocks ++ more)

/-- The blocks of lines in their order; the first line after which the image would be larger than
the limit is refused. -/
def ofLines (limit : Option Int) (lines : List SourceLine) : Assembling (List Block) :=
  ofLinesFrom limit 0 lines

end Block

end MipsImage
