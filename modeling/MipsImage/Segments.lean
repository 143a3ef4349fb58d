import MipsImage.SourceLine

/-!
# Segments

A source is divided into a text and a data segment by directives that stand on lines of their own
and may alternate at will. In the image all lines of the text segment come before those of the data
segment, each in the order of the source.
-/
set_option autoImplicit false

namespace MipsImage

/-- A declaration of a global label, which asks for nothing. -/
def isGlobalDeclaration (t : Text) : Bool :=
  ".globl ".toText.isPrefixOf t || ".global ".toText.isPrefixOf t

structure Segments where
  text : List SourceLine
  data : List SourceLine
  deriving DecidableEq, Repr

namespace Segments

/-- The lines of both segments, from a place that is in the data segment or not. -/
def ofLinesFrom (inData : Bool) : List SourceLine → Segments
  | [] => ⟨[], []⟩
  | line :: rest =>
    if isGlobalDeclaration line.text then ofLinesFrom inData rest
    else if line.text = ".data".toText then ofLinesFrom true rest
    else if line.text = ".text".toText then ofLinesFrom false rest
    else
      let segments := ofLinesFrom inData rest
      if inData then { segments with data := line :: segments.data }
      else { segments with text := line :: segments.text }

/-- The segments of a source, which begins in its text segment. -/
def ofLines (lines : List SourceLine) : Segments := ofLinesFrom false lines

/-- All lines in the order of the image. -/
def inOrder (s : Segments) : List SourceLine := s.text ++ s.data

end Segments

end MipsImage
