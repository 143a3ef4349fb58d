import MipsImage.Text.Basic

/-!
# Lines of a text

A line ends at any of Unicode's mandatory breaks, the separators of files, groups and records
included; carriage return and line feed together are one break. A break at the very end opens no
further line, so the empty text has no lines at all. Text that is read from a file has only line
feeds for the breaks of the common systems.
-/
set_option autoImplicit false

namespace MipsImage.Text

def lineEndRanges : List (Nat × Nat) :=
  [(0xA, 0xD), (0x1C, 0x1E), (0x85, 0x85), (0x2028, 0x2029)]

def isLineEnd (c : CodePoint) : Bool := inRanges lineEndRanges c

def lines : Text → List Text
  | [] => []
  | '\r' :: '\n' :: rest => [] :: lines rest
  | c :: rest =>
    if isLineEnd c then [] :: lines rest
    else match lines rest with
      | [] => [[c]]
      | line :: more => (c :: line) :: more

/-- The text with a line feed for every carriage return, and for one with a line feed after it. -/
def universalNewlines : Text → Text
  | [] => []
  | '\r' :: '\n' :: rest => '\n' :: universalNewlines rest
  | c :: rest => (if c = '\r' then '\n' else c) :: universalNewlines rest

end MipsImage.Text
