import MipsImage.Text.CodePoint

/-!
# Text

A text is the list of its code points, so that every scan is a recursion on the list. This module
holds the blanks that are trimmed and collapsed, the first and last parts of a text, joining and
order. The blanks are the characters of Unicode that separate words or lines; the zero width space
and the byte order mark are none of them.
-/
set_option autoImplicit false

namespace MipsImage

abbrev Text := List CodePoint

end MipsImage

/-- The text of a string, all of whose code points are characters. -/
def String.toText (s : String) : MipsImage.Text := s.toList.map MipsImage.CodePoint.char

namespace MipsImage.Text

/-- Membership in a table of inclusive ranges of code points. -/
def inRanges (ranges : List (Nat × Nat)) (c : CodePoint) : Bool :=
  ranges.any fun range => range.1 ≤ c.toNat && c.toNat ≤ range.2

def blankRanges : List (Nat × Nat) :=
  [(0x9, 0xD), (0x1C, 0x20), (0x85, 0x85), (0xA0, 0xA0), (0x1680, 0x1680), (0x2000, 0x200A),
   (0x2028, 0x2029), (0x202F, 0x202F), (0x205F, 0x205F), (0x3000, 0x3000)]

def isBlank (c : CodePoint) : Bool := inRanges blankRanges c

/-! ## Trimming -/

def trimStart (t : Text) : Text := t.dropWhile isBlank

/-- A text without the characters of some kind at its ends. -/
def trimOf (unwanted : CodePoint → Bool) (t : Text) : Text :=
  ((t.dropWhile unwanted).reverse.dropWhile unwanted).reverse

def trim (t : Text) : Text := trimOf isBlank t

/-! ## Cutting and joining -/

/-- The parts between the separators; a text without one is its only part. -/
def splitOn (separator : CodePoint) : Text → List Text
  | [] => [[]]
  | c :: rest =>
    if c = separator then [] :: splitOn separator rest
    else match splitOn separator rest with
      | [] => [[c]]
      | part :: parts => (c :: part) :: parts

/-- The part before the first separator and, if there is one, the part after it. -/
def cut (separator : CodePoint) : Text → Text × Option Text
  | [] => ([], none)
  | c :: rest =>
    if c = separator then ([], some rest)
    else
      let (before, after) := cut separator rest
      (c :: before, after)

def join (separator : Text) : List Text → Text
  | [] => []
  | [part] => part
  | part :: parts => part ++ separator ++ join separator parts

/-- What comes before `ending`, if the text closes with it. -/
def beforeEnd? (ending : Text) (t : Text) : Option Text :=
  if ending.isSuffixOf t then some (t.take (t.length - ending.length)) else none

/-- The part stands somewhere in the text. -/
def occursIn (part : Text) : Text → Bool
  | [] => part = []
  | c :: rest => part.isPrefixOf (c :: rest) || occursIn part rest

/-! ## Order and end -/

/-- The order by code points, where a text stands before all that it begins. -/
def atMost : Text → Text → Bool
  | [], _ => true
  | _ :: _, [] => false
  | a :: s, b :: t => if a = b then atMost s t else a.toNat < b.toNat

/-- Nothing is left, or a single line feed, which closes a text without belonging to it. -/
def isAtEnd (t : Text) : Bool := t = [] || t = [.char '\n']

end MipsImage.Text
