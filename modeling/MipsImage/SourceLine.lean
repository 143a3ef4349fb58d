import MipsImage.Label
import MipsImage.Quoted
import MipsImage.Text.Lines

/-!
# Source lines

A source is read line by line. What follows a `#` outside quotes is a comment; blanks outside
quoted strings are collapsed to one space, and a comma is followed by one space and preceded by
none; label headers are written `name:` and separated by one space. Lines of which nothing remains
are dropped, and the others keep the number of the line that they stood in.
-/
set_option autoImplicit false

namespace MipsImage

structure SourceLine where
  text : Text
  number : Int
  deriving DecidableEq, Repr

namespace SourceLine

/-! ## Comments -/

/-- A line up to its comment, from a place that is `inString` or not and `escaped` or not. -/
def uncommentFrom (inString escaped : Bool) : Text → Text
  | [] => []
  | c :: rest =>
    if escaped then c :: uncommentFrom inString false rest
    else if c = '\\' && inString then c :: uncommentFrom inString true rest
    else if c = '"' then c :: uncommentFrom (!inString) false rest
    else if c = '#' && !inString then []
    else c :: uncommentFrom inString false rest

/-- A line up to its comment: quotes and escapes are followed whether or not they are closed. -/
def uncomment (t : Text) : Text := uncommentFrom false false t

/-! ## Spacing -/

def beginsBlank : Text → Bool
  | [] => false
  | c :: _ => Text.isBlank c

/-- Every run of blanks becomes one space. -/
def collapse : Text → Text
  | [] => []
  | c :: rest =>
    if Text.isBlank c then
      if beginsBlank rest then collapse rest else ' ' :: collapse rest
    else c :: collapse rest

/-- Every comma loses a space before it and gets one after it. -/
def spaceCommas : Text → Text
  | [] => []
  | ' ' :: ',' :: ' ' :: rest => ',' :: ' ' :: spaceCommas rest
  | ' ' :: ',' :: rest => ',' :: ' ' :: spaceCommas rest
  | ',' :: ' ' :: rest => ',' :: ' ' :: spaceCommas rest
  | ',' :: rest => ',' :: ' ' :: spaceCommas rest
  | c :: rest => c :: spaceCommas rest

/-- The spacing of all text outside quoted strings, which stay as they are. -/
def respace (t : Text) : Text :=
  match _h : Quoted.first? t with
  | some (before, body, after) =>
    spaceCommas (collapse before) ++ .char '"' :: body ++ .char '"' :: respace after
  | none => spaceCommas (collapse t)
termination_by t.length
decreasing_by exact Quoted.first?_length _h

/-! ## Normal form -/

/-- A line with these header names and this body. -/
def write (names : List Text) (body : Text) : Text :=
  Text.join [.char ' '] (names.map (· ++ [.char ':']) ++ if body = [] then [] else [body])

/-- The header names and the body of a line without its comment. -/
def parts (t : Text) : List Text × Text :=
  Label.splitLoose (Text.trim (respace (Text.trim t)))

/-- The normal form of a raw line, empty if nothing but blanks and a comment stand there. -/
def normalise (raw : Text) : Text :=
  let (names, body) := parts (uncomment raw)
  write names body

/-- The normal forms of the lines of a source, with their numbers from one on. -/
def ofSource (source : Text) : List SourceLine :=
  ((Text.lines source).zipIdx 1).filterMap fun (raw, number) =>
    let text := normalise raw
    if text = [] then none else some ⟨text, number⟩

end SourceLine

end MipsImage
