import MipsImage.Text.WordCharacter

/-!
# Labels

A label is a name that opens with an ASCII letter or an underscore and goes on with word characters
and dots. A header declares the label that it names: in raw source with any blanks around its
colon, in a normalised line with a colon that a space or the end of the line follows.
-/
set_option autoImplicit false

namespace MipsImage.Label

def isFirst (c : CodePoint) : Bool := c.isAlpha || c = '_'

def isNext (c : CodePoint) : Bool := Text.isWordChar c || c = '.'

/-- The longest name that a text opens with, and what follows it. -/
def scan? : Text → Option (Text × Text)
  | [] => none
  | c :: rest =>
    if isFirst c then some (c :: rest.takeWhile isNext, rest.dropWhile isNext) else none

/-- The whole text is a name, a closing line feed aside. -/
def isName (t : Text) : Bool :=
  match scan? t with
  | some (_, rest) => Text.isAtEnd rest
  | none => false

/-! ## Headers -/

/-- The header that raw source opens with: its name and what follows its colon and blanks. -/
def looseHeader? (t : Text) : Option (Text × Text) :=
  match scan? t with
  | some (name, rest) =>
    match Text.trimStart rest with
    | ':' :: rest => some (name, Text.trimStart rest)
    | _ => none
  | none => none

/-- The header that a normalised line opens with: its name and what follows its colon and space. -/
def header? (t : Text) : Option (Text × Text) :=
  match scan? t with
  | some (name, ':' :: ' ' :: rest) => some (name, rest)
  | some (name, ':' :: rest) => if Text.isAtEnd rest then some (name, rest) else none
  | _ => none

/-- What is left after a header is shorter than what there was before it. -/
theorem scan?_length {t name rest : Text} (h : scan? t = some (name, rest)) :
    rest.length < t.length := by
  cases t with
  | nil => simp [scan?] at h
  | cons c r =>
    simp only [scan?] at h
    split at h
    · simp only [Option.some.injEq, Prod.mk.injEq] at h
      have := (List.dropWhile_suffix isNext (l := r)).length_le
      simp only [← h.2, List.length_cons]
      omega
    · simp at h

theorem looseHeader?_length {t name rest : Text} (h : looseHeader? t = some (name, rest)) :
    rest.length < t.length := by
  simp only [looseHeader?] at h
  split at h
  · rename_i name' rest' hs
    have hscan := scan?_length hs
    split at h
    · rename_i rest'' ht
      simp only [Option.some.injEq, Prod.mk.injEq] at h
      have h₁ := (List.dropWhile_suffix Text.isBlank (l := rest')).length_le
      have h₂ := (List.dropWhile_suffix Text.isBlank (l := rest'')).length_le
      simp only [Text.trimStart] at ht
      rw [ht, List.length_cons] at h₁
      simp only [← h.2, Text.trimStart]
      omega
    · simp at h
  · simp at h

theorem header?_length {t name rest : Text} (h : header? t = some (name, rest)) :
    rest.length < t.length := by
  simp only [header?] at h
  split at h
  · rename_i hs
    have hscan := scan?_length hs
    simp only [Option.some.injEq, Prod.mk.injEq] at h
    simp only [← h.2, List.length_cons] at hscan ⊢
    omega
  · rename_i hs
    have hscan := scan?_length hs
    split at h
    · simp only [Option.some.injEq, Prod.mk.injEq] at h
      simp only [← h.2, List.length_cons] at hscan ⊢
      omega
    · simp at h
  · simp at h

/-- The names of all headers that raw source opens with, and what follows the last one. -/
def splitLoose (t : Text) : List Text × Text :=
  match _h : looseHeader? t with
  | some (name, rest) =>
    let (names, body) := splitLoose rest
    (name :: names, body)
  | none => ([], t)
termination_by t.length
decreasing_by exact looseHeader?_length _h

/-- The names of all headers that a normalised line opens with, and what follows the last one. -/
def split (t : Text) : List Text × Text :=
  match _h : header? t with
  | some (name, rest) =>
    let (names, body) := split rest
    (name :: names, body)
  | none => ([], t)
termination_by t.length
decreasing_by exact header?_length _h

end MipsImage.Label
