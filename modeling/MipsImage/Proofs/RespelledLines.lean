import MipsImage.Proofs.RelabelledLines
import MipsImage.Proofs.Respelling
import MipsImage.Proofs.SourceLines

/-!
# Other spellings of lines

In the body of a line the mnemonic can be written in other letters, and every operand between two
commas in another spelling, with the blanks around it. The line keeps its headers and its segment,
is read as the same instruction or directive, and becomes the same fragments but for the spelling of
their operands.
-/
set_option autoImplicit false

namespace MipsImage

/-! ## Respelled bodies -/

namespace Respelling

/-- The first word of a body: the letters of a mnemonic may change, and what begins with a point is
no mnemonic. -/
def Word (word new : Text) : Prop :=
  new = word ∨ word.head? ≠ some '.' ∧ Text.SameLetters word new

/-- A part between commas, with another spelling between the blanks at its ends. -/
def Piece (piece new : Text) : Prop :=
  ∃ token, Token.Respells (Text.trim piece) token ∧ new = Text.mapCore (fun _ => token) piece

/-- The body of a line: a word, or a word and what follows its space. Strings have no other
spelling. -/
inductive Body : Text → Text → Prop
  | word {word new : Text} (whole : .char ' ' ∉ word) (respelled : Word word new) : Body word new
  | operands {word new rest : Text} {pieces : List Text} (whole : .char ' ' ∉ word)
    (respelled : Word word new)
    (unquoted : word ≠ Directive.ascii.name ∧ word ≠ Directive.asciiz.name)
    (operands : List.Forall₂ Piece (Text.splitOn (.char ',') rest) pieces) :
    Body (word ++ .char ' ' :: rest) (new ++ .char ' ' :: Text.join [.char ','] pieces)

end Respelling

/-- A line with the same headers and another spelling of its body. -/
inductive SourceLine.Respells : SourceLine → SourceLine → Prop
  | same (line : SourceLine) : Respells line line
  | body {line : SourceLine} {names : List Text} {body new : Text}
    (headers : Label.Headers line.text names body) (respelled : Respelling.Body body new) :
    Respells line ⟨SourceLine.write names new, line.number⟩

/-! ## Words -/

namespace Respelling

namespace Word

variable {word new : Text}

theorem sameLetters (respelled : Word word new) : Text.SameLetters word new := by
  rcases respelled with rfl | ⟨-, same⟩
  · exact .refl _
  · exact same

theorem whole (respelled : Word word new) (whole : .char ' ' ∉ word) : .char ' ' ∉ new :=
  fun member => whole ((respelled.sameLetters.mem_iff (by decide)).1 member)

/-- Only a word that stays as it is begins with a point. -/
theorem eq_or_no_point (respelled : Word word new) :
    new = word ∨ word.head? ≠ some '.' ∧ new.head? ≠ some '.' := by
  rcases respelled with same | ⟨point, same⟩
  · exact .inl same
  · exact .inr ⟨point, fun other => point ((same.head?_eq_some_iff (by decide)).1 other)⟩

end Word

/-! ## Pieces -/

namespace Piece

variable {piece new : Text}

theorem token (respelled : Piece piece new) (single : .char ',' ∉ piece) :
    Token.Respells (Text.trim piece) (Text.trim new) := by
  obtain ⟨token, respells, rfl⟩ := respelled
  rwa [Text.trim_mapCore,
    (Token.interchange_respells.token respells (Text.isToken_trim single)).trimmed]

theorem single (respelled : Piece piece new) (single : .char ',' ∉ piece) : .char ',' ∉ new := by
  obtain ⟨token, respells, rfl⟩ := respelled
  intro comma
  rcases Text.mem_mapCore comma with outside | inside
  · exact single outside
  · exact (Token.interchange_respells.token respells (Text.isToken_trim single)).single inside

theorem mem_of_isBlank (respelled : Piece piece new) {c : CodePoint} (blank : Text.isBlank c = true)
    (member : c ∈ new) : c ∈ piece := by
  obtain ⟨token, respells, rfl⟩ := respelled
  rcases Text.mem_mapCore member with outside | inside
  · exact outside
  · exact (Text.trim_sublist piece).subset (respells.mem_of_isBlank blank inside)

end Piece

section Operands
variable {rest : Text} {pieces : List Text}
  (operands : List.Forall₂ Piece (Text.splitOn ',' rest) pieces)
include operands

theorem pieces_ne_nil : pieces ≠ [] := by
  rintro rfl
  exact Text.splitOn_ne_nil rest (List.forall₂_nil_right_iff.1 operands)

theorem single_of_mem_pieces : ∀ piece ∈ pieces, .char ',' ∉ piece := by
  intro piece member
  obtain ⟨old, own, respelled⟩ := exists_mem_of_forall₂ operands member
  exact respelled.single (Text.not_mem_of_mem_splitOn own)

theorem splitOn_join_pieces : Text.splitOn ',' (Text.join [','] pieces) = pieces :=
  Text.splitOn_join (pieces_ne_nil operands) (single_of_mem_pieces operands)

theorem forall₂_respells :
    List.Forall₂ Token.Respells ((Text.splitOn ',' rest).map Text.trim)
      (pieces.map Text.trim) := by
  rw [List.forall₂_map_left_iff, List.forall₂_map_right_iff]
  have both := (List.forall₂_and_left _ _).2 ⟨fun _ => Text.not_mem_of_mem_splitOn, operands⟩
  exact both.imp fun _ _ respelled => respelled.2.token respelled.1

/-- Operands in another spelling are not all gone. -/
theorem map_trim_pieces_ne (present : rest.rdropWhile Text.isBlank ≠ []) :
    pieces.map Text.trim ≠ [[]] := by
  rw [Ne, Text.rdropWhile_eq_nil_iff] at present
  have tokens := forall₂_respells operands
  intro empty
  rw [empty, List.forall₂_cons_right_iff] at tokens
  obtain ⟨token, _, respells, none, only⟩ := tokens
  rw [List.forall₂_nil_right_iff.1 none, Token.interchange_respells.empty respells |>.1 rfl] at only
  exact present only

theorem join_pieces_ne_nil (present : rest.rdropWhile Text.isBlank ≠ []) :
    Text.join [','] pieces ≠ [] := by
  intro empty
  refine map_trim_pieces_ne operands present ?_
  rw [← splitOn_join_pieces operands, empty]
  rfl

theorem unbroken_join_pieces (unbroken : .char '\n' ∉ rest) :
    .char '\n' ∉ Text.join [.char ','] pieces := by
  have feed_ne_comma : CodePoint.char '\n' ≠ .char ',' := by decide
  rw [← Text.exists_mem_splitOn_iff feed_ne_comma, splitOn_join_pieces operands]
  rintro ⟨piece, member, feed⟩
  obtain ⟨part, own, respelled⟩ := exists_mem_of_forall₂ operands member
  exact unbroken ((Text.exists_mem_splitOn_iff feed_ne_comma).1
    ⟨part, own, respelled.mem_of_isBlank (by decide) feed⟩)

end Operands

/-! ## Instructions -/

namespace Body

variable {body new : Text}

/-- A body in another spelling is read as the same instruction. -/
theorem instruction_alike (respelled : Body body new) (trimmed : Text.trim body = body) :
    Instruction.Alike Token.Respells (Instruction.ofText body) (Instruction.ofText new) := by
  cases respelled with
  | word whole respelled =>
    have same := respelled.sameLetters
    rw [Instruction.ofText, Instruction.ofText, trimmed, same.trimmed trimmed,
      Text.cut_of_not_mem whole, Text.cut_of_not_mem (respelled.whole whole)]
    exact ⟨same.toLower_eq, .nil⟩
  | operands whole respelled unquoted operands =>
    have same := respelled.sameLetters
    obtain ⟨begins, present⟩ := Instruction.trimmed_around_space trimmed
    rw [Instruction.ofText_append_space whole begins present,
      Instruction.ofText_join (respelled.whole whole) ((same.append [' ']).begins begins)
        (pieces_ne_nil operands) (single_of_mem_pieces operands)
        (map_trim_pieces_ne operands present)]
    exact ⟨same.toLower_eq, forall₂_respells operands⟩

end Body

end Respelling

/-! ## Directives -/

namespace Directive

section Integers
variable {R : Text → Text → Prop} (interchange : Interchange R)
include interchange

theorem datum_refines (width : Width) {token new : Text} (alike : R token new) :
    (datum width token).Refines (Truncation.Alike R) Eq (datum width new) := by
  unfold datum
  by_cases integer : isInteger token = true
  · simp only [if_pos integer]
    cases read : readInteger token with
    | error failure => exact Outcome.refines_fail _ _
    | ok value =>
      have same := interchange.integer alike read
      simp only [if_pos (isInteger_of_readInteger same), same]
      have kept : ∀ other, (Except.ok value : Except (Failure Fault) Int) = .ok other →
          (Except.ok value : Except (Failure Fault) Int) = .ok other := fun _ => id
      refine (Outcome.refines_ofExcept kept).bind ?_
      rintro value _ rfl
      split
      · exact Outcome.refines_ok rfl
      · exact Outcome.refines_noting ⟨rfl, alike⟩ rfl
  · simp only [if_neg integer]
    exact Outcome.refines_fail _ _

theorem data_refines (width : Width) {tokens others : List Text}
    (alike : List.Forall₂ R tokens others) :
    (data width tokens).Refines (Truncation.Alike R) Eq (data width others) := by
  induction alike with
  | nil => exact Outcome.refines_ok rfl
  | cons first _ ih =>
    refine (datum_refines interchange width first).bind ?_
    rintro bytes _ rfl
    refine ih.bind ?_
    rintro more _ rfl
    exact Outcome.refines_ok rfl

omit interchange in
/-- There is one token in an integer, because there is no comma. -/
theorem token_of_isInteger {body new : Text} (integer : isInteger body = true)
    (alike : List.Forall₂ R ((Text.splitOn ',' body).map Text.trim)
      ((Text.splitOn (.char ',') new).map Text.trim)) : R (Text.trim body) (Text.trim new) := by
  have single : .char ',' ∉ body := not_mem_of_isInteger integer (by decide) (by decide)
  rw [Text.splitOn_of_not_mem single, List.map_singleton, List.forall₂_cons_left_iff] at alike
  obtain ⟨token, _, first, none, tokens⟩ := alike
  rw [List.forall₂_nil_left_iff.1 none, List.map_eq_singleton_iff] at tokens
  obtain ⟨part, only, rfl⟩ := tokens
  have whole : Text.join [','] (Text.splitOn ',' new) = new := Text.join_splitOn new
  rw [only, Text.join] at whole
  rwa [← whole]

/-- An exponent in another spelling is the same one. -/
theorem powerOfTwo_of_alike {limit : Option Int} {body new : Text} {size : Nat}
    (alike : List.Forall₂ R ((Text.splitOn ',' body).map Text.trim)
      ((Text.splitOn ',' new).map Text.trim)) (h : powerOfTwo limit body = .ok size) :
    powerOfTwo limit new = .ok size := by
  have trimmed {t : Text} {value : Int} :
      readInteger (Text.trim t) = .ok value ↔ readInteger t = .ok value := by
    rw [readInteger_eq_ok_iff, readInteger_eq_ok_iff, Numeral.ofToken?, Numeral.ofToken?,
      Text.trim_trim]
  obtain ⟨exponent, read, known, fits⟩ := powerOfTwo_eq_ok_iff.1 h
  have token := token_of_isInteger (isInteger_of_readInteger read) alike
  exact powerOfTwo_eq_ok_iff.2
    ⟨exponent, trimmed.1 (interchange.integer token (trimmed.2 read)), known, fits⟩

/-- A directive with other integers that are read alike stands for the same data. -/
theorem expand_refines (limit : Option Int) {d : Directive}
    (unquoted : d ≠ ascii ∧ d ≠ asciiz) {body new : Text}
    (alike : List.Forall₂ R ((Text.splitOn ',' body).map Text.trim)
      ((Text.splitOn ',' new).map Text.trim)) :
    (d.expand limit body).Refines (Truncation.Alike R) Eq (d.expand limit new) := by
  cases d with
  | ascii => exact absurd rfl unquoted.1
  | asciiz => exact absurd rfl unquoted.2
  | integers width =>
    refine (data_refines interchange width alike).bind ?_
    rintro bytes _ rfl
    exact Outcome.refines_ok rfl
  | space | align =>
    exact put_refines (fun _ => powerOfTwo_of_alike interchange alike) _

end Integers

end Directive

/-! ## Bodies -/

theorem expandInstruction_refines {S : Truncation → Truncation → Prop} {R : Text → Text → Prop}
    (interchange : Interchange R) {t new : Text}
    (alike : Instruction.Alike R (Instruction.ofText t) (Instruction.ofText new)) :
    (Outcome.ofExcept (expandInstruction t) : Encoding (List Fragment)).Refines S
      (List.Forall₂ (Fragment.Alike R))
      (Outcome.ofExcept (expandInstruction new) : Encoding _) := by
  intro notes fragments h
  obtain ⟨expanded, rfl⟩ := Outcome.ofExcept_eq_ok_iff.1 h
  obtain ⟨after, hafter, related⟩ := expandInstruction_alike interchange alike expanded
  exact ⟨[], after, Outcome.ofExcept_eq_ok_iff.2 ⟨hafter, rfl⟩, .nil, related⟩

namespace Respelling.Body

variable {body new : Text}

theorem eq_nil_iff (respelled : Body body new) : new = [] ↔ body = [] := by
  cases respelled with
  | word whole respelled => exact respelled.sameLetters.eq_nil_iff
  | operands whole respelled unquoted operands => simp

/-- In another spelling a body opens with no header either. -/
theorem bare (respelled : Body body new) (bare : ∀ name rest, ¬Label.Header body name rest) :
    ∀ name rest, ¬Label.Header new name rest := by
  intro name rest header
  cases respelled with
  | word whole respelled =>
    obtain ⟨name, rest, header⟩ := respelled.sameLetters.header header
    exact bare name rest header
  | @operands _ _ operands _ whole respelled =>
    obtain ⟨_, kept⟩ := SourceLine.exists_header_of_header (x := operands) header
    obtain ⟨name, rest, header⟩ := (respelled.sameLetters.append (' ' :: operands)).header kept
    exact bare name rest header

/-- What can be a directive is the same up to a space. -/
theorem eq_or_space_or_no_point (respelled : Body body new) : new = body ∨
    (∃ front x y, body = front ++ .char ' ' :: x ∧ new = front ++ .char ' ' :: y) ∨
    body.head? ≠ some '.' ∧ new.head? ≠ some '.' := by
  have behind {word : Text} (point : word.head? ≠ some (.char '.')) (rest : Text) :
      (word ++ .char ' ' :: rest).head? ≠ some (.char '.') := by
    cases word with
    | nil => exact nofun
    | cons c more => exact point
  cases respelled with
  | word whole respelled => exact respelled.eq_or_no_point.imp_right .inr
  | operands whole respelled unquoted operands =>
    rcases respelled.eq_or_no_point with rfl | ⟨old, other⟩
    · exact .inr (.inl ⟨_, _, _, rfl, rfl⟩)
    · exact .inr (.inr ⟨behind old _, behind other _⟩)

/-- A body in another spelling stands for the same fragments, with operands in another spelling. -/
theorem expandLine_refines (respelled : Body body new) (trimmed : Text.trim body = body)
    (unbroken : .char '\n' ∉ body) (limit : Option Int) :
    (expandLine limit body).Refines (Truncation.Alike Token.Respells)
      (List.Forall₂ (Fragment.Alike Token.Respells)) (expandLine limit new) := by
  have interchange := Token.interchange_respells
  have instruction := expandInstruction_refines (S := Truncation.Alike Token.Respells) interchange
    (respelled.instruction_alike trimmed)
  unfold expandLine
  cases respelled with
  | word whole respelled =>
    rw [Directive.ofText?_of_not_mem whole, Directive.ofText?_of_not_mem (respelled.whole whole)]
    exact instruction
  | @operands _ _ rest pieces whole respelled unquoted operands =>
    obtain ⟨-, present⟩ := Instruction.trimmed_around_space trimmed
    have some : rest ≠ [] := by
      rintro rfl
      exact present rfl
    have feed : .char '\n' ∉ rest := fun member =>
      unbroken (List.mem_append_right _ (List.mem_cons_of_mem _ member))
    rw [Directive.ofText?_append_space whole feed some,
      Directive.ofText?_append_space (respelled.whole whole) (unbroken_join_pieces operands feed)
        (join_pieces_ne_nil operands present)]
    rcases respelled.eq_or_no_point with rfl | ⟨old, other⟩
    · cases named : Directive.named? _ with
      | none => exact instruction
      | some directive =>
        have name := Directive.name_of_named? named
        have integers : directive ≠ .ascii ∧ directive ≠ .asciiz := by
          constructor
          · rintro rfl
            exact unquoted.1 name.symm
          · rintro rfl
            exact unquoted.2 name.symm
        have tokens := forall₂_respells operands
        rw [← splitOn_join_pieces operands] at tokens
        refine (Directive.expand_refines interchange limit integers tokens).bind ?_
        rintro fragment _ rfl
        exact Outcome.refines_ok (.cons (.refl .same fragment) .nil)
    · rw [Directive.named?_eq_none_of_head? old, Directive.named?_eq_none_of_head? other]
      exact instruction

end Respelling.Body

/-! ## Lines -/

namespace SourceLine

/-- The body of a line has no blanks at its ends, and it does not go on in the next line. -/
theorem trimmed_of_mem_ofSource {source : Text} {line : SourceLine} {names : List Text}
    {body : Text} (member : line ∈ ofSource source)
    (headers : Label.Headers line.text names body) : Text.trim body = body ∧ .char '\n' ∉ body := by
  obtain ⟨i, raw, found, rfl, -⟩ := mem_ofSource_iff.1 member
  have normal := isNormal_parts_uncomment raw
  have parts := (Label.split_eq_iff.2 headers).symm.trans (split_normalise raw)
  rw [← parts] at normal
  refine ⟨normal.trim, fun feed => ?_⟩
  have line := isLineEnd_normalise (Text.isLineEnd_of_mem_lines (List.mem_of_getElem? found))
  exact absurd (line '\n' (headers.suffix.subset feed)) (by decide)

namespace Respells

variable {line new : SourceLine}

theorem number_eq (respells : line.Respells new) : new.number = line.number := by
  cases respells with
  | same | body headers respelled => rfl

theorem headers_write {names : List Text} {body new : Text}
    (headers : Label.Headers line.text names body) (respelled : Respelling.Body body new) :
    Label.Headers (write names new) names new :=
  SourceLine.headers_write (proper_of_headers headers) (respelled.bare (bare_of_headers headers))

/-- A line in another spelling is in the same segment. -/
theorem steersAlike (respells : line.Respells new) : line.SteersAlike new := by
  refine steersAlike_of_cases ?_
  cases respells with
  | same => exact .inl rfl
  | @body names body new headers respelled =>
    have written := headers_write headers respelled
    cases names with
    | nil =>
      dsimp only
      rw [write_nil]
      generalize line.text = text at headers
      cases headers
      exact respelled.eq_or_space_or_no_point
    | cons name rest =>
      exact .inr (.inr ⟨(opensWithLabel_of_headers headers).head?_ne_point,
        (opensWithLabel_of_headers written).head?_ne_point⟩)

/-- A line in another spelling has the same labels and the same fragments but for the spelling of
their operands. -/
theorem expands (respells : line.Respells new) {source : Text} (member : line ∈ ofSource source)
    {limit : Option Int} {names : List Text} {fragments : List Fragment}
    {notes : List Truncation} (expands : line.Expands limit names fragments notes) :
    ∃ fragments' notes', new.Expands limit names fragments' notes' ∧
      List.Forall₂ (Fragment.Alike Token.Respells) fragments fragments' ∧
      List.Forall₂ (Truncation.Alike Token.Respells) notes notes' := by
  cases respells with
  | same =>
    exact ⟨fragments, notes, expands, List.forall₂_same.2 fun fragment _ => .refl .same fragment,
      List.forall₂_same.2 fun note _ => ⟨rfl, .same note.token⟩⟩
  | @body names body new headers respelled =>
    have written := headers_write headers respelled
    have divided := Label.split_eq_iff.2 headers
    cases expands with
    | labels own =>
      cases divided.symm.trans (Label.split_eq_iff.2 own)
      rw [respelled.eq_nil_iff.2 rfl] at written ⊢
      exact ⟨_, _, .labels written, .cons (.refl .same _) .nil, .nil⟩
    | body own present expanded =>
      cases divided.symm.trans (Label.split_eq_iff.2 own)
      obtain ⟨trimmed, unbroken⟩ := trimmed_of_mem_ofSource member headers
      obtain ⟨later, other, hother, noted, related⟩ :=
        respelled.expandLine_refines trimmed unbroken limit _ _ expanded
      exact ⟨other, later,
        .body written (fun empty => present (respelled.eq_nil_iff.1 empty)) hother, related, noted⟩

end Respells

end SourceLine

end MipsImage
