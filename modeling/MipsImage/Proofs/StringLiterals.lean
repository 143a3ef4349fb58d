import MipsImage.Proofs.Directives
import MipsImage.Proofs.LineLayouts
import MipsImage.Proofs.PhaseOrder

/-!
# String literals

A string reaches the image as it is written. Spacing, comments and headers are seen around it and
never in it, so a line of labels with one string directive stands for the bytes of the body alone,
however the line is laid out. Every text can be written as such a body: backslashes and quotes as
pairs and the characters that end lines byte by byte.
-/
set_option autoImplicit false

namespace MipsImage

/-! ## Texts as bodies -/

namespace StringBody

/-- A hexadecimal digit in either case. -/
def hexDigit (upper : Bool) (n : Nat) : CodePoint :=
  .char (if upper then (Nat.digitChar n).toUpper else Nat.digitChar n)

/-- The escape that gives a byte by its two digits. -/
def hexEscape (upper : Bool) (b : UInt8) : Text :=
  [.char '\\', .char 'x', hexDigit upper (b.toNat / 16), hexDigit upper (b.toNat % 16)]

/-- A character as it is written in the body of a string. -/
def quoteChar (upper : Bool) (c : Char) : Text :=
  if c = '\\' ∨ c = '"' then [.char '\\', .char c]
  else if Text.isLineEnd (.char c) then (String.utf8EncodeChar c).flatMap (hexEscape upper)
  else [.char c]

/-- The body of a string that stands for characters. -/
def quote (upper : Bool) (t : List Char) : Text := t.flatMap (quoteChar upper)

/-! ### Bytes -/

theorem hexDigit?_hexDigit (upper : Bool) {n : Nat} (h : n < 16) :
    Text.hexDigit? (hexDigit upper n) = some n := by
  have all : ∀ upper, ∀ n < 16, Text.hexDigit? (hexDigit upper n) = some n := by decide
  exact all upper n h

theorem bytesFrom_hexEscape (upper : Bool) (column : Nat) (b : UInt8) (rest : Text) :
    bytesFrom column (hexEscape upper b ++ rest) = (b :: ·) <$> bytesFrom 0 rest := by
  have size := b.toNat_lt
  have byte :
      hexByte? (hexDigit upper (b.toNat / 16)) (hexDigit upper (b.toNat % 16)) = some b := by
    rw [hexByte?, hexDigit?_hexDigit upper (by omega), hexDigit?_hexDigit upper (by omega)]
    change some (UInt8.ofNat (16 * (b.toNat / 16) + b.toNat % 16)) = some b
    rw [Nat.div_add_mod, UInt8.ofNat_toNat]
  change bytesFrom column (.char '\\' :: .char 'x' :: _ :: _ :: rest) = _
  rw [bytesFrom, byte]

theorem bytesFrom_char {c : Char} (plain : c ≠ '\\') (column : Nat) (rest : Text) :
    bytesFrom column (.char c :: rest) =
      (String.utf8EncodeChar c ++ ·) <$> bytesFrom (column + 1) rest := by
  rw [bytesFrom]
  · exact fun _ _ _ _ h => plain h
  · exact fun _ _ _ h => plain h
  · exact fun _ h => plain h

section Read
variable {rest : Text} {bs : Bytes} (read : ∀ column, bytesFrom column rest = .ok bs)
include read

theorem bytesFrom_hexEscapes (upper : Bool) (front : Bytes) (column : Nat) :
    bytesFrom column (front.flatMap (hexEscape upper) ++ rest) = .ok (front ++ bs) := by
  induction front generalizing column with
  | nil => exact read column
  | cons b more ih =>
    rw [List.flatMap_cons, List.append_assoc, bytesFrom_hexEscape, ih]
    rfl

theorem bytesFrom_quoteChar (upper : Bool) (c : Char) (column : Nat) :
    bytesFrom column (quoteChar upper c ++ rest) = .ok (String.utf8EncodeChar c ++ bs) := by
  unfold quoteChar
  split_ifs with marks ends
  · rcases marks with rfl | rfl
    · change bytesFrom column (.char '\\' :: .char '\\' :: rest) = _
      rw [bytesFrom]
      · change (_ <$> bytesFrom 0 rest) = _
        rw [read]
        rfl
      · exact fun _ _ _ h => absurd h (by decide)
    · change bytesFrom column (.char '\\' :: .char '"' :: rest) = _
      rw [bytesFrom]
      · change (_ <$> bytesFrom 0 rest) = _
        rw [read]
        rfl
      · exact fun _ _ _ h => absurd h (by decide)
  · exact bytesFrom_hexEscapes read upper _ column
  · change bytesFrom column (.char c :: rest) = _
    rw [bytesFrom_char (fun h => marks (.inl h)), read]
    rfl

end Read

/-- A body stands for the characters that it was made of. -/
theorem bytesFrom_quote (upper : Bool) (t : List Char) (column : Nat) :
    bytesFrom column (quote upper t) = .ok (t.flatMap String.utf8EncodeChar) := by
  induction t generalizing column with
  | nil => rfl
  | cons c rest ih => exact bytesFrom_quoteChar ih upper c column

theorem decode_quote (upper : Bool) (t : List Char) :
    decode (quote upper t) = .ok (t.flatMap String.utf8EncodeChar) := by
  rw [decode, bytes, bytesFrom_quote]
  rfl

/-! ### Characters -/

section Digits
variable {upper : Bool} {n : Nat} (h : n < 16)
include h

theorem hexDigit_plain : hexDigit upper n ≠ .char '"' ∧ hexDigit upper n ≠ .char '\\' ∧
    Text.isLineEnd (hexDigit upper n) = false := by
  have all : ∀ upper, ∀ n < 16, hexDigit upper n ≠ .char '"' ∧ hexDigit upper n ≠ .char '\\' ∧
      Text.isLineEnd (hexDigit upper n) = false := by decide
  exact all upper n h

end Digits

theorem body_hexEscape (upper : Bool) (b : UInt8) {rest : Text} (more : Quoted.Body rest) :
    Quoted.Body (hexEscape upper b ++ rest) := by
  have size := b.toNat_lt
  obtain ⟨highQuote, highBackslash, -⟩ :=
    @hexDigit_plain upper (b.toNat / 16) (by omega)
  obtain ⟨lowQuote, lowBackslash, -⟩ := @hexDigit_plain upper (b.toNat % 16) (by omega)
  exact .escaped (.plain highQuote highBackslash (.plain lowQuote lowBackslash more))

theorem body_quoteChar (upper : Bool) (c : Char) {rest : Text} (more : Quoted.Body rest) :
    Quoted.Body (quoteChar upper c ++ rest) := by
  unfold quoteChar
  split_ifs with marks ends
  · exact .escaped more
  · induction String.utf8EncodeChar c with
    | nil => exact more
    | cons b bs ih =>
      rw [List.flatMap_cons, List.append_assoc]
      exact body_hexEscape upper b ih
  · rw [not_or] at marks
    exact .plain (fun h => marks.2 (CodePoint.char.inj h)) (fun h => marks.1 (CodePoint.char.inj h))
      more

theorem body_quote (upper : Bool) (t : List Char) : Quoted.Body (quote upper t) := by
  induction t with
  | nil => exact .nil
  | cons c rest ih => exact body_quoteChar upper c ih

theorem isLineEnd_hexEscape (upper : Bool) (b : UInt8) :
    ∀ c ∈ hexEscape upper b, Text.isLineEnd c = false := by
  have size := b.toNat_lt
  have high := @hexDigit_plain upper (b.toNat / 16) (by omega)
  have low := @hexDigit_plain upper (b.toNat % 16) (by omega)
  simp only [hexEscape, List.forall_mem_cons]
  exact ⟨by decide, by decide, high.2.2, low.2.2, List.forall_mem_nil _⟩

theorem isLineEnd_quoteChar (upper : Bool) (c : Char) :
    ∀ d ∈ quoteChar upper c, Text.isLineEnd d = false := by
  unfold quoteChar
  split_ifs with marks ends
  · simp only [List.forall_mem_cons]
    refine ⟨by decide, ?_, List.forall_mem_nil _⟩
    rcases marks with rfl | rfl <;> decide
  · intro d member
    obtain ⟨b, -, own⟩ := List.mem_flatMap.1 member
    exact isLineEnd_hexEscape upper b d own
  · exact List.forall_mem_singleton.2 (by simpa using ends)

theorem isLineEnd_quote (upper : Bool) (t : List Char) :
    ∀ c ∈ quote upper t, Text.isLineEnd c = false := by
  intro c member
  obtain ⟨d, -, own⟩ := List.mem_flatMap.1 member
  exact isLineEnd_quoteChar upper d c own

end StringBody

/-! ## Directives -/

/-- The directives of strings and the bytes that they put behind them. -/
inductive Directive.ForString : Directive → Bytes → Prop
  | ascii : ForString .ascii []
  | asciiz : ForString .asciiz [0]

/-- A string as it is quoted. -/
def Quoted.literal (body : Text) : Text := .char '"' :: (body ++ [.char '"'])

theorem Quoted.body?_literal {body : Text} (closed : Body body) :
    body? (literal body) = some body := by
  rw [literal, body?, closed.closing?]

theorem Directive.stringBytes_literal {body : Text} (closed : Quoted.Body body) :
    stringBytes (Quoted.literal body) = StringBody.decode body := by
  rw [stringBytes, Quoted.body?_literal closed]

namespace Directive.ForString

variable {directive : Directive} {terminator : Bytes} (string : ForString directive terminator)
include string

theorem isWord : Text.IsWord directive.name := by
  cases string <;> decide

theorem ofText?_eq {body : Text} (line : ∀ c ∈ body, Text.isLineEnd c = false) :
    ofText? (directive.name ++ .char ' ' :: Quoted.literal body) =
      some (directive, Quoted.literal body) := by
  have feed : .char '\n' ∉ Quoted.literal body := by
    have inside : .char '\n' ∉ body := fun member => absurd (line _ member) (by decide)
    simp [Quoted.literal, inside]
  have named : named? directive.name = some directive := by cases string <;> decide
  rw [ofText?_append_space directive.not_mem_space feed (List.cons_ne_nil _ _), named]
  rfl

theorem expandLine_of_bytes {body : Text} (closed : Quoted.Body body)
    (line : ∀ c ∈ body, Text.isLineEnd c = false) {bytes : Bytes}
    (decoded : StringBody.decode body = .ok bytes) (limit : Option Int) :
    expandLine limit (directive.name ++ .char ' ' :: Quoted.literal body) =
      ⟨[], .ok [.data (bytes ++ terminator)]⟩ := by
  have read : stringBytes (Quoted.literal body) = .ok bytes := by
    rw [stringBytes_literal closed, decoded]
  rw [expandLine, string.ofText?_eq line]
  dsimp only
  cases string with
  | ascii =>
    rw [expand, read, List.append_nil]
    rfl
  | asciiz =>
    rw [expand, read]
    rfl

theorem expandLine_of_failure {body : Text} (closed : Quoted.Body body)
    (line : ∀ c ∈ body, Text.isLineEnd c = false) {failure : Failure Fault}
    (decoded : StringBody.decode body = .error failure) (limit : Option Int) :
    expandLine limit (directive.name ++ .char ' ' :: Quoted.literal body) =
      ⟨[], .error failure⟩ := by
  have read : stringBytes (Quoted.literal body) = .error failure := by
    rw [stringBytes_literal closed, decoded]
  rw [expandLine, string.ofText?_eq line]
  dsimp only
  cases string <;>
  · rw [expand, read]
    rfl

end Directive.ForString

/-- A line that steers the division into segments is no data directive. -/
theorem SourceLine.Steers.ofText?_eq_none {line : SourceLine} (steers : line.Steers) :
    Directive.ofText? line.text = none := by
  rcases steers with global | data | text
  · rw [isGlobalDeclaration, Bool.or_eq_true, List.isPrefixOf_iff_prefix,
      List.isPrefixOf_iff_prefix] at global
    rcases global with ⟨rest, h⟩ | ⟨rest, h⟩
    · rw [← h]
      rfl
    · rw [← h]
      rfl
  · rw [data]
    rfl
  · rw [text]
    rfl

/-! ## Sources of one line -/

theorem fitsLimit_none (address : Int) : FitsLimit none address := by
  intro most bounded
  cases bounded

namespace Segments

theorem inOrder_singleton {line : SourceLine} (free : ¬line.Steers) :
    (ofLines [line]).inOrder = [line] := by
  rw [SourceLine.Steers, not_or, not_or] at free
  rw [ofLines, ofLinesFrom, if_neg free.1, if_neg free.2.1, if_neg free.2.2]
  rfl

end Segments

theorem SourceLine.not_steers_of_directive {line : SourceLine} {names : List Text} {body : Text}
    (headers : Label.Headers line.text names body) {found : Directive × Text}
    (directive : Directive.ofText? body = some found) : ¬line.Steers := by
  intro steers
  cases names with
  | nil =>
    have text : line.text = body := by
      generalize line.text = t at headers
      cases headers
      rfl
    have none := steers.ofText?_eq_none
    rw [text, directive] at none
    cases none
  | cons name rest =>
    exact steers.not_declares name ⟨_, _, headers, List.mem_cons_self ..⟩

namespace Assembly

/-- The lines of a name among names that are all declared in one line. -/
theorem numbers_of_name (names : List Text) (name : Text) (number : Int) :
    (((names.map (·, number)).filter (·.1 = name)).map Prod.snd) =
      List.replicate (names.count name) number := by
  induction names with
  | nil => rfl
  | cons other rest ih =>
    by_cases same : other = name
    · subst same
      rw [List.map_cons, List.filter_cons_of_pos (by simp), List.map_cons, ih, List.count_cons_self,
        List.replicate_succ]
    · rw [List.map_cons, List.filter_cons_of_neg (by simpa using same), ih,
        List.count_cons_of_ne same]

variable {limit : Option Int} {line : SourceLine} {names : List Text} {bytes : Bytes}
  {notes : List Truncation}

theorem grouped_of_data (expands : line.Expands limit names [.data bytes] notes)
    (fits : FitsLimit limit bytes.length) :
    Block.Grouped limit 0 [line] [[⟨line.number, names, .data bytes⟩]]
      (notes.map (Warning.mk line.number)) := by
  have ends : endOf 0 (Block.ofFragments line.number names [.data bytes]) = bytes.length :=
    Int.zero_add _
  have grouped : Block.Grouped limit 0 [line] [Block.ofFragments line.number names [.data bytes]]
      (notes.map (Warning.mk line.number) ++ []) := .cons expands (ends ▸ fits) .nil
  rwa [List.append_nil] at grouped

variable (free : ¬line.Steers)
include free

/-- A line with data has these for its image and its labels at the start. -/
theorem ofLines_of_data (expands : line.Expands limit names [.data bytes] notes)
    (fits : FitsLimit limit bytes.length) (distinct : names.Nodup) :
    ofLines limit [line] = ⟨[⟨line.number, names, .data bytes⟩], names.map (·, 0),
      notes.map (Warning.mk line.number), .ok bytes⟩ := by
  have expanded := (grouped_of_data expands fits).ofLinesFrom_eq
  have placed : SymbolTable.ofBlocks [⟨line.number, names, .data bytes⟩] =
      .ok (names.map (·, 0)) := by
    refine SymbolTable.ofBlocks_eq_ok_iff.2 ⟨?_, ?_⟩
    · simpa using distinct
    · simp [Block.placements]
  have encoded (symbols : SymbolTable) :
      Image.ofBlocks symbols [⟨line.number, names, .data bytes⟩] = ⟨[], .ok (bytes ++ [])⟩ := rfl
  rw [List.append_nil] at encoded
  simp only [ofLines, Segments.inOrder_singleton free, Block.ofLines, expanded, List.flatten_cons,
    List.flatten_nil, List.append_nil, placed, encoded]

/-- A line with data that declares a label twice is refused, and its number is told as often as the
label is declared. -/
theorem image_of_repeated (expands : line.Expands limit names [.data bytes] notes)
    (fits : FitsLimit limit bytes.length) (repeated : ¬names.Nodup) :
    ∃ name, 2 ≤ names.count name ∧ (ofLines limit [line]).image = .error (.fault
      ⟨line.number, .duplicateLabel name (List.replicate (names.count name) line.number)⟩) := by
  have grouped := grouped_of_data expands fits
  have own : Block.declarations [⟨line.number, names, .data bytes⟩] = names.map (·, line.number) :=
    List.append_nil _
  cases placed : SymbolTable.ofBlocks [⟨line.number, names, .data bytes⟩] with
  | ok symbols =>
    have distinct := (SymbolTable.ofBlocks_eq_ok_iff.1 placed).1
    exact absurd (by simpa using distinct) repeated
  | error failure =>
    obtain ⟨name, first, second, more, again, -⟩ :=
      SymbolTable.ofBlocks_eq_error_iff_repeated.1 placed
    have stops : Stops limit [line] (notes.map (Warning.mk line.number))
        (.fault ⟨second, .duplicateLabel name (first :: second :: more)⟩) := by
      refine .label grouped ?_
      rw [← grouped.declarations_eq]
      exact again
    obtain ⟨_, member, number⟩ := stops.exists_line
    rw [List.mem_singleton.1 member] at number
    have same : second = line.number := number
    subst same
    rw [← Segments.inOrder_singleton free] at stops
    have numbers := again.all
    rw [own, numbers_of_name, List.perm_replicate] at numbers
    have twice := congrArg List.length numbers
    rw [List.length_replicate, List.length_cons, List.length_cons] at twice
    refine ⟨name, by omega, ?_⟩
    rw [(stops_iff.1 stops).2, numbers]

theorem image_of_refused {cause : Failure Fault} (refused : line.Refused limit 0 notes cause) :
    (ofLines limit [line]).image = .error (cause.map (LocatedFault.mk line.number)) := by
  have order : (Segments.ofLines [line]).inOrder = [] ++ line :: [] :=
    Segments.inOrder_singleton free
  have stops : Stops limit (Segments.ofLines [line]).inOrder
      ([] ++ notes.map (Warning.mk line.number)) (cause.map (LocatedFault.mk line.number)) :=
    .line order .nil refused
  exact (stops_iff.1 stops).2

end Assembly

/-! ## Lines with strings -/

namespace SourceLine

/-- A raw line with labels and a string directive whose string has this body. -/
inductive StringLaidOut (names : List Text) (terminator : Bytes) (body : Text) : Text → Prop
  | intro {directive : Directive} {gap raw : Text} (string : directive.ForString terminator)
    (blank : Text.IsGap gap) (some : gap ≠ [])
    (laid : LaidOut names (directive.name ++ (gap ++ Quoted.literal body)) raw) :
    StringLaidOut names terminator body raw

/-- What stands in front of the string and the string, as scanners of quotes see them. -/
theorem literal_append (front gap body rest : Text) :
    front ++ (gap ++ Quoted.literal body) ++ rest =
      front ++ gap ++ .char '"' :: (body ++ .char '"' :: rest) := by
  simp [Quoted.literal]

section Directive
variable {directive : Directive} {terminator : Bytes} {gap body : Text}
  (string : directive.ForString terminator) (blank : Text.IsGap gap)
include string blank

theorem isLineEnd_directive (line : ∀ c ∈ body, Text.isLineEnd c = false) :
    ∀ c ∈ directive.name ++ (gap ++ Quoted.literal body), Text.isLineEnd c = false := by
  simp only [Quoted.literal, List.forall_mem_append, List.forall_mem_cons]
  exact ⟨fun c member => (string.isWord.isPlain c member).1, blank.line, by decide, line,
    by decide, List.forall_mem_nil _⟩

variable (closed : Quoted.Body body)
include closed

/-- Behind the string of a directive a comment may begin. -/
theorem uncomment_directive (rest : Text) :
    uncomment (directive.name ++ (gap ++ Quoted.literal body) ++ rest) =
      directive.name ++ (gap ++ Quoted.literal body) ++ uncomment rest := by
  have front : ∀ c ∈ directive.name ++ gap, c ≠ '"' ∧ c ≠ '#' :=
    List.forall_mem_append.2 ⟨fun c member => (string.isWord.isPlain c member).2.2,
      plain_of_blank blank.blank⟩
  rw [literal_append, literal_append, uncomment_append front, uncomment_quoted closed]

/-- A string keeps its characters, with one space between the directive and its opening quote. -/
theorem tidy_directive (some : gap ≠ []) :
    tidy (directive.name ++ (gap ++ Quoted.literal body)) =
      directive.name ++ .char ' ' :: Quoted.literal body := by
  have word := string.isWord
  have unquoted : .char '"' ∉ directive.name ++ gap := by
    rw [List.mem_append, not_or]
    exact ⟨fun member => (word.plain _ member).2.2.1 rfl,
      fun member => (plain_of_blank blank.blank _ member).1 rfl⟩
  have space : respacePlain gap = [.char ' '] := by
    have single := respacePlain_gap_append (t := []) rfl (by simp) blank.blank some
    rwa [List.append_nil] at single
  have front : respacePlain (directive.name ++ gap) = directive.name ++ [.char ' '] := by
    rw [respacePlain_append word.solid word.isToken.single, space]
  have respaced : respace (directive.name ++ (gap ++ Quoted.literal body)) =
      (directive.name ++ .char ' ' :: .char '"' :: body) ++ .char '"' :: [] := by
    have text := literal_append directive.name gap body []
    rw [List.append_nil] at text
    rw [text, respace_quoted unquoted closed, front, respace_plain List.not_mem_nil]
    simp [respacePlain, collapse, spaceCommas]
  have start : List.dropWhile Text.isBlank
      (directive.name ++ .char ' ' :: .char '"' :: body ++ .char '"' :: []) =
      directive.name ++ .char ' ' :: .char '"' :: body ++ .char '"' :: [] := by
    cases string <;> rfl
  rw [tidy, respaced, Text.trim_eq, start, Text.rdropWhile_append_cons (by decide)]
  simp [Quoted.literal]

end Directive

section Line
variable {names : List Text} {terminator : Bytes} {body raw : Text}
  (laid : StringLaidOut names terminator body raw) (closed : Quoted.Body body)
  (line : ∀ c ∈ body, Text.isLineEnd c = false)
include laid closed line

/-- The one line that such a source has, divided into labels and directive. -/
theorem StringLaidOut.exists_line : ∃ (directive : Directive) (own : SourceLine),
    directive.ForString terminator ∧ SourceLine.ofSource raw = [own] ∧ own.number = 1 ∧
    ¬own.Steers ∧
    Label.Headers own.text names (directive.name ++ .char ' ' :: Quoted.literal body) := by
  obtain ⟨string, blank, some, laid⟩ := laid
  rename_i directive gap
  have tidied := tidy_directive string blank closed some
  have bare :
      Label.looseHeader? (tidy (directive.name ++ (gap ++ Quoted.literal body))) = none := by
    rw [tidied]
    cases string <;> rfl
  have present : tidy (directive.name ++ (gap ++ Quoted.literal body)) ≠ [] := by
    rw [tidied]
    exact List.append_ne_nil_of_right_ne_nil _ (List.cons_ne_nil _ _)
  have behind := uncomment_directive string blank closed
  have headers := Label.split_eq_iff.1 (laid.split_write behind bare)
  rw [tidied] at headers
  refine ⟨directive, ⟨write names (directive.name ++ .char ' ' :: Quoted.literal body), 1⟩, string,
    ?_, rfl, not_steers_of_directive headers (string.ofText?_eq line), headers⟩
  rw [laid.ofSource_eq behind bare (isLineEnd_directive string blank line) present, tidied]

/-- The line stands for the bytes of the body and the terminator. -/
theorem StringLaidOut.exists_expands {bytes : Bytes}
    (decoded : StringBody.decode body = .ok bytes) (limit : Option Int) :
    ∃ own : SourceLine, SourceLine.ofSource raw = [own] ∧ own.number = 1 ∧ ¬own.Steers ∧
      own.Expands limit names [.data (bytes ++ terminator)] [] := by
  obtain ⟨directive, own, string, source, number, free, headers⟩ := laid.exists_line closed line
  exact ⟨own, source, number, free, .body headers
    (List.append_ne_nil_of_right_ne_nil _ (List.cons_ne_nil _ _))
    (string.expandLine_of_bytes closed line decoded limit)⟩

section Bytes
variable {bytes : Bytes} (decoded : StringBody.decode body = .ok bytes) {limit : Option Int}
  (fits : FitsLimit limit (bytes ++ terminator).length)
include decoded fits

theorem StringLaidOut.assembly_of_bytes (distinct : names.Nodup) :
    Assembly.ofLines limit (SourceLine.ofSource raw) =
      ⟨[⟨1, names, .data (bytes ++ terminator)⟩], names.map (·, 0), [],
        .ok (bytes ++ terminator)⟩ := by
  obtain ⟨own, source, number, free, expands⟩ := laid.exists_expands closed line decoded limit
  rw [source, Assembly.ofLines_of_data free expands fits distinct, number]
  rfl

theorem StringLaidOut.image_of_repeated (repeated : ¬names.Nodup) :
    ∃ name, 2 ≤ names.count name ∧
      (Assembly.ofLines limit (SourceLine.ofSource raw)).image =
        .error (.fault ⟨1, .duplicateLabel name (List.replicate (names.count name) 1)⟩) := by
  obtain ⟨own, source, number, free, expands⟩ := laid.exists_expands closed line decoded limit
  rw [source, ← number]
  exact Assembly.image_of_repeated free expands fits repeated

end Bytes

theorem StringLaidOut.image_of_failure {failure : Failure Fault}
    (decoded : StringBody.decode body = .error failure) (limit : Option Int) :
    (Assembly.ofLines limit (SourceLine.ofSource raw)).image =
      .error (failure.map (LocatedFault.mk 1)) := by
  obtain ⟨directive, own, string, source, number, free, headers⟩ := laid.exists_line closed line
  have refused : own.Refused limit 0 [] failure := .body headers
    (List.append_ne_nil_of_right_ne_nil _ (List.cons_ne_nil _ _))
    (string.expandLine_of_failure closed line decoded limit)
  rw [source, Assembly.image_of_refused free refused, ← number]

end Line

end SourceLine

/-- A body stands for bytes, has a wrong escape or cannot be converted. -/
theorem StringBody.decode_cases (body : Text) :
    (∃ reason, decode body = .error (.fault (.invalidEscape body reason))) ∨
      (∃ run, Unencodable body run) ∨ ∃ bytes, decode body = .ok bytes := by
  cases decoded : bytes body with
  | ok bs =>
    refine .inr (.inr ⟨bs, ?_⟩)
    rw [decode, decoded]
    rfl
  | error failure =>
    cases failure with
    | fault reason =>
      refine .inl ⟨reason, ?_⟩
      rw [decode, decoded]
      rfl
    | conversion cause =>
      obtain ⟨run, rfl, -⟩ := bytesFrom_conversion decoded
      exact .inr (.inl ⟨run, decoded⟩)

/-- A line with a string directive has for its image the bytes of the body, and the terminator if
the directive asks for it, or is refused for an escape in that very body or for lone surrogates in
it; where it declares a label twice it is refused for that instead. Characters that are quoted have
their UTF-8 bytes for their image. -/
theorem image_of_string_literal :
    (∀ (names : List Text) (terminator : Bytes) (body raw : Text),
      Quoted.Body body → (∀ c ∈ body, Text.isLineEnd c = false) →
      SourceLine.StringLaidOut names terminator body raw →
      let assembly := Assembly.ofLines none (SourceLine.ofSource raw)
      (∃ reason, StringBody.decode body = .error (.fault (.invalidEscape body reason)) ∧
        assembly.image = .error (.fault ⟨1, .invalidEscape body reason⟩)) ∨
      (∃ run, .surrogate run.first ∈ body ∧
        StringBody.decode body = .error (.conversion (.surrogates run)) ∧
        assembly.image = .error (.conversion (.surrogates run))) ∨
      ∃ bytes, StringBody.decode body = .ok bytes ∧
        (names.Nodup → assembly.image = .ok (bytes ++ terminator) ∧
          assembly.symbols = names.map (·, 0) ∧ assembly.warnings = []) ∧
        (¬names.Nodup → ∃ name, 2 ≤ names.count name ∧ assembly.image =
          .error (.fault ⟨1, .duplicateLabel name (List.replicate (names.count name) 1)⟩))) ∧
    ∀ (names : List Text) (terminator : Bytes) (upper : Bool) (t : List Char) (raw : Text),
      names.Nodup → SourceLine.StringLaidOut names terminator (StringBody.quote upper t) raw →
      (Assembly.ofLines none (SourceLine.ofSource raw)).image =
        .ok (t.flatMap String.utf8EncodeChar ++ terminator) := by
  constructor
  · intro names terminator body raw closed line laid assembly
    rcases StringBody.decode_cases body with
      ⟨reason, decoded⟩ | ⟨run, unencodable⟩ | ⟨bytes, decoded⟩
    · exact .inl ⟨reason, decoded, laid.image_of_failure closed line decoded none⟩
    · have decoded := unencodable.decode_eq
      exact .inr (.inl ⟨run, unencodable.mem, decoded,
        laid.image_of_failure closed line decoded none⟩)
    · have fits := fitsLimit_none (bytes ++ terminator).length
      refine .inr (.inr ⟨bytes, decoded, fun distinct => ?_,
        laid.image_of_repeated closed line decoded fits⟩)
      have whole : assembly = _ := laid.assembly_of_bytes closed line decoded fits distinct
      rw [whole]
      exact ⟨rfl, rfl, rfl⟩
  · intro names terminator upper t raw distinct laid
    rw [laid.assembly_of_bytes (StringBody.body_quote upper t) (StringBody.isLineEnd_quote upper t)
      (StringBody.decode_quote upper t) (fitsLimit_none _) distinct]

/-- What would be a comment, a separator or a header outside strings, and a text that is quoted. -/
theorem image_of_string_literal_marks :
    (Assembly.ofLines none (SourceLine.ofSource
        "b :\t.asciiz\t \"#,  :\\\"\\x0a\" # \"".toText)).image =
      .ok [35, 44, 32, 32, 58, 34, 10, 0] ∧
    (Assembly.ofLines none (SourceLine.ofSource
        ".ascii \"\\\"\\xe2\\x80\\xa8\\\\\"".toText)).image =
      .ok [0x22, 0xe2, 0x80, 0xa8, 0x5c] := by
  constructor
  · have labels : Label.LaidOut ["b".toText] "b :\t".toText :=
      @Label.LaidOut.cons _ [.char ' '] [.char '\t'] _ _ (by decide) (by decide) (by decide) .nil
    have idle : SourceLine.IsIdle " # \"".toText :=
      @SourceLine.IsIdle.comment [.char ' '] " \"".toText (by decide) (by decide)
    have laid : SourceLine.StringLaidOut ["b".toText] [0] "#,  :\\\"\\x0a".toText
        "b :\t.asciiz\t \"#,  :\\\"\\x0a\" # \"".toText :=
      @SourceLine.StringLaidOut.intro _ _ _ .asciiz "\t ".toText _ .asciiz (by decide) (by decide)
        (@SourceLine.LaidOut.intro _ _ [] _ _ (by decide) labels idle)
    have closed : Quoted.Body "#,  :\\\"\\x0a".toText := by
      repeat first
        | exact .nil
        | refine .escaped ?_
        | refine .plain (by decide) (by decide) ?_
    have decoded : StringBody.decode "#,  :\\\"\\x0a".toText =
        .ok [35, 44, 32, 32, 58, 34, 10] := by decide
    rcases image_of_string_literal.1 _ _ _ _ closed (by decide) laid with
      ⟨reason, failed, -⟩ | ⟨run, -, failed, -⟩ | ⟨bytes, read, image, -⟩
    · rw [decoded] at failed
      cases failed
    · rw [decoded] at failed
      cases failed
    · rw [decoded] at read
      cases read
      exact (image (by decide)).1
  · have laid : SourceLine.StringLaidOut [] []
        (StringBody.quote false ['"', '\u2028', '\\'])
        ".ascii \"\\\"\\xe2\\x80\\xa8\\\\\"".toText :=
      @SourceLine.StringLaidOut.intro _ _ _ .ascii [.char ' '] _ .ascii (by decide) (by decide)
        (@SourceLine.LaidOut.intro _ _ [] _ [] (by decide) .nil (.blank (by decide)))
    have image := image_of_string_literal.2 [] [] false ['"', '\u2028', '\\'] _ (by decide) laid
    rw [image]
    decide

/-- A label that is declared twice on the line keeps the string from the image. -/
theorem image_of_string_literal_declared_twice :
    let raw := "a: a: .ascii \"x\"".toText
    let image := (Assembly.ofLines none (SourceLine.ofSource raw)).image
    Quoted.Body "x".toText ∧ (∀ c ∈ "x".toText, Text.isLineEnd c = false) ∧
      SourceLine.StringLaidOut ["a".toText, "a".toText] [] "x".toText raw ∧
      StringBody.decode "x".toText = .ok [120] ∧ image ≠ .ok [120] ∧
      ∀ reason, image ≠ .error (.fault ⟨1, .invalidEscape "x".toText reason⟩) := by
  intro raw image
  have closed : Quoted.Body "x".toText := .plain (by decide) (by decide) .nil
  have line : ∀ c ∈ "x".toText, Text.isLineEnd c = false := by decide
  have labels : Label.LaidOut ["a".toText, "a".toText] "a: a: ".toText :=
    @Label.LaidOut.cons _ [] [.char ' '] _ _ (by decide) (by decide) (by decide)
      (@Label.LaidOut.cons _ [] [.char ' '] _ _ (by decide) (by decide) (by decide) .nil)
  have laid : SourceLine.StringLaidOut ["a".toText, "a".toText] [] "x".toText raw :=
    @SourceLine.StringLaidOut.intro _ _ _ .ascii [.char ' '] _ .ascii (by decide) (by decide)
      (@SourceLine.LaidOut.intro _ _ [] _ [] (by decide) labels (.blank (by decide)))
  have decoded : StringBody.decode "x".toText = .ok [120] := by decide
  obtain ⟨name, -, refused⟩ :=
    laid.image_of_repeated closed line decoded (fitsLimit_none _) (by decide)
  have same : image = _ := refused
  refine ⟨closed, line, laid, decoded, ?_, fun reason => ?_⟩
  · rw [same]
    simp
  · rw [same]
    simp

end MipsImage
