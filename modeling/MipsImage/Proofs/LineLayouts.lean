import Mathlib.Order.Monotone.Basic
import MipsImage.Proofs.SourceLines

/-!
# Layouts of a line

A line may be laid out freely: blanks stand at its ends, around the colons of its headers and around
its commas, a mnemonic is followed by any blanks but none at all, and a comment may close the line.
Every layout of a line has the same normal form, in which the names, the mnemonic and the operands
are found again. Lines on which nothing but blanks and comments stand only count as lines.
-/
set_option autoImplicit false

namespace MipsImage

/-! ## Layouts -/

/-- Blanks within a line. -/
def Text.IsGap (t : Text) : Prop := ∀ c ∈ t, isBlank c = true ∧ isLineEnd c = false

-- the characters of the text are tried, and not all characters there are
instance (t : Text) : Decidable (Text.IsGap t) :=
  decidable_of_iff (t.all (fun c => Text.isBlank c && !Text.isLineEnd c) = true)
    (by simp [Text.IsGap])

/-- A mnemonic or an operand without any character that a layout has for itself. -/
structure Text.IsWord (t : Text) : Prop where
  present : t ≠ []
  solid : ∀ c ∈ t, isBlank c = false
  plain : ∀ c ∈ t, c ≠ ',' ∧ c ≠ ':' ∧ c ≠ '"' ∧ c ≠ '#'

instance (t : Text) : Decidable (Text.IsWord t) :=
  decidable_of_iff (t ≠ [] ∧ t.all (!Text.isBlank ·) = true ∧
      t.all (fun c => c ≠ ',' && c ≠ ':' && c ≠ '"' && c ≠ '#') = true)
    ⟨fun h => ⟨h.1, by simpa using h.2.1, by simpa [and_assoc] using h.2.2⟩,
      fun h => ⟨h.present, by simpa using h.solid, by simpa [and_assoc] using h.plain⟩⟩

/-- The headers of labels in a row. -/
inductive Label.LaidOut : List Text → Text → Prop
  | nil : LaidOut [] []
  | cons {name before after text : Text} {names : List Text} (proper : Proper name)
    (left : Text.IsGap before) (right : Text.IsGap after) (more : LaidOut names text) :
    LaidOut (name :: names) (name ++ (before ++ .char ':' :: (after ++ text)))

/-- Operands between commas. -/
inductive Instruction.OperandsLaidOut : List Text → Text → Prop
  | last (token : Text) : OperandsLaidOut [token] token
  | cons {token before after text : Text} {operands : List Text} (left : Text.IsGap before)
    (right : Text.IsGap after) (more : OperandsLaidOut operands text) :
    OperandsLaidOut (token :: operands) (token ++ (before ++ .char ',' :: (after ++ text)))

/-- A mnemonic and its operands. -/
inductive Instruction.LaidOut (mnemonic : Text) : List Text → Text → Prop
  | alone : LaidOut mnemonic [] mnemonic
  | operands {gap text : Text} {operands : List Text} (blank : Text.IsGap gap) (some : gap ≠ [])
    (laid : OperandsLaidOut operands text) : LaidOut mnemonic operands (mnemonic ++ (gap ++ text))

namespace SourceLine

/-- Blanks and perhaps a comment. -/
inductive IsIdle : Text → Prop
  | blank {blanks : Text} (gap : Text.IsGap blanks) : IsIdle blanks
  | comment {blanks comment : Text} (gap : Text.IsGap blanks)
    (line : ∀ c ∈ comment, Text.isLineEnd c = false) : IsIdle (blanks ++ .char '#' :: comment)

/-- A raw line with these labels in front of a body. -/
inductive LaidOut (names : List Text) (body : Text) : Text → Prop
  | intro {lead headers rest : Text} (start : Text.IsGap lead)
    (labels : Label.LaidOut names headers) (idle : IsIdle rest) :
    LaidOut names body (lead ++ (headers ++ (body ++ rest)))

end SourceLine

/-! ## Characters -/

namespace Text

/-- A character that neither ends a line nor marks a header, a string or a comment in it. -/
def IsPlain (c : CodePoint) : Prop := isLineEnd c = false ∧ c ≠ ':' ∧ c ≠ '"' ∧ c ≠ '#'

instance (c : CodePoint) : Decidable (IsPlain c) :=
  inferInstanceAs (Decidable (isLineEnd c = false ∧ c ≠ ':' ∧ c ≠ '"' ∧ c ≠ '#'))

theorem IsGap.blank {t : Text} (gap : IsGap t) : ∀ c ∈ t, isBlank c = true :=
  fun c member => (gap c member).1

theorem IsGap.line {t : Text} (gap : IsGap t) : ∀ c ∈ t, isLineEnd c = false :=
  fun c member => (gap c member).2

theorem IsGap.isPlain {t : Text} (gap : IsGap t) : ∀ c ∈ t, IsPlain c := by
  intro c member
  refine ⟨gap.line c member, ?_, ?_, ?_⟩ <;>
  · rintro rfl
    exact absurd (gap.blank _ member) (by decide)

namespace IsWord

variable {t : Text}

theorem isToken (word : IsWord t) : IsToken t where
  trimmed := trim_eq_self_of_solid word.solid
  single := fun member => (word.plain _ member).1 rfl

theorem isPlain (word : IsWord t) : ∀ c ∈ t, IsPlain c := fun c member =>
  ⟨isLineEnd_of_solid (word.solid c member), (word.plain c member).2⟩

theorem begins (word : IsWord t) (rest : Text) :
    SourceLine.beginsBlank (t ++ rest) = false ∧ (t ++ rest).head? ≠ some ',' := by
  obtain ⟨c, more, rfl⟩ := List.exists_cons_of_ne_nil word.present
  refine ⟨word.solid c (List.mem_cons_self ..), ?_⟩
  simpa using (word.plain c (List.mem_cons_self ..)).1

end IsWord

end Text

theorem Label.looseHeader?_of_not_mem {t : Text} (h : .char ':' ∉ t) : looseHeader? t = none := by
  cases found : looseHeader? t with
  | none => rfl
  | some pair =>
    obtain ⟨name, rest⟩ := pair
    obtain ⟨proper, blank⟩ := looseHeader?_eq_some_iff.1 found
    simp at h

theorem Label.LaidOut.line {names : List Text} {text : Text} (laid : LaidOut names text) :
    ∀ c ∈ text, Text.isLineEnd c = false := by
  induction laid with
  | nil => exact List.forall_mem_nil _
  | cons proper left right _ ih =>
    rw [List.forall_mem_append, List.forall_mem_append, List.forall_mem_cons,
      List.forall_mem_append]
    exact ⟨fun c member => Text.isLineEnd_of_solid (proper.solid c member), left.line, by decide,
      right.line, ih⟩

namespace SourceLine

theorem IsIdle.line {t : Text} (idle : IsIdle t) : ∀ c ∈ t, Text.isLineEnd c = false := by
  cases idle with
  | blank gap => exact gap.line
  | comment gap line =>
    rw [List.forall_mem_append, List.forall_mem_cons]
    exact ⟨gap.line, by decide, line⟩

theorem LaidOut.line {names : List Text} {body raw : Text} (laid : LaidOut names body raw)
    (line : ∀ c ∈ body, Text.isLineEnd c = false) : ∀ c ∈ raw, Text.isLineEnd c = false := by
  obtain ⟨start, labels, idle⟩ := laid
  rw [List.forall_mem_append, List.forall_mem_append, List.forall_mem_append]
  exact ⟨start.line, labels.line, line, idle.line⟩

/-! ## Headers and body -/

theorem IsIdle.uncomment {t : Text} (idle : IsIdle t) :
    ∀ c ∈ SourceLine.uncomment t, Text.isBlank c = true := by
  cases idle with
  | blank gap =>
    rw [uncomment_eq_self (plain_of_blank gap.blank)]
    exact gap.blank
  | comment gap line =>
    rw [uncomment_append (plain_of_blank gap.blank)]
    simpa [SourceLine.uncomment, uncommentFrom] using gap.blank

theorem parts_labels {names : List Text} {text : Text} (laid : Label.LaidOut names text)
    (t : Text) : parts (text ++ t) = (names ++ (parts t).1, (parts t).2) := by
  induction laid with
  | nil => rfl
  | cons proper left right _ ih =>
    rw [List.append_assoc, List.append_assoc, List.cons_append, List.append_assoc,
      parts_header proper left.blank, parts_blanks_append right.blank, ih]
    rfl

theorem uncomment_labels {names : List Text} {text : Text} (laid : Label.LaidOut names text)
    (t : Text) : uncomment (text ++ t) = text ++ uncomment t := by
  induction laid with
  | nil => rfl
  | cons proper left right _ ih =>
    simp only [List.append_assoc, List.cons_append, uncomment_header proper left.blank,
      uncomment_append (plain_of_blank right.blank), ih]

section Body
variable {names : List Text} {body raw : Text} (laid : LaidOut names body raw)
  (closed : ∀ rest, uncomment (body ++ rest) = body ++ uncomment rest)
  (bare : Label.looseHeader? (tidy body) = none)
include laid closed bare

/-- The headers and the body of a line do not depend on its layout. -/
theorem LaidOut.parts_uncomment : parts (uncomment raw) = (names, tidy body) := by
  obtain ⟨start, labels, idle⟩ := laid
  rw [uncomment_append (plain_of_blank start.blank), uncomment_labels labels, closed,
    parts_blanks_append start.blank, parts_labels labels, parts_eq,
    tidy_append_blanks idle.uncomment, Label.splitLoose_of_bare bare, List.append_nil]

theorem LaidOut.normalise_eq : normalise raw = write names (tidy body) := by
  rw [normalise, laid.parts_uncomment closed bare]

theorem LaidOut.split_write : Label.split (write names (tidy body)) = (names, tidy body) := by
  rw [← laid.normalise_eq closed bare, split_normalise, laid.parts_uncomment closed bare]

/-- A line with a body is the only line of its source. -/
theorem LaidOut.ofSource_eq (line : ∀ c ∈ body, Text.isLineEnd c = false)
    (some : tidy body ≠ []) : ofSource raw = [⟨write names (tidy body), 1⟩] := by
  have present : normalise raw ≠ [] := by
    rw [laid.normalise_eq closed bare, Ne, write_eq_nil_iff]
    exact fun h => some h.2
  rw [ofSource_of_unbroken (laid.line line) present, laid.normalise_eq closed bare]

end Body

end SourceLine

/-! ## Instructions -/

namespace Instruction

section Operands
variable {operands : List Text} {text : Text}

theorem OperandsLaidOut.ne_nil (laid : OperandsLaidOut operands text) : operands ≠ [] := by
  cases laid <;> exact List.cons_ne_nil _ _

theorem OperandsLaidOut.begins (laid : OperandsLaidOut operands text)
    (words : ∀ token ∈ operands, Text.IsWord token) :
    SourceLine.beginsBlank text = false ∧ text.head? ≠ some ',' := by
  cases laid with
  | last =>
    have first := (words text (List.mem_cons_self ..)).begins []
    rwa [List.append_nil] at first
  | cons => exact (words _ (List.mem_cons_self ..)).begins _

/-- Operands are separated by commas with one space behind them. -/
theorem OperandsLaidOut.respacePlain_eq (laid : OperandsLaidOut operands text)
    (words : ∀ token ∈ operands, Text.IsWord token) :
    SourceLine.respacePlain text = Text.join [',', ' '] operands := by
  induction laid with
  | last token =>
    have word := words token (List.mem_cons_self ..)
    exact SourceLine.respacePlain_eq_self word.solid word.isToken.single
  | cons left right more ih =>
    rw [List.forall_mem_cons] at words
    rw [SourceLine.respacePlain_append words.1.solid words.1.isToken.single,
      SourceLine.respacePlain_comma (more.begins words.2).1 left.blank right.blank, ih words.2]
    cases more <;> simp [Text.join]

theorem OperandsLaidOut.isPlain (laid : OperandsLaidOut operands text)
    (words : ∀ token ∈ operands, Text.IsWord token) : ∀ c ∈ text, Text.IsPlain c := by
  induction laid with
  | last token => exact (words token (List.mem_cons_self ..)).isPlain
  | cons left right _ ih =>
    rw [List.forall_mem_cons] at words
    rw [List.forall_mem_append, List.forall_mem_append, List.forall_mem_cons,
      List.forall_mem_append]
    exact ⟨words.1.isPlain, left.isPlain, by decide, right.isPlain, ih words.2⟩

end Operands

section Line
variable {mnemonic body : Text} {operands : List Text} (laid : LaidOut mnemonic operands body)
  (word : Text.IsWord mnemonic) (words : ∀ token ∈ operands, Text.IsWord token)
include laid word words

theorem LaidOut.isPlain : ∀ c ∈ body, Text.IsPlain c := by
  cases laid with
  | alone => exact word.isPlain
  | operands blank some more =>
    rw [List.forall_mem_append, List.forall_mem_append]
    exact ⟨word.isPlain, blank.isPlain, more.isPlain words⟩

theorem LaidOut.tidy_eq : SourceLine.tidy body = Text.trim (SourceLine.respacePlain body) := by
  rw [SourceLine.tidy, SourceLine.respace_plain]
  exact fun member => (laid.isPlain word words _ member).2.2.1 rfl

theorem LaidOut.mem_tidy_iff {c : CodePoint} (solid : Text.isBlank c = false) :
    c ∈ SourceLine.tidy body ↔ c ∈ body := by
  rw [laid.tidy_eq word words, Text.mem_trim_iff solid, SourceLine.mem_respacePlain_iff solid]

/-- The mnemonic and the operands do not depend on the layout. -/
theorem LaidOut.ofText_tidy :
    ofText (SourceLine.tidy body) = ⟨Text.toLower mnemonic, operands⟩ := by
  rw [laid.tidy_eq word words, ofText_trim]
  cases laid with
  | alone =>
    have space : .char ' ' ∉ mnemonic := fun member => absurd (word.solid _ member) (by decide)
    rw [SourceLine.respacePlain_eq_self word.solid word.isToken.single, ofText,
      word.isToken.trimmed, Text.cut_of_not_mem space]
  | operands blank some more =>
    obtain ⟨next, comma⟩ := more.begins words
    have full : operands ≠ [[]] := by
      rintro rfl
      exact (words [] (List.mem_cons_self ..)).present rfl
    rw [SourceLine.respacePlain_append word.solid word.isToken.single,
      SourceLine.respacePlain_gap_append next comma blank.blank some, more.respacePlain_eq words]
    exact ofText_append_join word.present word.solid more.ne_nil full
      fun token member => (words token member).isToken

theorem LaidOut.tidy_ne_nil : SourceLine.tidy body ≠ [] := by
  obtain ⟨c, rest, rfl⟩ := List.exists_cons_of_ne_nil word.present
  have solid := word.solid c (List.mem_cons_self ..)
  refine List.ne_nil_of_mem ((laid.mem_tidy_iff word words solid).2 ?_)
  cases laid <;> exact List.mem_cons_self ..

theorem LaidOut.looseHeader?_tidy : Label.looseHeader? (SourceLine.tidy body) = none := by
  refine Label.looseHeader?_of_not_mem fun member => ?_
  have own := (laid.mem_tidy_iff word words (by decide)).1 member
  exact (laid.isPlain word words _ own).2.1 rfl

end Line

end Instruction

/-! ## Lines that only count -/

namespace SourceLine

/-- Lines with idle ones put among them. -/
inductive Interspersed : List Text → List Text → Prop
  | nil : Interspersed [] []
  | line {before after : List Text} (raw : Text) (more : Interspersed before after) :
    Interspersed (raw :: before) (raw :: after)
  | idle {before after : List Text} {raw : Text} (idle : IsIdle raw)
    (more : Interspersed before after) : Interspersed before (raw :: after)

theorem IsIdle.normalise_eq {raw : Text} (idle : IsIdle raw) : normalise raw = [] :=
  normalise_of_blank idle.uncomment

/-- What is left of a numbered raw line. -/
def ofRaw? (raw : Text) (number : Nat) : Option SourceLine :=
  if normalise raw = [] then none else some ⟨normalise raw, number⟩

theorem ofSource_eq (source : Text) :
    ofSource source = ((Text.lines source).zipIdx 1).filterMap fun line => ofRaw? line.1 line.2 :=
  rfl

/-- Places that all come after one more line, which is kept. -/
def placeBehind (place : Nat → Nat) : Nat → Nat
  | 0 => 0
  | i + 1 => place i + 1

theorem strictMono_placeBehind {place : Nat → Nat} (mono : StrictMono place) :
    StrictMono (placeBehind place) := by
  refine strictMono_nat_of_lt_succ fun i => ?_
  cases i with
  | zero => exact Nat.zero_lt_succ _
  | succ i => exact Nat.succ_lt_succ (mono (Nat.lt_succ_self i))

/-- Every line goes to a place of its own in the same order, and nothing is left of the lines at all
other places. -/
theorem Interspersed.exists_place {before after : List Text} (h : Interspersed before after) :
    ∃ place : Nat → Nat, StrictMono place ∧
      (∀ (i : Nat) (raw : Text), before[i]? = some raw → after[place i]? = some raw) ∧
      ∀ n, (after.zipIdx n).filterMap (fun line => ofRaw? line.1 line.2) =
        before.zipIdx.filterMap fun line => ofRaw? line.1 (place line.2 + n) := by
  induction h with
  | nil => exact ⟨id, strictMono_id, fun _ _ h => h, fun _ => rfl⟩
  | line raw more ih =>
    obtain ⟨place, mono, kept, same⟩ := ih
    refine ⟨placeBehind place, strictMono_placeBehind mono, fun i other => ?_, fun n => ?_⟩
    · cases i with
      | zero => exact id
      | succ i => exact kept i other
    · have later : (fun line : Text × Nat => ofRaw? line.1 (place line.2 + (n + 1))) =
          (fun line => ofRaw? line.1 (placeBehind place line.2 + n)) ∘ Prod.map id (· + 1) := by
        funext line
        have sum : place line.2 + (n + 1) = place line.2 + 1 + n := by omega
        exact congrArg (ofRaw? line.1) sum
      have own : placeBehind place 0 + n = n := Nat.zero_add n
      rw [List.zipIdx_cons, List.zipIdx_cons', List.filterMap_cons, List.filterMap_cons,
        List.filterMap_map, ← later, same (n + 1), own]
  | @idle _ _ raw idle more ih =>
    obtain ⟨place, mono, kept, same⟩ := ih
    refine ⟨fun i => place i + 1, fun i j below => Nat.succ_lt_succ (mono below), kept,
      fun n => ?_⟩
    have nothing : ofRaw? raw n = none := if_pos idle.normalise_eq
    rw [List.zipIdx_cons, List.filterMap_cons, same (n + 1)]
    simp only [nothing]
    refine List.filterMap_congr fun line _ => ?_
    have sum : place line.2 + (n + 1) = place line.2 + 1 + n := by omega
    rw [sum]

/-- Idle lines only change the numbers of the other lines. -/
theorem ofSource_of_interspersed {source filled : Text}
    (h : Interspersed (Text.lines source) (Text.lines filled)) :
    ∃ place : Nat → Nat, StrictMono place ∧
      (∀ (i : Nat) (raw : Text), (Text.lines source)[i]? = some raw →
        (Text.lines filled)[place i]? = some raw) ∧
      ofSource filled = (ofSource source).map fun line =>
        ⟨line.text, (place (line.number.toNat - 1) + 1 : Nat)⟩ := by
  obtain ⟨place, mono, kept, same⟩ := h.exists_place
  refine ⟨place, mono, kept, ?_⟩
  rw [ofSource_eq, ofSource_eq, same 1, List.map_filterMap, ← Nat.zero_add 1, List.zipIdx_succ,
    List.filterMap_map]
  refine List.filterMap_congr fun line _ => ?_
  dsimp only [Function.comp_apply, ofRaw?]
  split
  · rfl
  · simp

end SourceLine

/-! ## Reading a layout -/

/-- A line is read as the names, the mnemonic and the operands that are laid out in it, whatever the
layout is. Blank lines and lines of comments change the numbers of the other lines and nothing
else. -/
theorem parse_of_layout :
    (∀ (names : List Text) (mnemonic : Text) (operands : List Text) (body raw : Text),
      Text.IsWord mnemonic → (∀ token ∈ operands, Text.IsWord token) →
      Instruction.LaidOut mnemonic operands body → SourceLine.LaidOut names body raw →
      ∃ text rest, SourceLine.ofSource raw = [⟨text, 1⟩] ∧ Label.split text = (names, rest) ∧
        Instruction.ofText rest = ⟨Text.toLower mnemonic, operands⟩) ∧
    ∀ source filled : Text,
      SourceLine.Interspersed (Text.lines source) (Text.lines filled) →
      ∃ place : Nat → Nat, StrictMono place ∧
        (∀ (i : Nat) (raw : Text), (Text.lines source)[i]? = some raw →
          (Text.lines filled)[place i]? = some raw) ∧
        SourceLine.ofSource filled = (SourceLine.ofSource source).map fun line =>
          ⟨line.text, (place (line.number.toNat - 1) + 1 : Nat)⟩ := by
  refine ⟨?_, fun source filled => SourceLine.ofSource_of_interspersed⟩
  intro names mnemonic operands body raw word words instruction laid
  have plain := instruction.isPlain word words
  have closed (rest : Text) : SourceLine.uncomment (body ++ rest) =
      body ++ SourceLine.uncomment rest :=
    SourceLine.uncomment_append (fun c member => (plain c member).2.2) rest
  have bare := instruction.looseHeader?_tidy word words
  refine ⟨SourceLine.write names (SourceLine.tidy body), SourceLine.tidy body, ?_,
    laid.split_write closed bare, instruction.ofText_tidy word words⟩
  exact laid.ofSource_eq closed bare (fun c member => (plain c member).1)
    (instruction.tidy_ne_nil word words)

/-- Two headers and a comment with a quote in it around an instruction in capitals, and two lines
with idle ones around them. -/
theorem parse_of_layout_spread :
    (∃ text rest,
      SourceLine.ofSource "\tmain :loop:  ADDI\u00a0 $t0 ,$t0,-1 # \"x: y".toText =
        [⟨text, 1⟩] ∧
      Label.split text = (["main".toText, "loop".toText], rest) ∧
      Instruction.ofText rest =
        ⟨"addi".toText, ["$t0".toText, "$t0".toText, "-1".toText]⟩) ∧
    ∃ place : Nat → Nat, StrictMono place ∧
      (∀ (i : Nat) (raw : Text), (Text.lines "nop\nnop 1".toText)[i]? = some raw →
        (Text.lines " \nnop\n\t# :\"\nnop 1\n#".toText)[place i]? = some raw) ∧
      SourceLine.ofSource " \nnop\n\t# :\"\nnop 1\n#".toText =
        (SourceLine.ofSource "nop\nnop 1".toText).map fun line =>
          ⟨line.text, (place (line.number.toNat - 1) + 1 : Nat)⟩ := by
  constructor
  · have instruction : Instruction.LaidOut "ADDI".toText
        ["$t0".toText, "$t0".toText, "-1".toText] "ADDI\u00a0 $t0 ,$t0,-1".toText :=
      @Instruction.LaidOut.operands _ "\u00a0 ".toText _ _ (by decide) (by decide)
        (@Instruction.OperandsLaidOut.cons _ [.char ' '] [] _ _ (by decide) (by decide)
          (@Instruction.OperandsLaidOut.cons _ [] [] _ _ (by decide) (by decide) (.last _)))
    have labels : Label.LaidOut ["main".toText, "loop".toText] "main :loop:  ".toText :=
      @Label.LaidOut.cons _ [.char ' '] [] _ _ (by decide) (by decide) (by decide)
        (@Label.LaidOut.cons _ [] "  ".toText _ _ (by decide) (by decide) (by decide) .nil)
    have idle : SourceLine.IsIdle " # \"x: y".toText :=
      @SourceLine.IsIdle.comment [.char ' '] " \"x: y".toText (by decide) (by decide)
    have laid := @SourceLine.LaidOut.intro _ "ADDI\u00a0 $t0 ,$t0,-1".toText [.char '\t'] _ _
      (by decide) labels idle
    have text : "\tmain :loop:  ADDI\u00a0 $t0 ,$t0,-1 # \"x: y".toText = [.char '\t'] ++
        ("main :loop:  ".toText ++ ("ADDI\u00a0 $t0 ,$t0,-1".toText ++ " # \"x: y".toText)) := by
      decide
    rw [text]
    have word : Text.IsWord "ADDI".toText := by decide
    have words : ∀ token ∈ ["$t0".toText, "$t0".toText, "-1".toText], Text.IsWord token := by
      simp only [List.forall_mem_cons]
      exact ⟨by decide, by decide, by decide, List.forall_mem_nil _⟩
    exact parse_of_layout.1 _ _ _ _ _ word words instruction laid
  · refine parse_of_layout.2 "nop\nnop 1".toText " \nnop\n\t# :\"\nnop 1\n#".toText ?_
    exact .idle (.blank (by decide)) (.line _ (.idle
      (@SourceLine.IsIdle.comment [.char '\t'] " :\"".toText (by decide) (by decide))
      (.line _ (.idle (@SourceLine.IsIdle.comment [] [] (by decide) (by simp)) .nil))))

end MipsImage
