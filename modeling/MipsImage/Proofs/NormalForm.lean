import MipsImage.Proofs.Spacing

/-!
# Normal forms

The headers of a raw line are names with any blanks around their colons. What the normal form writes
for them and for the body behind them is divided in the same way again, both by the reader of raw
lines and by the one of normalised lines, so normalising a line twice is the same as doing it once.
-/
set_option autoImplicit false

namespace MipsImage

/-! ## Blanks and line ends -/

namespace Text

theorem isBlank_of_isLineEnd {c : CodePoint} (h : isLineEnd c = true) : isBlank c = true := by
  have within : ∀ a ∈ lineEndRanges, ∃ b ∈ blankRanges, b.1 ≤ a.1 ∧ a.2 ≤ b.2 := by decide
  obtain ⟨a, ha, own⟩ := List.any_eq_true.1 h
  obtain ⟨b, hb, below, above⟩ := within a ha
  rw [Bool.and_eq_true, decide_eq_true_eq, decide_eq_true_eq] at own
  refine List.any_eq_true.2 ⟨b, hb, ?_⟩
  rw [Bool.and_eq_true, decide_eq_true_eq, decide_eq_true_eq]
  omega

theorem isLineEnd_of_solid {c : CodePoint} (solid : isBlank c = false) : isLineEnd c = false := by
  rw [Bool.eq_false_iff]
  intro ends
  cases (isBlank_of_isLineEnd ends).symm.trans solid

theorem trimStart_eq_trim {t : Text} (closed : t.rdropWhile isBlank = t) :
    trimStart t = trim t := by
  have suffix : t.dropWhile isBlank <:+ t := List.dropWhile_suffix isBlank
  rw [trimStart, trim_eq, eq_comm, List.rdropWhile_eq_self_iff]
  intro some last
  have whole := List.rdropWhile_eq_self_iff.1 closed (suffix.ne_nil some)
  rw [suffix.getLast some] at last
  exact whole last

theorem trimStart_rdropWhile (t : Text) : trimStart (t.rdropWhile isBlank) = trim t := by
  have blanks : ∀ c ∈ t.rtakeWhile isBlank, isBlank c = true := fun c member =>
    List.mem_rtakeWhile_imp member
  rw [trimStart_eq_trim (List.rdropWhile_idempotent isBlank t), ← trim_append_blanks blanks,
    List.rdropWhile_append_rtakeWhile]

theorem rdropWhile_append_cons {c : CodePoint} (solid : isBlank c = false) (a b : Text) :
    (a ++ c :: b).rdropWhile isBlank = a ++ c :: b.rdropWhile isBlank := by
  have whole : (c :: b).rdropWhile isBlank = c :: b.rdropWhile isBlank := by
    unfold List.rdropWhile
    rw [List.reverse_cons, List.dropWhile_append]
    split
    · rename_i empty
      rw [List.isEmpty_iff.1 empty, List.dropWhile_cons_of_neg (by simp [solid])]
      rfl
    · simp
  rw [rdropWhile_append_of_ne_nil (whole ▸ List.cons_ne_nil _ _), whole]

end Text

/-! ## Headers of raw source -/

namespace Label

/-- Raw source opens with the header of a label, with any blanks around the colon. -/
inductive LooseHeader : Text → Text → Text → Prop
  | intro {name blanks rest : Text} (proper : Proper name)
    (blank : ∀ c ∈ blanks, Text.isBlank c = true) :
    LooseHeader (name ++ (blanks ++ .char ':' :: rest)) name (Text.trimStart rest)

theorem looseHeader?_eq_some_iff {t name rest : Text} :
    looseHeader? t = some (name, rest) ↔ LooseHeader t name rest := by
  constructor
  · intro h
    unfold looseHeader? at h
    split at h
    · rename_i found after scanned
      obtain ⟨proper, rfl⟩ := of_scan? scanned
      split at h
      · rename_i more behind
        cases h
        rw [← List.takeWhile_append_dropWhile (p := Text.isBlank) (l := after),
          show after.dropWhile Text.isBlank = .char ':' :: more from behind]
        exact .intro proper fun c member => List.mem_takeWhile_imp member
      · cases h
    · cases h
  · rintro ⟨proper, blank⟩
    rename_i blanks rest
    have stop : ∀ c, (blanks ++ .char ':' :: rest).head? = some c → isNext c = false := by
      cases blanks with
      | nil =>
        rintro c ⟨⟩
        decide
      | cons b more =>
        rintro c ⟨⟩
        rw [Bool.eq_false_iff]
        intro next
        cases (blank b (List.mem_cons_self ..)).symm.trans (not_isBlank_of_isNext next)
    have behind : Text.trimStart (blanks ++ .char ':' :: rest) = .char ':' :: rest := by
      rw [Text.trimStart, List.dropWhile_append_of_pos blank,
        List.dropWhile_cons_of_neg (by decide)]
    rw [looseHeader?, scan?_append proper stop]
    dsimp only
    rw [behind]
    rfl

theorem Proper.dropWhile_append {name : Text} (proper : Proper name) (rest : Text) :
    (name ++ rest).dropWhile Text.isBlank = name ++ rest := by
  cases name with
  | nil => exact proper.elim
  | cons c more =>
    exact List.dropWhile_cons_of_neg (by simp [proper.solid c (List.mem_cons_self ..)])

theorem LooseHeader.colon {name : Text} (proper : Proper name) (rest : Text) :
    LooseHeader (name ++ .char ':' :: rest) name (Text.trimStart rest) :=
  @LooseHeader.intro name [] rest proper (List.forall_mem_nil _)

/-- A header of a normalised line is one of raw source. -/
theorem Header.looseHeader {t name rest : Text} (h : Header t name rest) :
    ∃ more, LooseHeader t name more := by
  cases h with
  | spaced proper | last proper closed => exact ⟨_, .colon proper _⟩

theorem splitLoose_of_header {t name rest : Text} (h : looseHeader? t = some (name, rest)) :
    splitLoose t = (name :: (splitLoose rest).1, (splitLoose rest).2) := by
  rw [splitLoose]
  split
  · rename_i found
    rw [h] at found
    cases found
    rfl
  · rename_i none
    rw [h] at none
    cases none

theorem splitLoose_of_bare {t : Text} (h : looseHeader? t = none) : splitLoose t = ([], t) := by
  rw [splitLoose]
  split
  · rename_i found
    rw [h] at found
    cases found
  · rfl

theorem splitLoose_suffix (t : Text) : (splitLoose t).2 <:+ t := by
  induction t using splitLoose.induct with
  | case1 t name rest header names body later ih =>
    rw [splitLoose_of_header header]
    obtain ⟨proper, blank⟩ := looseHeader?_eq_some_iff.1 header
    rename_i blanks more
    have behind : Text.trimStart more <:+ more := List.dropWhile_suffix Text.isBlank
    refine ih.trans (behind.trans ?_)
    rw [← List.append_assoc, List.append_cons]
    exact List.suffix_append _ more
  | case2 t bare =>
    have whole : (splitLoose t).2 = t := by rw [splitLoose_of_bare bare]
    exact ⟨[], whole⟩

end Label

/-! ## Tidy lines -/

namespace SourceLine

/-- A line respaced and without blanks at its ends. -/
def tidy (t : Text) : Text := Text.trim (respace t)

theorem tidy_trim (t : Text) : tidy (Text.trim t) = tidy t := trim_respace_trim t

theorem tidy_tidy (t : Text) : tidy (tidy t) = tidy t := by
  rw [tidy, tidy, trim_respace_trim, respace_respace]

theorem tidy_blanks_append {blanks : Text} (h : ∀ c ∈ blanks, Text.isBlank c = true) (t : Text) :
    tidy (blanks ++ t) = tidy t := by
  rw [← tidy_trim, Text.trim_blanks_append h, tidy_trim]

theorem tidy_append_blanks {blanks : Text} (h : ∀ c ∈ blanks, Text.isBlank c = true) (t : Text) :
    tidy (t ++ blanks) = tidy t := by
  rw [← tidy_trim, Text.trim_append_blanks h, tidy_trim]

theorem tidy_trimStart (t : Text) : tidy (Text.trimStart t) = tidy t := by
  have blanks : ∀ c ∈ t.takeWhile Text.isBlank, Text.isBlank c = true := fun c member =>
    List.mem_takeWhile_imp member
  rw [← tidy_blanks_append blanks (Text.trimStart t), Text.trimStart,
    List.takeWhile_append_dropWhile]

theorem parts_eq (t : Text) : parts t = Label.splitLoose (tidy t) := by
  rw [← tidy_trim]
  rfl

theorem parts_blanks_append {blanks : Text} (h : ∀ c ∈ blanks, Text.isBlank c = true) (t : Text) :
    parts (blanks ++ t) = parts t := by
  rw [parts_eq, tidy_blanks_append h, ← parts_eq]

section Header
variable {name blanks : Text} (proper : Label.Proper name)
  (blank : ∀ c ∈ blanks, Text.isBlank c = true)
include proper blank

theorem quote_not_mem_header : .char '"' ∉ name ++ blanks := by
  rw [List.mem_append, not_or]
  exact ⟨proper.not_mem (by decide), fun member => absurd (blank _ member) (by decide)⟩

/-- A header stays in front of the line that is made tidy behind it. -/
theorem looseHeader?_tidy (more : Text) :
    Label.looseHeader? (tidy (name ++ (blanks ++ .char ':' :: more))) = some (name, tidy more) := by
  have front : respacePlain (name ++ blanks) = name ++ respacePlain blanks :=
    respacePlain_append proper.solid (proper.not_mem (by decide)) blanks
  have respaced : respace (name ++ (blanks ++ .char ':' :: more)) =
      name ++ (respacePlain blanks ++ .char ':' :: respace more) := by
    rw [← List.append_assoc, respace_append_cons (by decide) (by decide) (by decide)
      (quote_not_mem_header proper blank), front, List.append_assoc]
  have whole : tidy (name ++ (blanks ++ .char ':' :: more)) =
      name ++ (respacePlain blanks ++ .char ':' :: (respace more).rdropWhile Text.isBlank) := by
    rw [tidy, respaced, Text.trim_eq, proper.dropWhile_append, ← List.append_assoc,
      Text.rdropWhile_append_cons (by decide), List.append_assoc]
  rw [whole, tidy, ← Text.trimStart_rdropWhile]
  exact Label.looseHeader?_eq_some_iff.2 (.intro proper (isBlank_of_mem_respacePlain blank))

theorem parts_header (more : Text) :
    parts (name ++ (blanks ++ .char ':' :: more)) = (name :: (parts more).1, (parts more).2) := by
  rw [parts_eq, parts_eq, Label.splitLoose_of_header (looseHeader?_tidy proper blank more)]

theorem uncomment_header (more : Text) :
    uncomment (name ++ (blanks ++ .char ':' :: more)) =
      name ++ (blanks ++ .char ':' :: uncomment more) := by
  have own : ∀ c ∈ name, c ≠ .char '"' ∧ c ≠ .char '#' := by
    intro c member
    constructor <;>
    · rintro rfl
      exact proper.not_mem (by decide) member
  have colon : uncomment (.char ':' :: more) = .char ':' :: uncomment more :=
    @uncomment_append [':'] (by simp) more
  rw [uncomment_append own, uncomment_append (plain_of_blank blank), colon]

end Header

/-! ## Lines without comments -/

theorem uncomment_trimStart {t : Text} (h : uncomment t = t) :
    uncomment (Text.trimStart t) = Text.trimStart t := by
  have blanks : ∀ c ∈ t.takeWhile Text.isBlank, Text.isBlank c = true := fun c member =>
    List.mem_takeWhile_imp member
  rw [← List.takeWhile_append_dropWhile (p := Text.isBlank) (l := t),
    uncomment_append (plain_of_blank blanks), List.append_cancel_left_eq] at h
  exact h

theorem uncomment_tidy {t : Text} (h : uncomment t = t) : uncomment (tidy t) = tidy t := by
  have start := uncomment_trimStart (uncomment_respace h)
  rw [← List.rdropWhile_append_rtakeWhile (p := Text.isBlank) (l := Text.trimStart _)] at start
  exact uncommentFrom_of_append start

/-! ## Headers and body -/

/-- Header names and a body as they are read from a line. -/
structure IsNormal (names : List Text) (body : Text) : Prop where
  proper : ∀ name ∈ names, Label.Proper name
  tidy : tidy body = body
  uncommented : uncomment body = body
  bare : Label.looseHeader? body = none

section Behind
variable {t name rest : Text} (header : Label.LooseHeader t name rest)
include header

/-- What follows a header of a tidy line is tidy. -/
theorem tidy_of_header (clean : tidy t = t) : tidy rest = rest := by
  have found := Label.looseHeader?_eq_some_iff.2 header
  obtain ⟨proper, blank⟩ := header
  rename_i more
  have read := looseHeader?_tidy proper blank more
  rw [clean, found] at read
  rw [tidy_trimStart, ← (Prod.mk.inj (Option.some.inj read)).2]

theorem uncomment_of_header (h : uncomment t = t) : uncomment rest = rest := by
  obtain ⟨proper, blank⟩ := header
  rw [uncomment_header proper blank, List.append_cancel_left_eq, List.append_cancel_left_eq,
    List.cons.injEq] at h
  exact uncomment_trimStart h.2

theorem proper_of_header : Label.Proper name := by
  cases header with
  | intro proper => exact proper

end Behind

theorem isNormal_splitLoose {t : Text} (clean : tidy t = t) (h : uncomment t = t) :
    IsNormal (Label.splitLoose t).1 (Label.splitLoose t).2 := by
  induction t using Label.splitLoose.induct with
  | case1 t name rest found names body later ih =>
    have header := Label.looseHeader?_eq_some_iff.1 found
    have normal := ih (tidy_of_header header clean) (uncomment_of_header header h)
    rw [Label.splitLoose_of_header found]
    exact ⟨List.forall_mem_cons.2 ⟨proper_of_header header, normal.proper⟩, normal.tidy,
      normal.uncommented, normal.bare⟩
  | case2 t bare =>
    rw [Label.splitLoose_of_bare bare]
    exact ⟨List.forall_mem_nil _, clean, h, bare⟩

theorem isNormal_parts {t : Text} (h : uncomment t = t) : IsNormal (parts t).1 (parts t).2 := by
  rw [parts_eq]
  exact isNormal_splitLoose (tidy_tidy t) (uncomment_tidy h)

theorem write_singleton (name : Text) : write [name] [] = name ++ [.char ':'] := by
  simp [write, Text.join]

/-- A written header is separated by a space from what is written behind it. -/
theorem exists_write_cons (name : Text) (names : List Text) (body : Text) :
    ∃ gap, (∀ c ∈ gap, c = .char ' ') ∧
      write (name :: names) body = name ++ ([] ++ .char ':' :: (gap ++ write names body)) := by
  by_cases more : names ≠ [] ∨ body ≠ []
  · exact ⟨[' '], by simp, write_cons name more⟩
  · rw [not_or, not_not, not_not] at more
    obtain ⟨rfl, rfl⟩ := more
    exact ⟨[], List.forall_mem_nil _, write_singleton name⟩

theorem write_eq_nil_iff {names : List Text} {body : Text} :
    write names body = [] ↔ names = [] ∧ body = [] := by
  cases names with
  | nil => rw [write_nil, eq_self, true_and]
  | cons name rest =>
    obtain ⟨gap, -, text⟩ := exists_write_cons name rest body
    rw [text]
    simp

namespace IsNormal

variable {names : List Text} {body : Text}

theorem tail {name : Text} (normal : IsNormal (name :: names) body) : IsNormal names body where
  proper := (List.forall_mem_cons.1 normal.proper).2
  tidy := normal.tidy
  uncommented := normal.uncommented
  bare := normal.bare

theorem trim (normal : IsNormal names body) : Text.trim body = body := by
  rw [← normal.tidy, SourceLine.tidy, Text.trim_trim]

/-- What is written is divided again as it was. -/
theorem parts_write (normal : IsNormal names body) : parts (write names body) = (names, body) := by
  induction names with
  | nil => rw [write_nil, parts_eq, normal.tidy, Label.splitLoose_of_bare normal.bare]
  | cons name rest ih =>
    obtain ⟨gap, blank, text⟩ := exists_write_cons name rest body
    have blank : ∀ c ∈ gap, Text.isBlank c = true := by
      intro c member
      rw [blank c member]
      decide
    rw [text, parts_header (normal.proper name (List.mem_cons_self ..)) (List.forall_mem_nil _),
      parts_blanks_append blank, ih normal.tail]

theorem uncomment_write (normal : IsNormal names body) :
    uncomment (write names body) = write names body := by
  induction names with
  | nil => rw [write_nil, normal.uncommented]
  | cons name rest ih =>
    obtain ⟨gap, blank, text⟩ := exists_write_cons name rest body
    have plain : ∀ c ∈ gap, c ≠ '"' ∧ c ≠ '#' := by
      intro c member
      rw [blank c member]
      decide
    rw [text, uncomment_header (normal.proper name (List.mem_cons_self ..))
      (List.forall_mem_nil _), uncomment_append plain, ih normal.tail]

theorem normalise_write (normal : IsNormal names body) :
    normalise (write names body) = write names body := by
  rw [normalise, normal.uncomment_write, normal.parts_write]

/-- The reader of normalised lines divides what is written in the same way. -/
theorem split_write (normal : IsNormal names body) :
    Label.split (write names body) = (names, body) := by
  refine Label.split_eq_iff.2 (headers_write normal.proper fun name rest header => ?_)
  obtain ⟨more, loose⟩ := header.looseHeader
  have some := Label.looseHeader?_eq_some_iff.2 loose
  rw [normal.bare] at some
  cases some

theorem trim_write (normal : IsNormal names body) :
    Text.trim (write names body) = write names body := by
  induction names with
  | nil => rw [write_nil, normal.trim]
  | cons name rest ih =>
    have proper := normal.proper name (List.mem_cons_self ..)
    have behind := (Text.trim_eq_self_iff.1 (ih normal.tail)).2
    by_cases more : rest ≠ [] ∨ body ≠ []
    · have some : write rest body ≠ [] := by
        rwa [Ne, write_eq_nil_iff, not_and_or]
      have space := Text.rdropWhile_append_of_ne_nil (a := [' ']) (behind.symm ▸ some)
      rw [behind] at space
      rw [write_cons name more, Text.trim_eq, proper.dropWhile_append,
        Text.rdropWhile_append_cons (by decide)]
      exact congrArg (name ++ .char ':' :: ·) space
    · rw [not_or, not_not, not_not] at more
      obtain ⟨rfl, rfl⟩ := more
      rw [write_singleton, Text.trim_eq, proper.dropWhile_append,
        Text.rdropWhile_append_cons (by decide)]
      rfl

end IsNormal

/-! ## Normal forms -/

theorem isNormal_parts_uncomment (raw : Text) :
    IsNormal (parts (uncomment raw)).1 (parts (uncomment raw)).2 :=
  isNormal_parts (uncomment_uncomment raw)

theorem normalise_normalise (raw : Text) : normalise (normalise raw) = normalise raw :=
  (isNormal_parts_uncomment raw).normalise_write

theorem split_normalise (raw : Text) : Label.split (normalise raw) = parts (uncomment raw) :=
  (isNormal_parts_uncomment raw).split_write

/-- Of a line that is blank up to a comment nothing is left. -/
theorem normalise_of_blank {raw : Text} (blank : ∀ c ∈ uncomment raw, Text.isBlank c = true) :
    normalise raw = [] := by
  have nothing : tidy (uncomment raw) = [] := by
    rw [← List.append_nil (uncomment raw), tidy_blanks_append blank, tidy,
      respace_plain List.not_mem_nil]
    rfl
  rw [normalise, parts_eq, nothing, Label.splitLoose_of_bare rfl]
  rfl

theorem trim_normalise (raw : Text) : Text.trim (normalise raw) = normalise raw :=
  (isNormal_parts_uncomment raw).trim_write

theorem isLineEnd_write {names : List Text} {body : Text}
    (proper : ∀ name ∈ names, Label.Proper name)
    (line : ∀ c ∈ body, Text.isLineEnd c = false) :
    ∀ c ∈ write names body, Text.isLineEnd c = false := by
  induction names with
  | nil => rwa [write_nil]
  | cons name rest ih =>
    rw [List.forall_mem_cons] at proper
    obtain ⟨gap, space, text⟩ := exists_write_cons name rest body
    rw [text, List.nil_append, List.forall_mem_append, List.forall_mem_cons,
      List.forall_mem_append]
    refine ⟨fun c member => Text.isLineEnd_of_solid (proper.1.solid c member), by decide,
      fun c member => ?_, ih proper.2⟩
    rw [space c member]
    decide

/-- A normal form is one line. -/
theorem isLineEnd_normalise {raw : Text} (line : ∀ c ∈ raw, Text.isLineEnd c = false) :
    ∀ c ∈ normalise raw, Text.isLineEnd c = false := by
  have body : (parts (uncomment raw)).2.Sublist (respace (uncomment raw)) := by
    rw [parts_eq]
    exact (Label.splitLoose_suffix _).sublist.trans (Text.trim_sublist _)
  refine isLineEnd_write (isNormal_parts_uncomment raw).proper fun c member => ?_
  rcases eq_space_or_mem_of_mem_respace (body.subset member) with rfl | own
  · decide
  · exact line c ((opening_uncommentFrom false false raw).subset own)

end SourceLine

end MipsImage
