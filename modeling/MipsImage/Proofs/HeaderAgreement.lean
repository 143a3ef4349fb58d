import MipsImage.Proofs.NormalForm

/-!
# Two readers of headers

Headers are read from a raw line before its normal form is written, and read again from the normal
form when it is assembled. Both readers find the same names and the same body. Neither finds another
header in the body, and no header reaches into a quoted string: all strings of a line are in its
body, as they were. Respacing does not matter for it, since it moves nothing but blanks.
-/
set_option autoImplicit false

namespace MipsImage

/-! ## Strings of a line -/

namespace Quoted

/-- The bodies of all quoted strings of a line. -/
def strings (t : Text) : List Text :=
  match _h : first? t with
  | some (_, body, after) => body :: strings after
  | none => []
termination_by t.length
decreasing_by exact first?_length _h

variable {before rest body after : Text}

theorem strings_of_none {t : Text} (h : first? t = none) : strings t = [] := by
  rw [strings]
  split
  · rename_i some
    rw [h] at some
    cases some
  · rfl

theorem strings_plain {t : Text} (unquoted : .char '"' ∉ t) : strings t = [] :=
  strings_of_none (first?_of_not_mem unquoted)

theorem strings_unclosed (unquoted : .char '"' ∉ before) (never : closing? rest = none) :
    strings (before ++ .char '"' :: rest) = [] :=
  strings_of_none (first?_unclosed unquoted never)

theorem strings_quoted (unquoted : .char '"' ∉ before) (closed : Body body) :
    strings (before ++ .char '"' :: (body ++ .char '"' :: after)) = body :: strings after := by
  rw [strings]
  split
  · rename_i some
    rw [first?_quoted unquoted closed] at some
    cases some
    rfl
  · rename_i none
    rw [first?_quoted unquoted closed] at none
    cases none

theorem exists_inside_of_not_mem {more : Text} (unquoted : .char '"' ∉ more) (escaped : Bool) :
    ∃ last, inside escaped more = some last := by
  induction more generalizing escaped with
  | nil => exact ⟨escaped, rfl⟩
  | cons c rest ih =>
    rw [List.mem_cons, not_or] at unquoted
    rw [inside]
    split
    · exact ih unquoted.2 false
    · rw [if_neg (Ne.symm unquoted.1)]
      exact ih unquoted.2 _

/-- Text without quotes has no share in the strings behind it. -/
theorem strings_append {front : Text} (unquoted : .char '"' ∉ front) (t : Text) :
    strings (front ++ t) = strings t := by
  have opens {more : Text} (h : .char '"' ∉ more) : .char '"' ∉ front ++ more := by
    rw [List.mem_append, not_or]
    exact ⟨unquoted, h⟩
  cases divided t with
  | plain own => rw [strings_plain (opens own), strings_plain own]
  | unclosed own never =>
    rw [← List.append_assoc, strings_unclosed (opens own) never, strings_unclosed own never]
  | quoted own closed _ =>
    rw [← List.append_assoc, strings_quoted (opens own) closed, strings_quoted own closed]

/-- Text without quotes has no share in the strings before it either, for it closes none. -/
theorem strings_append_right {more : Text} (quote : .char '"' ∉ more) (t : Text) :
    strings (t ++ more) = strings t := by
  induction divided t with
  | plain unquoted =>
    rw [strings_plain unquoted, strings_append unquoted, strings_plain quote]
  | @unclosed before rest unquoted never =>
    have still : closing? (rest ++ more) = none := by
      obtain ⟨escaped, opening⟩ := closing?_eq_none_iff.1 never
      obtain ⟨last, through⟩ := exists_inside_of_not_mem quote escaped
      refine closing?_eq_none_iff.2 ⟨last, ?_⟩
      rw [inside_append, opening, Option.bind_some, through]
    rw [List.append_assoc, List.cons_append, strings_unclosed unquoted still,
      strings_unclosed unquoted never]
  | @quoted before body after unquoted closed _ ih =>
    have text : before ++ .char '"' :: (body ++ .char '"' :: after) ++ more =
        before ++ .char '"' :: (body ++ .char '"' :: (after ++ more)) := by simp
    rw [text, strings_quoted unquoted closed, strings_quoted unquoted closed, ih]

theorem strings_trim (t : Text) : strings (Text.trim t) = strings t := by
  have unquoted {blanks : Text} (h : ∀ c ∈ blanks, Text.isBlank c = true) : .char '"' ∉ blanks :=
    fun member => absurd (h _ member) (by decide)
  have whole := Text.blanks_append_trim t
  rw [← congrArg strings whole,
    strings_append_right (unquoted fun c h => List.mem_rtakeWhile_imp h),
    strings_append (unquoted fun c h => List.mem_takeWhile_imp h)]

end Quoted

namespace SourceLine

theorem strings_respace (t : Text) : Quoted.strings (respace t) = Quoted.strings t := by
  induction Quoted.divided t with
  | plain unquoted =>
    rw [respace_plain unquoted, Quoted.strings_plain (quote_not_mem_respacePlain unquoted),
      Quoted.strings_plain unquoted]
  | unclosed unquoted never =>
    rw [respace_unclosed unquoted never, Quoted.strings_unclosed unquoted never,
      Quoted.strings_unclosed (quote_not_mem_respacePlain unquoted) (closing?_respacePlain never)]
  | quoted unquoted closed _ ih =>
    rw [respace_quoted unquoted closed, Quoted.strings_quoted unquoted closed,
      Quoted.strings_quoted (quote_not_mem_respacePlain unquoted) closed, ih]

theorem strings_tidy (t : Text) : Quoted.strings (tidy t) = Quoted.strings t := by
  rw [tidy, Quoted.strings_trim, strings_respace]

/-! ## What is no blank -/

/-- The characters of a text that are no blanks. -/
def solids (t : Text) : Text := t.filter fun c => !Text.isBlank c

theorem solids_collapse (t : Text) : solids (collapse t) = solids t := by
  induction t with
  | nil => rfl
  | cons c rest ih =>
    unfold solids at ih ⊢
    rw [collapse]
    split
    · rename_i blank
      rw [List.filter_cons_of_neg (by simp [blank])]
      split
      · exact ih
      · rw [List.filter_cons_of_neg (by decide), ih]
    · rename_i solid
      rw [List.filter_cons_of_pos (by simp [solid]), List.filter_cons_of_pos (by simp [solid]), ih]

theorem solids_spaceCommas (t : Text) : solids (spaceCommas t) = solids t := by
  have space (rest : Text) : solids (' ' :: rest) = solids rest :=
    List.filter_cons_of_neg (by decide)
  have comma (rest : Text) : solids (.char ',' :: rest) = .char ',' :: solids rest :=
    List.filter_cons_of_pos (by decide)
  induction t using spaceCommas_induction with
  | nil => rfl
  | before rest ih => rw [spaceCommas_space_comma, ih, space]
  | spaced rest ih => rw [spaceCommas, comma, comma, space, space, ih]
  | comma rest next ih => rw [spaceCommas_comma_cons next, comma, comma, space, ih]
  | cons c rest own next ih =>
    unfold solids at ih ⊢
    rw [spaceCommas_cons own next, List.filter_cons, List.filter_cons, ih]

theorem solids_append (a b : Text) : solids (a ++ b) = solids a ++ solids b := List.filter_append ..

/-- Respacing moves nothing but blanks. -/
theorem solids_respace (t : Text) : solids (respace t) = solids t := by
  have plain (t : Text) : solids (respacePlain t) = solids t := by
    rw [respacePlain, solids_spaceCommas, solids_collapse]
  have quote (rest : Text) : solids (.char '"' :: rest) = .char '"' :: solids rest :=
    List.filter_cons_of_pos (by decide)
  induction Quoted.divided t with
  | plain unquoted => rw [respace_plain unquoted, plain]
  | unclosed unquoted never =>
    rw [respace_unclosed unquoted never, solids_append, solids_append, quote, quote, plain, plain]
  | quoted unquoted closed _ ih =>
    rw [respace_quoted unquoted closed, solids_append, solids_append, quote, quote, solids_append,
      solids_append, quote, quote, plain, ih]

theorem solids_eq_nil {blanks : Text} (h : ∀ c ∈ blanks, Text.isBlank c = true) :
    solids blanks = [] := List.filter_eq_nil_iff.2 (by simpa using h)

theorem solids_tidy (t : Text) : solids (tidy t) = solids t := by
  have whole := Text.blanks_append_trim (respace t)
  rw [← solids_respace t, tidy]
  conv_rhs => rw [← whole, solids_append, solids_append,
    solids_eq_nil fun c h => List.mem_takeWhile_imp h,
    solids_eq_nil fun c h => List.mem_rtakeWhile_imp h, List.nil_append, List.append_nil]

end SourceLine

/-! ## Headers of raw source -/

namespace Label

/-- The names of the headers with which raw source opens, up to a rest that opens with none. -/
inductive LooseHeaders : Text → List Text → Text → Prop
  | rest {t : Text} (bare : ∀ name more, ¬LooseHeader t name more) : LooseHeaders t [] t
  | header {t name more rest : Text} {names : List Text} (first : LooseHeader t name more)
    (later : LooseHeaders more names rest) : LooseHeaders t (name :: names) rest

theorem looseHeader?_eq_none_iff {t : Text} :
    looseHeader? t = none ↔ ∀ name more, ¬LooseHeader t name more := by
  rw [Option.eq_none_iff_forall_ne_some, Prod.forall]
  exact forall_congr' fun name => forall_congr' fun more => not_congr looseHeader?_eq_some_iff

theorem splitLoose_eq_iff {t rest : Text} {names : List Text} :
    splitLoose t = (names, rest) ↔ LooseHeaders t names rest := by
  constructor
  · intro h
    induction t using splitLoose.induct generalizing names with
    | case1 t name more found later after heq ih =>
      rw [splitLoose_of_header found] at h
      cases h
      exact .header (looseHeader?_eq_some_iff.1 found) (ih rfl)
    | case2 t none =>
      rw [splitLoose_of_bare none] at h
      cases h
      exact .rest (looseHeader?_eq_none_iff.1 none)
  · intro h
    induction h with
    | rest bare => exact splitLoose_of_bare (looseHeader?_eq_none_iff.2 bare)
    | header first _ ih => rw [splitLoose_of_header (looseHeader?_eq_some_iff.2 first), ih]

/-- What follows a header is all that is left of the text for the next one. -/
theorem wellFounded_looseHeader : WellFounded fun more t => ∃ name, LooseHeader t name more := by
  refine Subrelation.wf ?_ (measure List.length).wf
  rintro more t ⟨name, header⟩
  exact looseHeader?_length (looseHeader?_eq_some_iff.2 header)

theorem wellFounded_header : WellFounded fun more t => ∃ name, Header t name more := by
  refine Subrelation.wf ?_ (measure List.length).wf
  rintro more t ⟨name, header⟩
  exact header?_length (header?_eq_some_iff.2 header)

theorem LooseHeader.exists_front {t name more : Text} (h : LooseHeader t name more) :
    ∃ front, t = front ++ more ∧ .char '"' ∉ front := by
  obtain ⟨proper, blank⟩ := h
  rename_i blanks rest
  have behind : .char '"' ∉ .char ':' :: rest.takeWhile Text.isBlank := by
    rw [List.mem_cons, not_or]
    exact ⟨by decide, fun member => absurd (List.mem_takeWhile_imp member) (by decide)⟩
  refine ⟨name ++ blanks ++ .char ':' :: rest.takeWhile Text.isBlank, ?_, ?_⟩
  · rw [List.append_assoc (name ++ blanks), List.cons_append, Text.trimStart,
      List.takeWhile_append_dropWhile, List.append_assoc]
  · rw [List.mem_append, not_or]
    exact ⟨SourceLine.quote_not_mem_header proper blank, behind⟩

/-- The headers of a text stand in front of its first quote. -/
theorem LooseHeaders.exists_front {t rest : Text} {names : List Text}
    (h : LooseHeaders t names rest) : ∃ front, t = front ++ rest ∧ .char '"' ∉ front := by
  induction h with
  | rest bare => exact ⟨[], rfl, List.not_mem_nil⟩
  | header first _ ih =>
    obtain ⟨front, text, unquoted⟩ := first.exists_front
    obtain ⟨others, behind, plain⟩ := ih
    refine ⟨front ++ others, by rw [text, behind, List.append_assoc], ?_⟩
    rw [List.mem_append, not_or]
    exact ⟨unquoted, plain⟩

end Label

/-! ## Headers of a line and of the tidy line -/

namespace SourceLine

/-- A word in front of blanks was in front of blanks before they were collapsed. -/
theorem of_collapse {front name blanks : Text} (solid : ∀ c ∈ name, Text.isBlank c = false)
    (blank : ∀ c ∈ blanks, Text.isBlank c = true) (h : collapse front = name ++ blanks) :
    ∃ gap, (∀ c ∈ gap, Text.isBlank c = true) ∧ front = name ++ gap := by
  induction name generalizing front with
  | nil =>
    refine ⟨front, fun c member => ?_, rfl⟩
    by_contra other
    rw [Bool.not_eq_true] at other
    have kept := (mem_collapse_iff other).2 member
    rw [h, List.nil_append] at kept
    cases other.symm.trans (blank c kept)
  | cons c rest ih =>
    rw [List.forall_mem_cons] at solid
    have begins := beginsBlank_collapse front
    rw [h] at begins
    cases front with
    | nil => cases h
    | cons d more =>
      have first : Text.isBlank d = false := begins.symm.trans solid.1
      rw [collapse, if_neg (by simp [first]), List.cons_append, List.cons.injEq] at h
      obtain ⟨gap, hgap, rfl⟩ := ih solid.2 h.2
      exact ⟨gap, hgap, by rw [h.1, List.cons_append]⟩

theorem dropWhile_of_beginsBlank {t : Text} (start : beginsBlank t = false) :
    t.dropWhile Text.isBlank = t := by
  cases t with
  | nil => rfl
  | cons c rest => exact List.dropWhile_cons_of_neg (Bool.eq_false_iff.1 start)

/-- The tidy form of a line up to the first colon, if neither a quote nor a comma stands before. -/
theorem tidy_colon {front : Text} (quote : .char '"' ∉ front) (comma : .char ',' ∉ front)
    {rest : Text} (start : beginsBlank (front ++ .char ':' :: rest) = false) :
    tidy (front ++ .char ':' :: rest) =
      collapse front ++ .char ':' :: (respace rest).rdropWhile Text.isBlank := by
  have plain : respacePlain front = collapse front :=
    spaceCommas_eq_self fun member => comma ((mem_collapse_iff (by decide)).1 member)
  have begins (more : Text) : beginsBlank (collapse front ++ .char ':' :: more) = false := by
    cases front with
    | nil => rfl
    | cons d others =>
      have solid : Text.isBlank d = false := start
      rw [collapse, if_neg (Bool.eq_false_iff.1 solid)]
      exact solid
  rw [tidy, respace_append_cons (by decide) (by decide) (by decide) quote, plain, Text.trim_eq,
    dropWhile_of_beginsBlank (begins _), Text.rdropWhile_append_cons (by decide)]

/-- A colon that is solid stands behind as many solid characters as it does without blanks. -/
theorem exists_colon_of_solids {t word rest : Text} (h : solids t = word ++ .char ':' :: rest) :
    ∃ front later, t = front ++ .char ':' :: later ∧ solids front = word := by
  obtain ⟨front, back, rfl, hfront, hback⟩ := List.filter_eq_append_iff.1 h
  obtain ⟨gap, later, rfl, hgap, -, -⟩ := List.filter_eq_cons_iff.1 hback
  have blank : ∀ c ∈ gap, Text.isBlank c = true := by simpa using hgap
  refine ⟨front ++ gap, later, by rw [List.append_assoc], ?_⟩
  rw [solids_append, solids_eq_nil blank, List.append_nil]
  exact hfront

/-- A header of the tidy line was one before, up to its blanks. -/
theorem exists_looseHeader_of_tidy {t name more : Text} (start : beginsBlank t = false)
    (h : Label.LooseHeader (tidy t) name more) : ∃ rest, Label.LooseHeader t name rest := by
  generalize written : tidy t = line at h
  obtain ⟨proper, blank⟩ := h
  rename_i blanks after
  have same : solids t = name ++ .char ':' :: solids after := by
    rw [← solids_tidy, written, solids_append, solids_append, solids_eq_nil blank,
      show solids name = name from List.filter_eq_self.2 (by simpa using proper.solid)]
    rfl
  -- respacing adds no colon, so the one of the header was there before
  obtain ⟨front, later, rfl, own⟩ := exists_colon_of_solids same
  have absent {c : CodePoint} (solid : Text.isBlank c = false) (other : Label.isNext c = false) :
      c ∉ front := by
    intro member
    refine proper.not_mem other ?_
    rw [← own]
    exact List.mem_filter.2 ⟨member, by rw [solid]; rfl⟩
  rw [tidy_colon (absent (by decide) (by decide)) (absent (by decide) (by decide)) start,
    ← List.append_assoc] at written
  -- both lines have their first colon here, so the same stands in front of it
  have collapsed : collapse front = name ++ blanks := by
    have before : .char ':' ∉ collapse front := fun member =>
      absent (by decide) (by decide) ((mem_collapse_iff (by decide)).1 member)
    have behind : .char ':' ∉ name ++ blanks := by
      rw [List.mem_append, not_or]
      exact ⟨proper.not_mem (by decide), fun member => absurd (blank _ member) (by decide)⟩
    have cut := congrArg (Text.cut ':') written
    rw [Text.cut_append_cons before, Text.cut_append_cons behind] at cut
    exact (Prod.mk.inj cut).1
  obtain ⟨gap, hgap, rfl⟩ := of_collapse proper.solid blank collapsed
  rw [List.append_assoc]
  exact ⟨_, .intro proper hgap⟩

theorem beginsBlank_trimStart (t : Text) : beginsBlank (Text.trimStart t) = false := by
  rw [beginsBlank_eq, Text.trimStart]
  cases first : (t.dropWhile Text.isBlank).head? with
  | none => rfl
  | some c =>
    have solid := List.head?_dropWhile_not Text.isBlank t
    rw [first] at solid
    simpa using solid

/-- It does not matter whether headers are read before or after a line is respaced. -/
theorem parts_of_looseHeaders {t rest : Text} {names : List Text}
    (h : Label.LooseHeaders t names rest) (start : beginsBlank t = false) :
    parts t = (names, tidy rest) := by
  induction h with
  | @rest t bare =>
    have none : Label.looseHeader? (tidy t) = none := by
      refine Label.looseHeader?_eq_none_iff.2 fun name more header => ?_
      obtain ⟨behind, own⟩ := exists_looseHeader_of_tidy start header
      exact bare name behind own
    rw [parts_eq, Label.splitLoose_of_bare none]
  | header first _ ih =>
    obtain ⟨proper, blank⟩ := first
    have behind (more : Text) : parts (Text.trimStart more) = parts more := by
      rw [parts_eq, tidy_trimStart, parts_eq]
    rw [parts_header proper blank, ← behind, ih (beginsBlank_trimStart _)]

end SourceLine

/-! ## Agreement -/

/-- Both readers of headers come to an end, and of every raw line they read the same names and the
same body: the names of the headers before the first quote of the line without its comment, and the
tidy form of the rest, which opens with no header and has all strings of the line. -/
theorem header_readers_agree :
    (WellFounded fun more t => ∃ name, Label.LooseHeader t name more) ∧
    (WellFounded fun more t => ∃ name, Label.Header t name more) ∧
    ∀ raw : Text, ∃ names body rest,
      SourceLine.parts (SourceLine.uncomment raw) = (names, body) ∧
      Label.split (SourceLine.normalise raw) = (names, body) ∧
      Label.LooseHeaders (Text.trim (SourceLine.uncomment raw)) names rest ∧
      SourceLine.tidy rest = body ∧
      Label.LooseHeaders (SourceLine.tidy (SourceLine.uncomment raw)) names body ∧
      Label.Headers (SourceLine.normalise raw) names body ∧
      (∀ name more, ¬Label.LooseHeader body name more ∧ ¬Label.Header body name more) ∧
      (∃ front, Text.trim (SourceLine.uncomment raw) = front ++ rest ∧ .char '"' ∉ front) ∧
      Quoted.strings body = Quoted.strings (SourceLine.uncomment raw) := by
  refine ⟨Label.wellFounded_looseHeader, Label.wellFounded_header, fun raw => ?_⟩
  generalize hline : Text.trim (SourceLine.uncomment raw) = line
  have start : SourceLine.beginsBlank line = false := by
    rw [← hline, ← (Text.trim_eq_self_iff.1 (Text.trim_trim _)).1]
    exact SourceLine.beginsBlank_trimStart _
  have headers : Label.LooseHeaders line (Label.splitLoose line).1 (Label.splitLoose line).2 :=
    Label.splitLoose_eq_iff.1 rfl
  generalize (Label.splitLoose line).1 = names, (Label.splitLoose line).2 = rest at headers
  have parts : SourceLine.parts (SourceLine.uncomment raw) = (names, SourceLine.tidy rest) := by
    rw [SourceLine.parts_eq, ← SourceLine.tidy_trim, hline, ← SourceLine.parts_eq]
    exact SourceLine.parts_of_looseHeaders headers start
  have split := SourceLine.split_normalise raw
  rw [parts] at split
  have bare := (SourceLine.isNormal_parts_uncomment raw).bare
  rw [parts] at bare
  have bare := Label.looseHeader?_eq_none_iff.1 bare
  obtain ⟨front, text, unquoted⟩ := headers.exists_front
  refine ⟨names, SourceLine.tidy rest, rest, parts, split, headers, rfl, ?_,
    Label.split_eq_iff.1 split, fun name more => ⟨bare name more, fun header => ?_⟩,
    ⟨front, text, unquoted⟩, ?_⟩
  · rw [SourceLine.parts_eq] at parts
    exact Label.splitLoose_eq_iff.1 parts
  · obtain ⟨behind, loose⟩ := header.looseHeader
    exact bare name behind loose
  · rw [SourceLine.strings_tidy, ← Quoted.strings_append unquoted rest, ← text, ← hline,
      Quoted.strings_trim]

end MipsImage
