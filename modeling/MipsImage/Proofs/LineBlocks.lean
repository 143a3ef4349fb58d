import MipsImage.Proofs.Headers
import MipsImage.Proofs.LineLimit

/-!
# Blocks line by line

What expansion does, said for one line at a time: a line has labels and fragments, or it is refused
because it cannot be expanded or because the image is too large after it. A run over lines succeeds
exactly if none of them is refused where it stands, and otherwise ends with the first that is.
-/
set_option autoImplicit false

namespace MipsImage

/-! ## One line -/

/-- The labels of a line, the fragments that it stands for and what was cut on the way to them. A
line of labels alone stands for an empty piece of data. -/
inductive SourceLine.Expands (limit : Option Int) (line : SourceLine) :
    List Text → List Fragment → List Truncation → Prop
  | labels {names : List Text} (headers : Label.Headers line.text names []) :
    Expands limit line names [.data []] []
  | body {names : List Text} {body : Text} {fragments : List Fragment} {notes : List Truncation}
    (headers : Label.Headers line.text names body) (present : body ≠ [])
    (expanded : expandLine limit body = ⟨notes, .ok fragments⟩) :
    Expands limit line names fragments notes

/-- An image may end at this address. -/
def FitsLimit (limit : Option Int) (address : Int) : Prop :=
  ∀ most, limit = some most → address ≤ most

/-- A line has no place at an address, for what is wrong with it or for its size. -/
inductive SourceLine.Refused (limit : Option Int) (address : Int) (line : SourceLine) :
    List Truncation → Failure Fault → Prop
  | body {names : List Text} {body : Text} {notes : List Truncation} {cause : Failure Fault}
    (headers : Label.Headers line.text names body) (present : body ≠ [])
    (failed : expandLine limit body = ⟨notes, .error cause⟩) :
    Refused limit address line notes cause
  | size {names : List Text} {fragments : List Fragment} {notes : List Truncation} {most : Int}
    (expands : line.Expands limit names fragments notes) (bounded : limit = some most)
    (above : most < endOf address (Block.ofFragments line.number names fragments)) :
    Refused limit address line notes (.fault (.imageTooLarge most))

namespace Block

theorem ofLine_eq_ok_iff {limit : Option Int} {line : SourceLine} {warnings : List Warning}
    {group : List Block} :
    ofLine limit line = ⟨warnings, .ok group⟩ ↔
      ∃ names fragments notes, line.Expands limit names fragments notes ∧
        group = ofFragments line.number names fragments ∧
        warnings = notes.map (Warning.mk line.number) := by
  have headers := Label.headers_split line.text
  rw [ofLine_eq, Outcome.bind_eq_ok_iff]
  unfold fragmentsOfLine
  constructor
  · rintro ⟨fragments, first, _, hfragments, hgroup, rfl⟩
    cases hgroup
    split at hfragments
    · rename_i empty
      cases hfragments
      rw [empty] at headers
      exact ⟨_, _, [], .labels headers, rfl, rfl⟩
    · rename_i present
      obtain ⟨notes, expanded, rfl⟩ := Outcome.atLine_eq_ok_iff.1 hfragments
      exact ⟨_, _, notes, .body headers present expanded, rfl, List.append_nil _⟩
  · rintro ⟨names, fragments, notes, expands, rfl, rfl⟩
    refine ⟨fragments, _, [], ?_, ?_, (List.append_nil _).symm⟩
    · cases expands with
      | labels headers =>
        rw [Label.split_eq_iff.2 headers, if_pos rfl]
        rfl
      | body headers present expanded =>
        rw [Label.split_eq_iff.2 headers, if_neg present, expanded]
        rfl
    · cases expands with
      | labels headers => rw [Label.split_eq_iff.2 headers]; rfl
      | body headers _ _ => rw [Label.split_eq_iff.2 headers]; rfl

theorem ofLine_eq_error_iff {limit : Option Int} {line : SourceLine} {warnings : List Warning}
    {failure : Failure LocatedFault} :
    ofLine limit line = ⟨warnings, .error failure⟩ ↔
      ∃ names body notes cause, Label.Headers line.text names body ∧ body ≠ [] ∧
        expandLine limit body = ⟨notes, .error cause⟩ ∧
        warnings = notes.map (Warning.mk line.number) ∧
        failure = cause.map (LocatedFault.mk line.number) := by
  have headers := Label.headers_split line.text
  rw [ofLine_eq, Outcome.bind_eq_error_iff]
  unfold fragmentsOfLine
  constructor
  · rintro (h | ⟨_, _, _, _, h, _⟩)
    · split at h
      · cases h
      · rename_i present
        obtain ⟨notes, cause, failed, rfl, rfl⟩ := Outcome.atLine_eq_error_iff.1 h
        exact ⟨_, _, notes, cause, headers, present, failed, rfl, rfl⟩
    · cases h
  · rintro ⟨names, body, notes, cause, headers, present, failed, rfl, rfl⟩
    rw [Label.split_eq_iff.2 headers, if_neg present, failed]
    exact .inl rfl

theorem checkLimit_of_fits {limit : Option Int} {line address : Int}
    (fits : FitsLimit limit address) : checkLimit limit line address = Outcome.ok ⟨⟩ := by
  cases limit with
  | none => rfl
  | some most => exact if_neg (Int.not_lt.2 (fits most rfl))

theorem checkLimit_of_above {line address most : Int} (above : most < address) :
    checkLimit (some most) line address = Outcome.fail (.fault ⟨line, .imageTooLarge most⟩) :=
  if_pos above

/-! ## A run over lines -/

/-- Lines placed from an address on have these groups of blocks, one each, and these warnings. -/
inductive Grouped (limit : Option Int) :
    Int → List SourceLine → List (List Block) → List Warning → Prop
  | nil {address : Int} : Grouped limit address [] [] []
  | cons {address : Int} {line : SourceLine} {rest : List SourceLine} {names : List Text}
    {fragments : List Fragment} {notes : List Truncation} {groups : List (List Block)}
    {warnings : List Warning} (expands : line.Expands limit names fragments notes)
    (fits : FitsLimit limit (endOf address (ofFragments line.number names fragments)))
    (more : Grouped limit (endOf address (ofFragments line.number names fragments)) rest groups
      warnings) :
    Grouped limit address (line :: rest) (ofFragments line.number names fragments :: groups)
      (notes.map (Warning.mk line.number) ++ warnings)

/-! ### Steps -/

theorem ofLinesFrom_cons (limit : Option Int) (address : Int) (line : SourceLine)
    (rest : List SourceLine) :
    ofLinesFrom limit address (line :: rest) =
      (ofLine limit line).bind fun own =>
        (checkLimit limit line.number (endOf address own)).bind fun _ =>
          (ofLinesFrom limit (endOf address own) rest).bind fun more =>
            Outcome.ok (own ++ more) := rfl

section Step
variable {limit : Option Int} {address : Int} {line : SourceLine} {names : List Text}
  {fragments : List Fragment} {notes : List Truncation} {cause : Failure Fault}

theorem ofLinesFrom_cons_of_expands (expands : line.Expands limit names fragments notes)
    (fits : FitsLimit limit (endOf address (ofFragments line.number names fragments)))
    (rest : List SourceLine) :
    ofLinesFrom limit address (line :: rest) =
      Outcome.bind ⟨notes.map (Warning.mk line.number), .ok ()⟩ fun _ =>
        (ofLinesFrom limit (endOf address (ofFragments line.number names fragments)) rest).bind
          fun more => Outcome.ok (ofFragments line.number names fragments ++ more) := by
  rw [ofLinesFrom_cons, ofLine_eq_ok_iff.2 ⟨_, _, _, expands, rfl, rfl⟩]
  simp only [Outcome.bind, checkLimit_of_fits fits, Outcome.ok, List.nil_append]

theorem ofLinesFrom_cons_of_refused (refused : line.Refused limit address notes cause)
    (rest : List SourceLine) :
    ofLinesFrom limit address (line :: rest) =
      ⟨notes.map (Warning.mk line.number), .error (cause.map (LocatedFault.mk line.number))⟩ := by
  rw [ofLinesFrom_cons]
  cases refused with
  | body headers present failed =>
    rw [ofLine_eq_error_iff.2 ⟨_, _, _, _, headers, present, failed, rfl, rfl⟩]
    rfl
  | size expands bounded above =>
    rw [ofLine_eq_ok_iff.2 ⟨_, _, _, expands, rfl, rfl⟩, bounded]
    simp only [Outcome.bind, checkLimit_of_above above, Outcome.fail, List.append_nil, Failure.map]

/-- A line has its place at an address or is refused there. -/
theorem expands_or_refused (limit : Option Int) (address : Int) (line : SourceLine) :
    (∃ names fragments notes, line.Expands limit names fragments notes ∧
        FitsLimit limit (endOf address (ofFragments line.number names fragments))) ∨
      ∃ notes cause, line.Refused limit address notes cause := by
  rcases h : ofLine limit line with ⟨warnings, result⟩
  cases result with
  | error failure =>
    obtain ⟨names, body, notes, cause, headers, present, failed, -, -⟩ := ofLine_eq_error_iff.1 h
    exact .inr ⟨notes, cause, .body headers present failed⟩
  | ok group =>
    obtain ⟨names, fragments, notes, expands, -, -⟩ := ofLine_eq_ok_iff.1 h
    by_cases fits : FitsLimit limit (endOf address (ofFragments line.number names fragments))
    · exact .inl ⟨names, fragments, notes, expands, fits⟩
    · unfold FitsLimit at fits
      push Not at fits
      obtain ⟨most, bounded, above⟩ := fits
      exact .inr ⟨notes, _, .size expands bounded above⟩

end Step

/-! ### Runs -/

theorem Grouped.ofLinesFrom_eq {limit : Option Int} {address : Int} {lines : List SourceLine}
    {groups : List (List Block)} {warnings : List Warning}
    (grouped : Grouped limit address lines groups warnings) :
    ofLinesFrom limit address lines = ⟨warnings, .ok groups.flatten⟩ := by
  induction grouped with
  | nil => rfl
  | cons expands fits _ ih =>
    rw [ofLinesFrom_cons_of_expands expands fits, ih]
    simp only [Outcome.bind, Outcome.ok, List.append_nil, List.flatten_cons]

theorem Grouped.ofLinesFrom_append_refused {limit : Option Int} {address : Int}
    {before : List SourceLine} {groups : List (List Block)} {warnings : List Warning}
    {line : SourceLine} {notes : List Truncation} {cause : Failure Fault}
    (grouped : Grouped limit address before groups warnings)
    (refused : line.Refused limit (endOf address groups.flatten) notes cause)
    (after : List SourceLine) :
    ofLinesFrom limit address (before ++ line :: after) =
      ⟨warnings ++ notes.map (Warning.mk line.number),
        .error (cause.map (LocatedFault.mk line.number))⟩ := by
  induction grouped with
  | nil => exact ofLinesFrom_cons_of_refused refused after
  | cons expands fits _ ih =>
    rw [List.flatten_cons, endOf_append] at refused
    rw [List.cons_append, ofLinesFrom_cons_of_expands expands fits, ih refused]
    simp only [Outcome.bind, List.append_assoc]

/-- Every line has its place where the lines before it end, or one of them is the first to be
refused there. -/
theorem grouped_or_refused (limit : Option Int) (address : Int) (lines : List SourceLine) :
    (∃ groups warnings, Grouped limit address lines groups warnings) ∨
      ∃ before line after groups warnings notes cause, lines = before ++ line :: after ∧
        Grouped limit address before groups warnings ∧
        line.Refused limit (endOf address groups.flatten) notes cause := by
  -- whether a line is refused depends on where the lines before it end
  induction lines generalizing address with
  | nil => exact .inl ⟨[], [], .nil⟩
  | cons line rest ih =>
    rcases expands_or_refused limit address line with
      ⟨names, fragments, notes, expands, fits⟩ | ⟨notes, cause, refused⟩
    · rcases ih (endOf address (ofFragments line.number names fragments)) with
        ⟨groups, warnings, grouped⟩ |
        ⟨before, next, after, groups, warnings, later, cause, rfl, grouped, refused⟩
      · exact .inl ⟨_, _, .cons expands fits grouped⟩
      · refine .inr ⟨line :: before, next, after, _, _, later, cause, rfl,
          .cons expands fits grouped, ?_⟩
        rw [List.flatten_cons, endOf_append]
        exact refused
    · exact .inr ⟨[], line, rest, [], [], notes, cause, rfl, .nil, refused⟩

theorem ofLinesFrom_eq_ok_iff {limit : Option Int} {address : Int} {lines : List SourceLine}
    {warnings : List Warning} {blocks : List Block} :
    ofLinesFrom limit address lines = ⟨warnings, .ok blocks⟩ ↔
      ∃ groups, Grouped limit address lines groups warnings ∧ blocks = groups.flatten := by
  constructor
  · intro h
    rcases grouped_or_refused limit address lines with
      ⟨groups, _, grouped⟩ | ⟨before, line, after, groups, _, notes, cause, rfl, grouped, refused⟩
    · rw [grouped.ofLinesFrom_eq] at h
      cases h
      exact ⟨groups, grouped, rfl⟩
    · rw [grouped.ofLinesFrom_append_refused refused after] at h
      cases h
  · rintro ⟨groups, grouped, rfl⟩
    exact grouped.ofLinesFrom_eq

/-- A run fails exactly with the first line that is refused where it stands. -/
theorem ofLinesFrom_eq_error_iff {limit : Option Int} {address : Int} {lines : List SourceLine}
    {warnings : List Warning} {failure : Failure LocatedFault} :
    ofLinesFrom limit address lines = ⟨warnings, .error failure⟩ ↔
      ∃ before line after groups first notes cause, lines = before ++ line :: after ∧
        Grouped limit address before groups first ∧
        line.Refused limit (endOf address groups.flatten) notes cause ∧
        warnings = first ++ notes.map (Warning.mk line.number) ∧
        failure = cause.map (LocatedFault.mk line.number) := by
  constructor
  · intro h
    rcases grouped_or_refused limit address lines with
      ⟨groups, _, grouped⟩ |
      ⟨before, line, after, groups, first, notes, cause, rfl, grouped, refused⟩
    · rw [grouped.ofLinesFrom_eq] at h
      cases h
    · rw [grouped.ofLinesFrom_append_refused refused after] at h
      cases h
      exact ⟨before, line, after, groups, first, notes, cause, rfl, grouped, refused, rfl, rfl⟩
  · rintro ⟨before, line, after, groups, first, notes, cause, rfl, grouped, refused, rfl, rfl⟩
    exact grouped.ofLinesFrom_append_refused refused after

end Block

end MipsImage
