import MipsImage.Proofs.Quotes
import MipsImage.Proofs.Relabelling

/-!
# Spacing

Text outside strings is spaced evenly once it has been respaced: every blank in it is a single
space, a comma has one behind it and none of its own before it. Such text is not changed by
respacing, so respacing a line twice is the same as doing it once. Respacing neither moves quotes
nor changes what they escape, so strings and comments are seen where they were, and blanks at the
ends of a line make no difference but at its ends.
-/
set_option autoImplicit false

namespace MipsImage

namespace SourceLine

/-! ## Runs of blanks -/

section Collapse

theorem collapse_append_cons {c : CodePoint} (solid : Text.isBlank c = false) (a b : Text) :
    collapse (a ++ c :: b) = collapse a ++ c :: collapse b := by
  induction a with
  | nil => simp [collapse, solid]
  | cons d rest ih =>
    have begins : beginsBlank (rest ++ c :: b) = beginsBlank rest := by
      cases rest with
      | nil => exact solid
      | cons e more => rfl
    rw [List.cons_append, collapse, collapse, begins, ih]
    split
    · split <;> rfl
    · rfl

theorem collapse_eq_self {t : Text} (h : ∀ c ∈ t, Text.isBlank c = false) : collapse t = t := by
  induction t with
  | nil => rfl
  | cons c rest ih =>
    rw [List.forall_mem_cons] at h
    rw [collapse, if_neg (by simp [h.1]), ih h.2]

/-- Solid characters stay, and no other comes but the space. -/
theorem mem_collapse_iff {t : Text} {c : CodePoint} (solid : Text.isBlank c = false) :
    c ∈ collapse t ↔ c ∈ t := by
  have other {d : CodePoint} (blank : Text.isBlank d = true) : c ≠ d := by
    rintro rfl
    rw [solid] at blank
    cases blank
  have space : c ≠ ' ' := other (by decide)
  induction t with
  | nil => rfl
  | cons d rest ih =>
    rw [collapse]
    split
    · rename_i blank
      split <;> simp [ih, space, other blank]
    · simp [ih]

theorem eq_space_or_mem_of_mem_collapse {t : Text} {c : CodePoint} (member : c ∈ collapse t) :
    c = ' ' ∨ c ∈ t := by
  induction t with
  | nil => exact .inr member
  | cons d rest ih =>
    rw [collapse] at member
    split at member
    · split at member
      · exact (ih member).imp_right (List.mem_cons_of_mem d)
      · rcases List.mem_cons.1 member with space | later
        · exact .inl space
        · exact (ih later).imp_right (List.mem_cons_of_mem d)
    · rcases List.mem_cons.1 member with rfl | later
      · exact .inr (List.mem_cons_self ..)
      · exact (ih later).imp_right (List.mem_cons_of_mem d)

section Gap
variable {t : Text} (next : beginsBlank t = false)
include next

theorem head?_collapse : (collapse t).head? = t.head? := by
  cases t with
  | nil => rfl
  | cons c rest =>
    rw [beginsBlank] at next
    rw [collapse, if_neg (by simp [next])]
    rfl

theorem collapse_gap_append {blanks : Text} (h : ∀ c ∈ blanks, Text.isBlank c = true)
    (some : blanks ≠ []) : collapse (blanks ++ t) = .char ' ' :: collapse t := by
  induction blanks with
  | nil => exact absurd rfl some
  | cons b rest ih =>
    rw [List.forall_mem_cons] at h
    rw [List.cons_append, collapse, if_pos h.1]
    cases rest with
    | nil => rw [List.nil_append, if_neg (by simp [next])]
    | cons d more =>
      have again : beginsBlank (d :: more ++ t) = true := h.2 d (List.mem_cons_self ..)
      rw [if_pos again, ih h.2 (List.cons_ne_nil _ _)]

end Gap

/-- A blank in front adds a space or nothing. -/
theorem collapse_blank_cons {b : CodePoint} (blank : Text.isBlank b = true) (t : Text) :
    collapse (b :: t) = collapse t ∨
      collapse (b :: t) = .char ' ' :: collapse t ∧ beginsBlank t = false := by
  rw [collapse, if_pos blank]
  split
  · exact .inl rfl
  · rename_i solid
    exact .inr ⟨rfl, by simpa using solid⟩

/-- A blank at the end adds a space or nothing. -/
theorem collapse_concat_blank {b : CodePoint} (blank : Text.isBlank b = true) (t : Text) :
    collapse (t ++ [b]) = collapse t ∨ collapse (t ++ [b]) = collapse t ++ [.char ' '] := by
  induction t with
  | nil => exact .inr (by simp [collapse, blank, beginsBlank])
  | cons c rest ih =>
    rw [List.cons_append, collapse, collapse]
    by_cases only : rest = []
    · subst only
      simp only [List.nil_append, beginsBlank, blank, if_true, collapse]
      split
      · exact .inl rfl
      · exact .inr rfl
    · have begins : beginsBlank (rest ++ [b]) = beginsBlank rest := by
        cases rest with
        | nil => exact absurd rfl only
        | cons d more => rfl
      rw [begins]
      split
      · split
        · exact ih
        · exact ih.imp (congrArg (CodePoint.char ' ' :: ·)) (congrArg (CodePoint.char ' ' :: ·))
      · exact ih.imp (congrArg (c :: ·)) (congrArg (c :: ·))

/-- What is read in a string is not changed, for no blank escapes anything. -/
theorem inside_collapse (escaped : Bool) (t : Text) :
    Quoted.inside escaped (collapse t) = Quoted.inside escaped t := by
  have neutral {b : CodePoint} (blank : Text.isBlank b = true) (escaped : Bool) (rest : Text) :
      Quoted.inside escaped (b :: rest) = Quoted.inside false rest := by
    refine Quoted.inside_cons ?_ ?_ escaped rest <;>
    · rintro rfl
      exact absurd blank (by decide)
  induction t generalizing escaped with
  | nil => rfl
  | cons c rest ih =>
    rw [collapse]
    split
    · rename_i blank
      rw [neutral blank]
      cases rest with
      | nil => exact neutral (by decide) escaped []
      | cons d more =>
        split
        · rename_i second
          rw [ih, neutral second, neutral second]
        · rw [neutral (by decide), ih]
    · simp only [Quoted.inside, ih]

end Collapse

/-! ## Commas -/

section Commas

theorem spaceCommas_cons {c : CodePoint} {rest : Text} (comma : c ≠ ',')
    (next : c = ' ' → rest.head? ≠ some ',') : spaceCommas (c :: rest) = c :: spaceCommas rest := by
  rw [spaceCommas]
  · rintro more rfl rfl
    exact next rfl rfl
  · rintro more rfl rfl
    exact next rfl rfl
  · exact fun _ h _ => comma h
  · exact comma

theorem spaceCommas_comma_cons {rest : Text} (next : rest.head? ≠ some ' ') :
    spaceCommas (.char ',' :: rest) = .char ',' :: .char ' ' :: spaceCommas rest := by
  rw [spaceCommas]
  rintro more rfl
  exact next rfl

/-- A space before a comma makes no difference. -/
theorem spaceCommas_space_comma (rest : Text) :
    spaceCommas (' ' :: ',' :: rest) = spaceCommas (',' :: rest) := by
  by_cases next : rest.head? = some ' '
  · obtain ⟨more, rfl⟩ := List.head?_eq_some_iff.1 next
    rfl
  · rw [spaceCommas_comma_cons next, spaceCommas]
    rintro more rfl
    exact next rfl

/-- The cases of the recursion: a space before a comma, a comma with a space and one without, and
any other character. -/
theorem spaceCommas_induction {motive : Text → Prop} (nil : motive [])
    (before : ∀ rest, motive (',' :: rest) → motive (' ' :: ',' :: rest))
    (spaced : ∀ rest, motive rest → motive (',' :: ' ' :: rest))
    (comma : ∀ rest, rest.head? ≠ some (.char ' ') → motive rest → motive (.char ',' :: rest))
    (cons : ∀ c rest, c ≠ .char ',' → (c = .char ' ' → rest.head? ≠ some (.char ',')) →
      motive rest → motive (c :: rest)) (t : Text) : motive t := by
  have bare {rest : Text} (next : ∀ more, rest = .char ' ' :: more → False) :
      rest.head? ≠ some (.char ' ') := by
    intro h
    obtain ⟨more, rfl⟩ := List.head?_eq_some_iff.1 h
    exact next more rfl
  induction t using spaceCommas.induct with
  | case1 => exact nil
  | case2 rest ih => exact before _ (spaced rest ih)
  | case3 rest next ih => exact before _ (comma rest (bare next) ih)
  | case4 rest ih => exact spaced rest ih
  | case5 rest next ih => exact comma rest (bare next) ih
  | case6 c rest _ two _ one ih =>
    refine cons c rest one ?_ ih
    rintro rfl h
    obtain ⟨more, rfl⟩ := List.head?_eq_some_iff.1 h
    exact two more rfl rfl

theorem spaceCommas_append_cons {c : CodePoint} (comma : c ≠ ',') (space : c ≠ ' ') (a b : Text) :
    spaceCommas (a ++ c :: b) = spaceCommas a ++ c :: spaceCommas b := by
  have head {d : CodePoint} (other : c ≠ d) {rest : Text} (next : rest.head? ≠ some d) :
      (rest ++ c :: b).head? ≠ some d := by
    cases rest with
    | nil => simpa using other
    | cons e more => exact next
  induction a using spaceCommas_induction with
  | nil => exact spaceCommas_cons comma fun h => absurd h space
  | before rest ih =>
    rw [List.cons_append, List.cons_append, spaceCommas_space_comma, spaceCommas_space_comma]
    exact ih
  | spaced rest ih => simp only [List.cons_append, spaceCommas, ih]
  | comma rest next ih =>
    rw [List.cons_append, spaceCommas_comma_cons (head space next), spaceCommas_comma_cons next, ih]
    rfl
  | cons d rest own next ih =>
    rw [List.cons_append, spaceCommas_cons own fun h => head comma (next h),
      spaceCommas_cons own next, ih]
    rfl

theorem spaceCommas_eq_self {t : Text} (h : .char ',' ∉ t) : spaceCommas t = t := by
  induction t with
  | nil => rfl
  | cons c rest ih =>
    rw [List.mem_cons, not_or] at h
    rw [spaceCommas_cons (Ne.symm h.1), ih h.2]
    intro _ next
    exact h.2 (List.mem_of_mem_head? next)

theorem mem_spaceCommas_iff {t : Text} {c : CodePoint} (space : c ≠ ' ') :
    c ∈ spaceCommas t ↔ c ∈ t := by
  induction t using spaceCommas_induction with
  | nil => rfl
  | before rest ih => simpa [spaceCommas_space_comma, space] using ih
  | spaced rest ih => simp [spaceCommas, ih]
  | comma rest next ih => simp [spaceCommas_comma_cons next, ih, space]
  | cons d rest own next ih => simp [spaceCommas_cons own next, ih]

/-- A space in front stays or is lost before a comma. -/
theorem spaceCommas_space_cons (t : Text) :
    spaceCommas (.char ' ' :: t) = spaceCommas t ∨
      spaceCommas (.char ' ' :: t) = .char ' ' :: spaceCommas t := by
  by_cases comma : t.head? = some ','
  · obtain ⟨rest, rfl⟩ := List.head?_eq_some_iff.1 comma
    exact .inl (spaceCommas_space_comma rest)
  · exact .inr (spaceCommas_cons (by decide) fun _ => comma)

/-- A space at the end stays or is the one behind a comma. -/
theorem spaceCommas_concat_space (t : Text) :
    spaceCommas (t ++ [.char ' ']) = spaceCommas t ∨
      spaceCommas (t ++ [.char ' ']) = spaceCommas t ++ [.char ' '] := by
  induction t using spaceCommas_induction with
  | nil => exact .inr rfl
  | before rest ih =>
    rw [List.cons_append, List.cons_append, spaceCommas_space_comma, spaceCommas_space_comma]
    exact ih
  | spaced rest ih =>
    exact ih.imp (congrArg (CodePoint.char ',' :: CodePoint.char ' ' :: ·))
      (congrArg (CodePoint.char ',' :: CodePoint.char ' ' :: ·))
  | comma rest next ih =>
    cases rest with
    | nil => exact .inl rfl
    | cons d more =>
      rw [List.cons_append, @spaceCommas_comma_cons (d :: more ++ [CodePoint.char ' ']) next,
        spaceCommas_comma_cons next]
      exact ih.imp (congrArg (CodePoint.char ',' :: CodePoint.char ' ' :: ·))
        (congrArg (CodePoint.char ',' :: CodePoint.char ' ' :: ·))
  | cons c rest own next ih =>
    have next' : c = .char ' ' → (rest ++ [CodePoint.char ' ']).head? ≠ some (.char ',') := by
      intro h
      cases rest with
      | nil => decide
      | cons d more => exact next h
    rw [List.cons_append, spaceCommas_cons own next', spaceCommas_cons own next]
    exact ih.imp (congrArg (c :: ·)) (congrArg (c :: ·))

theorem inside_spaceCommas (escaped : Bool) (t : Text) :
    Quoted.inside escaped (spaceCommas t) = Quoted.inside escaped t := by
  have space (escaped : Bool) (rest : Text) :
      Quoted.inside escaped (' ' :: rest) = Quoted.inside false rest :=
    Quoted.inside_cons (by decide) (by decide) escaped rest
  have comma (escaped : Bool) (rest : Text) :
      Quoted.inside escaped (',' :: rest) = Quoted.inside false rest :=
    Quoted.inside_cons (by decide) (by decide) escaped rest
  induction t using spaceCommas_induction generalizing escaped with
  | nil => rfl
  | before rest ih => rw [spaceCommas_space_comma, ih, space, comma, comma]
  | spaced rest ih => rw [spaceCommas, comma, comma, space, space, ih]
  | comma rest next ih => rw [spaceCommas_comma_cons next, comma, comma, space, ih]
  | cons c rest own next ih =>
    rw [spaceCommas_cons own next]
    simp only [Quoted.inside, ih]

end Commas

/-! ## Evenly spaced text -/

/-- Every blank is one space, a comma has a space behind it, and no other space has a comma behind
it. -/
inductive Spaced : Text → Prop
  | nil : Spaced []
  | comma {rest : Text} (next : beginsBlank rest = false) (more : Spaced rest) :
    Spaced (',' :: ' ' :: rest)
  | space {rest : Text} (next : beginsBlank rest = false) (plain : rest.head? ≠ some ',')
    (more : Spaced rest) : Spaced (' ' :: rest)
  | solid {c : CodePoint} {rest : Text} (solid : Text.isBlank c = false) (plain : c ≠ ',')
    (more : Spaced rest) : Spaced (c :: rest)

theorem Spaced.collapse_eq {t : Text} (spaced : Spaced t) : collapse t = t := by
  induction spaced with
  | nil => rfl
  | comma next _ ih =>
    simp [collapse, next, ih, show Text.isBlank ',' = false by decide,
      show Text.isBlank ' ' = true by decide]
  | space next _ _ ih => simp [collapse, next, ih, show Text.isBlank ' ' = true by decide]
  | solid solid _ _ ih => simp [collapse, solid, ih]

theorem Spaced.spaceCommas_eq {t : Text} (spaced : Spaced t) : spaceCommas t = t := by
  induction spaced with
  | nil => rfl
  | comma _ _ ih => rw [spaceCommas, ih]
  | space _ plain _ ih => rw [spaceCommas_cons (by decide) fun _ => plain, ih]
  | solid solid plain _ ih =>
    rw [spaceCommas_cons plain, ih]
    rintro rfl
    exact absurd solid (by decide)

/-- Every blank is one space. -/
inductive Collapsed : Text → Prop
  | nil : Collapsed []
  | space {rest : Text} (next : beginsBlank rest = false) (more : Collapsed rest) :
    Collapsed (' ' :: rest)
  | solid {c : CodePoint} {rest : Text} (solid : Text.isBlank c = false) (more : Collapsed rest) :
    Collapsed (c :: rest)

theorem beginsBlank_collapse (t : Text) : beginsBlank (collapse t) = beginsBlank t := by
  induction t with
  | nil => rfl
  | cons c rest ih =>
    rw [collapse]
    split
    · rename_i blank
      split
      · rename_i next
        rw [ih, next, beginsBlank, blank]
      · rw [beginsBlank, beginsBlank, blank]
        decide
    · rfl

theorem collapsed_collapse (t : Text) : Collapsed (collapse t) := by
  induction t with
  | nil => exact .nil
  | cons c rest ih =>
    rw [collapse]
    split
    · split
      · exact ih
      · rename_i next
        refine .space ?_ ih
        rw [beginsBlank_collapse]
        simpa using next
    · rename_i solid
      exact .solid (by simpa using solid) ih

/-- Where no blank begins, the first character stays. -/
theorem head?_spaceCommas {t : Text} (next : beginsBlank t = false) :
    (spaceCommas t).head? = t.head? := by
  cases t with
  | nil => rfl
  | cons c rest =>
    by_cases comma : c = .char ','
    · subst comma
      by_cases spaced : rest.head? = some (.char ' ')
      · obtain ⟨more, rfl⟩ := List.head?_eq_some_iff.1 spaced
        rfl
      · rw [spaceCommas_comma_cons spaced, List.head?_cons, List.head?_cons]
    · have solid : c = .char ' ' → rest.head? ≠ some (.char ',') := by
        rintro rfl
        cases next
      rw [spaceCommas_cons comma solid, List.head?_cons, List.head?_cons]

theorem beginsBlank_eq (t : Text) : beginsBlank t = t.head?.any Text.isBlank := by
  cases t <;> rfl

theorem Collapsed.spaced {t : Text} (collapsed : Collapsed t) : Spaced (spaceCommas t) := by
  have still {rest : Text} (next : beginsBlank rest = false) :
      beginsBlank (spaceCommas rest) = false := by
    rw [beginsBlank_eq, head?_spaceCommas next, ← beginsBlank_eq, next]
  induction t using spaceCommas_induction with
  | nil => exact .nil
  | before rest ih =>
    rw [spaceCommas_space_comma]
    cases collapsed with
    | space _ more => exact ih more
    | solid solid _ => exact absurd solid (by decide)
  | spaced rest ih =>
    cases collapsed with
    | solid _ more =>
      cases more with
      | space next more => exact .comma (still next) (ih more)
      | solid solid _ => exact absurd solid (by decide)
  | comma rest bare ih =>
    rw [spaceCommas_comma_cons bare]
    cases collapsed with
    | solid _ more =>
      refine .comma (still ?_) (ih more)
      -- a blank would be a space
      cases more with
      | nil => rfl
      | space => exact absurd rfl bare
      | solid solid _ => exact solid
  | cons c rest own bare ih =>
    rw [spaceCommas_cons own bare]
    cases collapsed with
    | space next more =>
      refine .space (still next) ?_ (ih more)
      rw [head?_spaceCommas next]
      exact bare rfl
    | solid solid more => exact .solid solid own (ih more)

/-! ## Text outside strings -/

/-- The spacing of text outside strings. -/
def respacePlain (t : Text) : Text := spaceCommas (collapse t)

theorem spaced_respacePlain (t : Text) : Spaced (respacePlain t) := (collapsed_collapse t).spaced

theorem Spaced.respacePlain_eq {t : Text} (spaced : Spaced t) : respacePlain t = t := by
  rw [respacePlain, spaced.collapse_eq, spaced.spaceCommas_eq]

theorem respacePlain_respacePlain (t : Text) : respacePlain (respacePlain t) = respacePlain t :=
  (spaced_respacePlain t).respacePlain_eq

theorem inside_respacePlain (escaped : Bool) (t : Text) :
    Quoted.inside escaped (respacePlain t) = Quoted.inside escaped t := by
  rw [respacePlain, inside_spaceCommas, inside_collapse]

section Solid
variable {c : CodePoint} (solid : Text.isBlank c = false)
include solid

theorem ne_space_of_solid : c ≠ ' ' := by
  rintro rfl
  exact absurd solid (by decide)

theorem mem_respacePlain_iff {t : Text} : c ∈ respacePlain t ↔ c ∈ t := by
  rw [respacePlain, mem_spaceCommas_iff (ne_space_of_solid solid), mem_collapse_iff solid]

theorem respacePlain_append_cons (comma : c ≠ ',') (a b : Text) :
    respacePlain (a ++ c :: b) = respacePlain a ++ c :: respacePlain b := by
  rw [respacePlain, collapse_append_cons solid,
    spaceCommas_append_cons comma (ne_space_of_solid solid)]
  rfl

end Solid

theorem respacePlain_append {front : Text} (solid : ∀ c ∈ front, Text.isBlank c = false)
    (h : .char ',' ∉ front) (t : Text) : respacePlain (front ++ t) = front ++ respacePlain t := by
  induction front with
  | nil => rfl
  | cons c rest ih =>
    rw [List.forall_mem_cons] at solid
    rw [List.mem_cons, not_or] at h
    have first := respacePlain_append_cons solid.1 (Ne.symm h.1) [] (rest ++ t)
    rw [List.nil_append] at first
    rw [List.cons_append, first, ih solid.2 h.2]
    rfl

theorem isBlank_of_mem_respacePlain {blanks : Text} (h : ∀ c ∈ blanks, Text.isBlank c = true) :
    ∀ c ∈ respacePlain blanks, Text.isBlank c = true := by
  intro c member
  by_contra solid
  rw [Bool.not_eq_true] at solid
  cases (h c ((mem_respacePlain_iff solid).1 member)).symm.trans solid

section Gap
variable {t : Text} (next : beginsBlank t = false)
include next

/-- Blanks before a character that is no comma become one space. -/
theorem respacePlain_gap_append (comma : t.head? ≠ some ',') {blanks : Text}
    (h : ∀ c ∈ blanks, Text.isBlank c = true) (some : blanks ≠ []) :
    respacePlain (blanks ++ t) = .char ' ' :: respacePlain t := by
  rw [respacePlain, collapse_gap_append next h some, spaceCommas_cons (by decide)]
  · rfl
  · rwa [head?_collapse next, eq_self, forall_true_left]

/-- Blanks around a comma become one space behind it. -/
theorem respacePlain_comma {before after : Text} (left : ∀ c ∈ before, Text.isBlank c = true)
    (right : ∀ c ∈ after, Text.isBlank c = true) :
    respacePlain (before ++ .char ',' :: (after ++ t)) =
      .char ',' :: .char ' ' :: respacePlain t := by
  have front (x : Text) :
      spaceCommas (collapse before ++ .char ',' :: x) = spaceCommas (.char ',' :: x) := by
    by_cases none : before = []
    · rw [none]
      rfl
    · have space := collapse_gap_append (t := []) rfl left none
      rw [List.append_nil] at space
      rw [space]
      exact spaceCommas_space_comma x
  have back : spaceCommas (.char ',' :: collapse (after ++ t)) =
      .char ',' :: .char ' ' :: respacePlain t := by
    by_cases none : after = []
    · rw [none, List.nil_append, spaceCommas_comma_cons]
      · rfl
      · rw [head?_collapse next]
        intro space
        obtain ⟨rest, rfl⟩ := List.head?_eq_some_iff.1 space
        cases next.symm.trans (show beginsBlank (' ' :: rest) = true from rfl)
    · rw [collapse_gap_append next right none, spaceCommas]
      rfl
  rw [respacePlain, collapse_append_cons (by decide), front, back]

end Gap

theorem respacePlain_eq_self {t : Text} (solid : ∀ c ∈ t, Text.isBlank c = false)
    (h : .char ',' ∉ t) : respacePlain t = t := by
  rw [respacePlain, collapse_eq_self solid, spaceCommas_eq_self h]

section Blank
variable {b : CodePoint} (blank : Text.isBlank b = true)
include blank

theorem respacePlain_blank_cons (t : Text) :
    respacePlain (b :: t) = respacePlain t ∨
      respacePlain (b :: t) = .char ' ' :: respacePlain t := by
  unfold respacePlain
  rcases collapse_blank_cons blank t with same | ⟨longer, -⟩
  · exact .inl (by rw [same])
  · rw [longer]
    exact spaceCommas_space_cons (collapse t)

theorem respacePlain_concat_blank (t : Text) :
    respacePlain (t ++ [b]) = respacePlain t ∨
      respacePlain (t ++ [b]) = respacePlain t ++ [.char ' '] := by
  unfold respacePlain
  rcases collapse_concat_blank blank t with same | longer
  · exact .inl (by rw [same])
  · rw [longer]
    exact spaceCommas_concat_space (collapse t)

end Blank

/-! ## Lines -/

section Respace
variable {before rest body after : Text}

theorem respace_plain {t : Text} (unquoted : .char '"' ∉ t) : respace t = respacePlain t := by
  rw [respace]
  split
  · rename_i some
    rw [Quoted.first?_of_not_mem unquoted] at some
    cases some
  · rfl

theorem respace_unclosed (unquoted : .char '"' ∉ before) (never : Quoted.closing? rest = none) :
    respace (before ++ .char '"' :: rest) =
      respacePlain before ++ .char '"' :: respacePlain rest := by
  rw [respace]
  split
  · rename_i some
    rw [Quoted.first?_unclosed unquoted never] at some
    cases some
  · exact respacePlain_append_cons (by decide) (by decide) before rest

theorem respace_quoted (unquoted : .char '"' ∉ before) (closed : Quoted.Body body) :
    respace (before ++ .char '"' :: (body ++ .char '"' :: after)) =
      respacePlain before ++ .char '"' :: (body ++ .char '"' :: respace after) := by
  rw [respace]
  split
  · rename_i some
    rw [Quoted.first?_quoted unquoted closed] at some
    cases some
    simp [respacePlain]
  · rename_i none
    rw [Quoted.first?_quoted unquoted closed] at none
    cases none

/-- A line may be respaced in two parts behind a character that is neither a blank nor a comma. -/
theorem respace_append_cons {c : CodePoint} {front : Text} (solid : Text.isBlank c = false)
    (comma : c ≠ .char ',') (quote : c ≠ .char '"') (unquoted : .char '"' ∉ front) (t : Text) :
    respace (front ++ c :: t) = respacePlain front ++ c :: respace t := by
  have opens {more : Text} (h : .char '"' ∉ more) : .char '"' ∉ front ++ c :: more := by
    simp [unquoted, Ne.symm quote, h]
  have plain := respacePlain_append_cons solid comma front
  cases Quoted.divided t with
  | plain own => rw [respace_plain (opens own), respace_plain own, plain]
  | @unclosed before rest own never =>
    have whole := respace_unclosed (opens own) never
    rw [List.append_assoc, List.cons_append] at whole
    rw [whole, respace_unclosed own never, plain, List.append_assoc]
    rfl
  | @quoted before body after own closed more =>
    have whole := @respace_quoted (front ++ c :: before) body after (opens own) closed
    rw [List.append_assoc, List.cons_append] at whole
    rw [whole, respace_quoted own closed, plain, List.append_assoc]
    rfl

end Respace

theorem quote_not_mem_respacePlain {t : Text} (h : .char '"' ∉ t) : .char '"' ∉ respacePlain t :=
  fun member => h ((mem_respacePlain_iff (by decide)).1 member)

theorem closing?_respacePlain {t : Text} (never : Quoted.closing? t = none) :
    Quoted.closing? (respacePlain t) = none := by
  rw [Quoted.closing?_eq_none_iff] at never ⊢
  simpa only [inside_respacePlain] using never

theorem respace_respace (t : Text) : respace (respace t) = respace t := by
  induction Quoted.divided t with
  | plain unquoted =>
    rw [respace_plain unquoted, respace_plain (quote_not_mem_respacePlain unquoted),
      respacePlain_respacePlain]
  | unclosed unquoted never =>
    rw [respace_unclosed unquoted never, respace_unclosed (quote_not_mem_respacePlain unquoted)
      (closing?_respacePlain never), respacePlain_respacePlain, respacePlain_respacePlain]
  | quoted unquoted closed _ ih =>
    rw [respace_quoted unquoted closed, respace_quoted (quote_not_mem_respacePlain unquoted) closed,
      respacePlain_respacePlain, ih]

/-- Respacing brings no characters but spaces into a line. -/
theorem eq_space_or_mem_of_mem_respace {t : Text} {c : CodePoint} (member : c ∈ respace t) :
    c = ' ' ∨ c ∈ t := by
  have plain {front : Text} (member : c ∈ respacePlain front) : c = ' ' ∨ c ∈ front := by
    by_cases space : c = ' '
    · exact .inl space
    · exact eq_space_or_mem_of_mem_collapse ((mem_spaceCommas_iff space).1 member)
  induction Quoted.divided t with
  | plain unquoted =>
    rw [respace_plain unquoted] at member
    exact plain member
  | unclosed unquoted never =>
    rw [respace_unclosed unquoted never, List.mem_append, List.mem_cons] at member
    rw [List.mem_append, List.mem_cons]
    rcases member with front | rfl | back
    · exact (plain front).imp_right .inl
    · exact .inr (.inr (.inl rfl))
    · exact (plain back).imp_right fun own => .inr (.inr own)
  | quoted unquoted closed _ ih =>
    rw [respace_quoted unquoted closed, List.mem_append, List.mem_cons, List.mem_append,
      List.mem_cons] at member
    rw [List.mem_append, List.mem_cons, List.mem_append, List.mem_cons]
    rcases member with front | rfl | body | rfl | back
    · exact (plain front).imp_right .inl
    · exact .inr (.inr (.inl rfl))
    · exact .inr (.inr (.inr (.inl body)))
    · exact .inr (.inr (.inl rfl))
    · exact (ih back).imp_right fun own => .inr (.inr (.inr (.inr own)))

/-- Respacing brings no comment about. -/
theorem uncomment_respace {t : Text} (h : uncomment t = t) : uncomment (respace t) = respace t := by
  have plain {front : Text} (h : ∀ c ∈ front, c ≠ '"' ∧ c ≠ '#') :
      ∀ c ∈ respacePlain front, c ≠ '"' ∧ c ≠ '#' := by
    intro c member
    constructor
    · rintro rfl
      exact (h _ ((mem_respacePlain_iff (by decide)).1 member)).1 rfl
    · rintro rfl
      exact (h _ ((mem_respacePlain_iff (by decide)).1 member)).2 rfl
  induction Quoted.divided t with
  | @plain t unquoted =>
    rw [← List.append_nil t] at h
    rw [respace_plain unquoted]
    exact uncomment_eq_self (plain (plain_of_uncomment unquoted h))
  | unclosed unquoted never =>
    rw [respace_unclosed unquoted never, uncomment_append (plain (plain_of_uncomment unquoted h)),
      uncomment_unclosed (closing?_respacePlain never)]
  | quoted unquoted closed _ ih =>
    have front := plain_of_uncomment unquoted h
    rw [uncomment_append front, List.append_cancel_left_eq, uncomment_quoted closed,
      List.cons.injEq, List.append_cancel_left_eq, List.cons.injEq] at h
    rw [respace_quoted unquoted closed, uncomment_append (plain front), uncomment_quoted closed,
      ih h.2.2]

/-! ## Blanks at the ends of a line -/

section Ends
variable {b : CodePoint} (blank : Text.isBlank b = true)
include blank

theorem respace_blank_cons (t : Text) :
    respace (b :: t) = respace t ∨ respace (b :: t) = .char ' ' :: respace t := by
  have opens {front : Text} (h : .char '"' ∉ front) : .char '"' ∉ b :: front := by
    rw [List.mem_cons, not_or]
    refine ⟨?_, h⟩
    rintro rfl
    exact absurd blank (by decide)
  cases Quoted.divided t with
  | plain unquoted =>
    rw [respace_plain (opens unquoted), respace_plain unquoted]
    exact respacePlain_blank_cons blank t
  | @unclosed before rest unquoted never =>
    rw [← List.cons_append, respace_unclosed (opens unquoted) never,
      respace_unclosed unquoted never]
    exact (respacePlain_blank_cons blank before).imp (congrArg (· ++ _)) (congrArg (· ++ _))
  | @quoted before body after unquoted closed _ =>
    rw [← List.cons_append, respace_quoted (opens unquoted) closed, respace_quoted unquoted closed]
    exact (respacePlain_blank_cons blank before).imp (congrArg (· ++ _)) (congrArg (· ++ _))

theorem respace_concat_blank (t : Text) :
    respace (t ++ [b]) = respace t ∨ respace (t ++ [b]) = respace t ++ [.char ' '] := by
  have quote : b ≠ '"' := by
    rintro rfl
    exact absurd blank (by decide)
  have backslash : b ≠ '\\' := by
    rintro rfl
    exact absurd blank (by decide)
  induction Quoted.divided t with
  | @plain t unquoted =>
    rw [respace_plain unquoted, respace_plain (by simp [unquoted, Ne.symm quote])]
    exact respacePlain_concat_blank blank t
  | @unclosed before rest unquoted never =>
    have still : Quoted.closing? (rest ++ [b]) = none := by
      obtain ⟨escaped, opening⟩ := Quoted.closing?_eq_none_iff.1 never
      refine Quoted.closing?_eq_none_iff.2 ⟨false, ?_⟩
      rw [Quoted.inside_append, opening, Option.bind_some, Quoted.inside_cons quote backslash]
      rfl
    rw [respace_unclosed unquoted never, List.append_assoc, List.cons_append,
      respace_unclosed unquoted still, List.append_assoc, List.cons_append]
    exact (respacePlain_concat_blank blank rest).imp
      (congrArg (respacePlain before ++ .char '"' :: ·))
      (congrArg (respacePlain before ++ .char '"' :: ·))
  | @quoted before body after unquoted closed _ ih =>
    have text : before ++ .char '"' :: (body ++ .char '"' :: after) ++ [b] =
        before ++ .char '"' :: (body ++ .char '"' :: (after ++ [b])) := by simp
    rw [text, respace_quoted unquoted closed, respace_quoted unquoted closed]
    rcases ih with same | longer
    · exact .inl (by rw [same])
    · exact .inr (by rw [longer]; simp)

end Ends

/-- Blanks at the ends of a line are blanks at the ends of what it is respaced to. -/
theorem trim_respace_trim (t : Text) :
    Text.trim (respace (Text.trim t)) = Text.trim (respace t) := by
  have front {blanks : Text} (h : ∀ c ∈ blanks, Text.isBlank c = true) (t : Text) :
      Text.trim (respace (blanks ++ t)) = Text.trim (respace t) := by
    induction blanks with
    | nil => rfl
    | cons b rest ih =>
      rw [List.forall_mem_cons] at h
      rw [List.cons_append, ← ih h.2]
      rcases respace_blank_cons h.1 (rest ++ t) with same | longer
      · rw [same]
      · rw [longer, Text.trim_space_cons]
  have back {blanks : Text} (h : ∀ c ∈ blanks, Text.isBlank c = true) (t : Text) :
      Text.trim (respace (t ++ blanks)) = Text.trim (respace t) := by
    induction blanks generalizing t with
    | nil => rw [List.append_nil]
    | cons b rest ih =>
      rw [List.forall_mem_cons] at h
      rw [List.append_cons, ih h.2]
      rcases respace_concat_blank h.1 t with same | longer
      · rw [same]
      · rw [longer, Text.trim_append_blanks (by simp [show Text.isBlank ' ' = true by decide])]
  have whole := Text.blanks_append_trim t
  rw [← congrArg respace whole, back fun c h => List.mem_rtakeWhile_imp h,
    front fun c h => List.mem_takeWhile_imp h]

end SourceLine

end MipsImage
