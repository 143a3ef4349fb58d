import MipsImage.Proofs.LabelNames
import MipsImage.Segments
import MipsImage.Directive
import MipsImage.Instruction

/-!
# Sources with other labels

A source is given other labels by putting the new name for the old one in every header and for
every operand of an instruction that is the old name. Blanks, mnemonics and directives stay as they
are, so the lines are divided into headers, segments and operands just as before.
-/
set_option autoImplicit false

namespace MipsImage

/-! ## Renamings -/

/-- A change of texts that puts labels for labels and leaves everything else alone. -/
def Label.Renames (f : Text → Text) : Prop := ∀ t, f t = t ∨ Proper t ∧ Proper (f t)

namespace Label.Renames

variable {f : Text → Text} {t : Text}

theorem eq_self (renames : Renames f) (other : ¬Proper t) : f t = t :=
  (renames t).resolve_right fun h => other h.1

theorem proper (renames : Renames f) (h : Proper t) : Proper (f t) := by
  rcases renames t with same | ⟨-, label⟩
  · rwa [same]
  · exact label

theorem isToken (renames : Renames f) (h : Text.IsToken t) : Text.IsToken (f t) := by
  rcases renames t with same | ⟨-, label⟩
  · rwa [same]
  · exact label.isToken

theorem eq_nil_iff (renames : Renames f) : f t = [] ↔ t = [] := by
  rcases renames t with same | ⟨old, new⟩
  · rw [same]
  · exact iff_of_false new.ne_nil old.ne_nil

end Label.Renames

/-! ## Texts between blanks -/

namespace Text

theorem trim_blanks_append {blanks t : Text} (h : ∀ c ∈ blanks, isBlank c = true) :
    trim (blanks ++ t) = trim t := by
  rw [trim_eq, trim_eq, List.dropWhile_append_of_pos h]

/-- A text in which what stands between the blanks at its ends is replaced. -/
def mapCore (f : Text → Text) (t : Text) : Text :=
  t.takeWhile isBlank ++ f (trim t) ++ (t.dropWhile isBlank).rtakeWhile isBlank

theorem blanks_append_trim (t : Text) :
    t.takeWhile isBlank ++ trim t ++ (t.dropWhile isBlank).rtakeWhile isBlank = t := by
  rw [trim_eq, List.append_assoc, List.rdropWhile_append_rtakeWhile,
    List.takeWhile_append_dropWhile]

theorem mem_trim_iff {t : Text} {c : CodePoint} (solid : isBlank c = false) :
    c ∈ trim t ↔ c ∈ t := by
  have other {blanks : Text} (blank : ∀ d ∈ blanks, isBlank d = true) : c ∉ blanks := by
    intro member
    cases (blank c member).symm.trans solid
  have front := other fun d (h : d ∈ t.takeWhile isBlank) => List.mem_takeWhile_imp h
  have back := other fun d (h : d ∈ (t.dropWhile isBlank).rtakeWhile isBlank) =>
    List.mem_rtakeWhile_imp h
  conv_rhs => rw [← blanks_append_trim t, List.mem_append, List.mem_append]
  simp [front, back]

theorem trim_mapCore (f : Text → Text) (t : Text) : trim (mapCore f t) = trim (f (trim t)) := by
  have front : ∀ c ∈ t.takeWhile isBlank, isBlank c = true := fun c h => List.mem_takeWhile_imp h
  have back : ∀ c ∈ (t.dropWhile isBlank).rtakeWhile isBlank, isBlank c = true :=
    fun c h => List.mem_rtakeWhile_imp h
  rw [mapCore, trim_append_blanks back, trim_blanks_append front]

theorem mem_mapCore {f : Text → Text} {t : Text} {c : CodePoint} (member : c ∈ mapCore f t) :
    c ∈ t ∨ c ∈ f (trim t) := by
  rw [mapCore, List.mem_append, List.mem_append] at member
  rcases member with (front | inside) | back
  · exact .inl ((List.takeWhile_prefix _).subset front)
  · exact .inr inside
  · exact .inl ((List.dropWhile_suffix _).subset ((List.rtakeWhile_suffix _ _).subset back))

end Text

/-! ## Instructions -/

namespace Instruction

/-- An instruction with other operands. -/
def relabel (f : Text → Text) (i : Instruction) : Instruction := ⟨i.mnemonic, i.operands.map f⟩

/-- What follows the first space of a text with everything between commas replaced. -/
def mapTokens (f : Text → Text) (t : Text) : Text :=
  match Text.cut ' ' t with
  | (_, none) => t
  | (mnemonic, some rest) =>
    mnemonic ++
      .char ' ' :: Text.join [.char ','] ((Text.splitOn (.char ',') rest).map (Text.mapCore f))

/-- The text of an instruction in which every operand is replaced and nothing else is different. -/
def mapOperands (f : Text → Text) (t : Text) : Text := Text.mapCore (mapTokens f) t

/-- The text is the same at least up to a space. -/
theorem mapOperands_cases (f : Text → Text) (t : Text) : mapOperands f t = t ∨
    ∃ front x y, t = front ++ .char ' ' :: x ∧ mapOperands f t = front ++ .char ' ' :: y := by
  have whole := Text.blanks_append_trim t
  unfold mapOperands Text.mapCore mapTokens
  rcases cut : Text.cut ' ' (Text.trim t) with ⟨mnemonic, rest⟩
  cases rest with
  | none => exact .inl whole
  | some rest =>
    rw [(Text.of_cut_eq_some cut).1] at whole
    generalize t.takeWhile Text.isBlank = lead at whole ⊢
    generalize (t.dropWhile Text.isBlank).rtakeWhile Text.isBlank = trail at whole ⊢
    refine .inr ⟨lead ++ mnemonic, rest ++ trail,
      Text.join [','] ((Text.splitOn ',' rest).map (Text.mapCore f)) ++ trail,
      whole.symm.trans ?_, ?_⟩
    · simp only [List.append_assoc, List.cons_append]
    · simp only [List.append_assoc, List.cons_append]

variable {f : Text → Text}

theorem trim_mapCore_of_renames (renames : Label.Renames f) (t : Text) :
    Text.trim (Text.mapCore f t) = f (Text.trim t) := by
  rw [Text.trim_mapCore]
  rcases renames (Text.trim t) with same | ⟨-, new⟩
  · rw [same, Text.trim_trim]
  · exact new.isToken.trimmed

theorem not_mem_mapCore_of_renames (renames : Label.Renames f) {t : Text} (h : .char ',' ∉ t) :
    .char ',' ∉ Text.mapCore f t := by
  intro comma
  rcases Text.mem_mapCore comma with outside | inside
  · exact h outside
  · exact (renames.isToken (Text.isToken_trim h)).single inside

/-- A trimmed text with a space in it neither begins with a blank nor ends with one. -/
theorem trimmed_around_space {t mnemonic rest : Text}
    (h : Text.trim t = mnemonic ++ .char ' ' :: rest) :
    (mnemonic ++ [CodePoint.char ' ']).dropWhile Text.isBlank = mnemonic ++ [.char ' '] ∧
      rest.rdropWhile Text.isBlank ≠ [] := by
  have trimmed := Text.trim_eq_self_iff.1 (Text.trim_trim t)
  rw [h] at trimmed
  refine ⟨Text.dropWhile_eq_self_of_start ⟨rest, by simp⟩ trimmed.1, ?_⟩
  rw [Ne, List.rdropWhile_eq_nil_iff]
  intro blank
  have some : .char ' ' :: rest ≠ [] := List.cons_ne_nil _ _
  have all : ∀ c ∈ .char ' ' :: rest, Text.isBlank c = true :=
    List.forall_mem_cons.2 ⟨by decide, blank⟩
  have last := List.rdropWhile_eq_self_iff.1 trimmed.2 (List.append_ne_nil_of_right_ne_nil _ some)
  rw [List.getLast_append_of_right_ne_nil _ _ some] at last
  exact last (all _ (List.getLast_mem some))

/-- Reading the text of an instruction commutes with giving it other labels. -/
theorem ofText_mapOperands (renames : Label.Renames f) (t : Text) :
    ofText (mapOperands f t) = (ofText t).relabel f := by
  have core : Text.trim (mapOperands f t) = Text.trim (mapTokens f (Text.trim t)) :=
    Text.trim_mapCore (mapTokens f) t
  rw [← ofText_trim, core, ofText_trim]
  rcases cut : Text.cut ' ' (Text.trim t) with ⟨mnemonic, rest⟩
  cases rest with
  | none =>
    have same : mapTokens f (Text.trim t) = Text.trim t := by rw [mapTokens, cut]
    rw [same, ofText_trim, ofText, cut]
    rfl
  | some rest =>
    obtain ⟨whole, first⟩ := Text.of_cut_eq_some cut
    obtain ⟨begins, present⟩ := trimmed_around_space whole
    have old : ofText t = ⟨Text.toLower mnemonic, (Text.splitOn ',' rest).map Text.trim⟩ := by
      rw [ofText, cut]
    have new : mapTokens f (Text.trim t) = mnemonic ++ .char ' ' ::
        Text.join [.char ','] ((Text.splitOn (.char ',') rest).map (Text.mapCore f)) := by
      rw [mapTokens, cut]
    have tokens : ((Text.splitOn ',' rest).map (Text.mapCore f)).map Text.trim =
        ((Text.splitOn ',' rest).map Text.trim).map f := by
      have each : Text.trim ∘ Text.mapCore f = f ∘ Text.trim :=
        funext fun part => trim_mapCore_of_renames renames part
      rw [List.map_map, each, ← List.map_map]
    have full : ((Text.splitOn ',' rest).map Text.trim).map f ≠ [[]] := by
      rw [Ne, Text.rdropWhile_eq_nil_iff] at present
      intro empty
      obtain ⟨token, only, nothing⟩ := List.map_eq_singleton_iff.1 empty
      exact present (by rw [only, renames.eq_nil_iff.1 nothing])
    rw [new, ofText_join first begins (by simpa using Text.splitOn_ne_nil rest) ?_ (tokens ▸ full),
      tokens, old]
    · rfl
    · exact List.forall_mem_map.2 fun part member =>
        not_mem_mapCore_of_renames renames (Text.not_mem_of_mem_splitOn member)

end Instruction

/-! ## Lines -/

namespace SourceLine

/-- The body of a line with other labels: in a data directive there are none. -/
def relabelBody (f : Text → Text) (body : Text) : Text :=
  if (Directive.ofText? body).isSome then body else Instruction.mapOperands f body

/-- A line with other labels, in its headers and among its operands. -/
def relabel (f : Text → Text) (line : SourceLine) : SourceLine :=
  if isGlobalDeclaration line.text then line
  else
    let (names, body) := Label.split line.text
    { line with text := write (names.map f) (relabelBody f body) }

variable {f : Text → Text}

theorem relabelBody_cases (f : Text → Text) (body : Text) : relabelBody f body = body ∨
    ∃ front x y, body = front ++ .char ' ' :: x ∧ relabelBody f body = front ++ .char ' ' :: y := by
  unfold relabelBody
  split
  · exact .inl rfl
  · exact Instruction.mapOperands_cases f body

theorem number_relabel (f : Text → Text) (line : SourceLine) :
    (relabel f line).number = line.number := by
  unfold relabel
  split <;> rfl

/-! ### Headers -/

/-- No header comes or goes with what stands behind a space. -/
theorem exists_header_of_header {front x y name rest : Text}
    (h : Label.Header (front ++ .char ' ' :: y) name rest) :
    ∃ rest, Label.Header (front ++ .char ' ' :: x) name rest := by
  generalize whole : front ++ .char ' ' :: y = t at h
  cases h with
  | @spaced _ rest proper =>
    have space : .char ' ' ∉ name ++ [.char ':'] := by
      simpa using proper.not_mem (c := .char ' ') (by decide)
    have kept : name ++ [.char ':'] ++ [.char ' '] <+: front ++ .char ' ' :: x :=
      Text.prefix_space (y := y) space ⟨rest, by rw [whole]; simp⟩
    obtain ⟨more, hmore⟩ := kept
    have header : Label.Header (name ++ .char ':' :: .char ' ' :: more) name more := .spaced proper
    exact ⟨more, by simpa [← hmore] using header⟩
  | @last _ rest proper closed =>
    have member : .char ' ' ∈ name ++ .char ':' :: rest := by
      rw [← whole]
      exact List.mem_append_right _ (List.mem_cons_self ..)
    have plain : .char ' ' ∉ name := proper.not_mem (by decide)
    rcases closed with rfl | rfl <;> simp [plain] at member

theorem bare_relabelBody {body : Text} (bare : ∀ name rest, ¬Label.Header body name rest) :
    ∀ name rest, ¬Label.Header (relabelBody f body) name rest := by
  intro name rest header
  rcases relabelBody_cases f body with same | ⟨front, x, y, old, new⟩
  · exact bare name rest (same ▸ header)
  · rw [new] at header
    obtain ⟨rest, header⟩ := exists_header_of_header (x := x) header
    exact bare name rest (old ▸ header)

theorem write_nil (body : Text) : write [] body = body := by
  unfold write
  split
  · rename_i empty
    exact empty.symm
  · rfl

theorem write_cons (name : Text) {names : List Text} {body : Text}
    (more : names ≠ [] ∨ body ≠ []) :
    write (name :: names) body = name ++ .char ':' :: .char ' ' :: write names body := by
  unfold write
  rw [List.map_cons, List.cons_append]
  cases parts : names.map (· ++ [.char ':']) ++ if body = [] then [] else [body] with
  | nil =>
    rw [List.append_eq_nil_iff, List.map_eq_nil_iff] at parts
    rcases more with some | some
    · exact absurd parts.1 some
    · rw [if_neg some] at parts
      cases parts.2
  | cons first rest => simp [Text.join]

/-- What is written is read again. -/
theorem headers_write {names : List Text} {body : Text}
    (proper : ∀ name ∈ names, Label.Proper name)
    (bare : ∀ name rest, ¬Label.Header body name rest) :
    Label.Headers (write names body) names body := by
  induction names with
  | nil =>
    rw [write_nil]
    exact .body bare
  | cons name rest ih =>
    rw [List.forall_mem_cons] at proper
    by_cases more : rest ≠ [] ∨ body ≠ []
    · rw [write_cons name more]
      exact .header (.spaced proper.1) (ih proper.2)
    · rw [not_or, not_not, not_not] at more
      obtain ⟨rfl, rfl⟩ := more
      exact .header (.last proper.1 (.inl rfl)) (.body bare)

theorem proper_of_headers {t body : Text} {names : List Text} (h : Label.Headers t names body) :
    ∀ name ∈ names, Label.Proper name := by
  induction h with
  | body bare => exact nofun
  | header first more ih =>
    refine List.forall_mem_cons.2 ⟨?_, ih⟩
    cases first with
    | spaced proper | last proper closed => exact proper

theorem bare_of_headers {t body : Text} {names : List Text} (h : Label.Headers t names body) :
    ∀ name rest, ¬Label.Header body name rest := by
  induction h with
  | body bare => exact bare
  | header first more ih => exact ih

/-- A line with other labels has the other labels in its headers, and no other headers. -/
theorem headers_relabel (renames : Label.Renames f) {line : SourceLine} {names : List Text}
    {body : Text} (plain : isGlobalDeclaration line.text = false)
    (h : Label.Headers line.text names body) :
    Label.Headers (relabel f line).text (names.map f) (relabelBody f body) := by
  have text : (relabel f line).text = write (names.map f) (relabelBody f body) := by
    rw [relabel, plain, Label.split_eq_iff.2 h]
    rfl
  rw [text]
  refine headers_write ?_ (bare_relabelBody (bare_of_headers h))
  intro name member
  obtain ⟨old, hold, rfl⟩ := List.mem_map.1 member
  exact renames.proper (proper_of_headers h old hold)

/-! ### Segments -/

/-- A text opens with a label, so it is no directive. -/
def OpensWithLabel (t : Text) : Prop := ∃ c, t.head? = some c ∧ Label.isFirst c = true

theorem opensWithLabel_of_headers {t name body : Text} {names : List Text}
    (h : Label.Headers t (name :: names) body) : OpensWithLabel t := by
  have opens {name rest : Text} (proper : Label.Proper name) : OpensWithLabel (name ++ rest) := by
    cases name with
    | nil => exact proper.elim
    | cons c more => exact ⟨c, rfl, proper.1⟩
  cases h with
  | header first more =>
    cases first with
    | spaced proper | last proper closed => exact opens proper

theorem OpensWithLabel.head?_ne_point {t : Text} (opens : OpensWithLabel t) :
    t.head? ≠ some '.' := by
  obtain ⟨c, head, first⟩ := opens
  rw [head]
  rintro ⟨⟩
  exact absurd first (by decide)

/-- The text of a line is the same at least up to a space, unless it opens with a label. -/
theorem relabel_cases (renames : Label.Renames f) (line : SourceLine) :
    (relabel f line).text = line.text ∨
    (∃ front x y, line.text = front ++ .char ' ' :: x ∧
      (relabel f line).text = front ++ .char ' ' :: y) ∨
    OpensWithLabel line.text ∧ OpensWithLabel (relabel f line).text := by
  cases global : isGlobalDeclaration line.text with
  | true =>
    rw [relabel, if_pos global]
    exact .inl rfl
  | false =>
    have old := Label.headers_split line.text
    have new := headers_relabel renames global old
    cases names : (Label.split line.text).1 with
    | cons name rest =>
      rw [names] at old new
      exact .inr (.inr ⟨opensWithLabel_of_headers old, opensWithLabel_of_headers new⟩)
    | nil =>
      rw [names] at old new
      generalize (Label.split line.text).2 = body at old new
      generalize (relabel f line).text = text at new ⊢
      generalize line.text = before at old ⊢
      cases old
      cases new
      exact (relabelBody_cases f _).imp_right .inl

end SourceLine

end MipsImage
