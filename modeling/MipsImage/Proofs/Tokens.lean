import Mathlib.Data.List.DropRight
import MipsImage.Instruction

/-!
# Tokens

The operands of an instruction as written are tokens: trimmed texts without a comma. An instruction
that is made of tokens and then written out is read back as it was, whatever else the tokens hold.
-/
set_option autoImplicit false

namespace MipsImage

namespace Text

/-! ## Trimming -/

theorem trim_eq (t : Text) : trim t = (t.dropWhile isBlank).rdropWhile isBlank := rfl

theorem trim_eq_self_iff {t : Text} :
    trim t = t ↔ t.dropWhile isBlank = t ∧ t.rdropWhile isBlank = t := by
  constructor
  · intro h
    -- both cuts shorten a text unless they leave it alone
    have start := (t.dropWhile_suffix isBlank).length_le
    have cut : trim t <+: t.dropWhile isBlank := List.rdropWhile_prefix ..
    have stop := cut.length_le
    rw [h] at stop
    have left := (t.dropWhile_suffix isBlank).eq_of_length (by omega)
    refine ⟨left, ?_⟩
    rw [trim_eq, left] at h
    exact h
  · rintro ⟨start, stop⟩
    rw [trim_eq, start, stop]

theorem trim_eq_self_of_solid {t : Text} (h : ∀ c ∈ t, isBlank c = false) :
    trim t = t := by
  rw [trim_eq_self_iff]
  constructor
  · cases t with
    | nil => rfl
    | cons c rest => exact List.dropWhile_cons_of_neg (by simp [h c (List.mem_cons_self ..)])
  · rw [List.rdropWhile_eq_self_iff]
    intro present
    simp [h _ (List.getLast_mem present)]

theorem trim_sublist (t : Text) : (trim t).Sublist t := by
  have cut : trim t <+: t.dropWhile isBlank := List.rdropWhile_prefix ..
  exact cut.sublist.trans (List.dropWhile_suffix _).sublist

theorem dropWhile_eq_self_of_start {p : CodePoint → Bool} {a b : Text} (h : a <+: b)
    (start : b.dropWhile p = b) : a.dropWhile p = a := by
  obtain ⟨rest, rfl⟩ := h
  cases a with
  | nil => rfl
  | cons c more =>
    apply List.dropWhile_cons_of_neg
    intro hc
    have shorter := ((more ++ rest).dropWhile_suffix p).length_le
    rw [List.cons_append, List.dropWhile_cons_of_pos hc] at start
    rw [start, List.length_cons] at shorter
    omega

theorem trim_trim (t : Text) : trim (trim t) = trim t := by
  have cut : trim t <+: t.dropWhile isBlank := List.rdropWhile_prefix ..
  rw [trim_eq_self_iff]
  constructor
  · exact dropWhile_eq_self_of_start cut (List.dropWhile_idempotent ..)
  · rw [trim_eq, List.rdropWhile_idempotent]

theorem dropWhile_append_of_ne_nil {p : CodePoint → Bool} {a b : Text} (h : a.dropWhile p ≠ []) :
    (a ++ b).dropWhile p = a.dropWhile p ++ b := by
  rw [List.dropWhile_append, if_neg (by simpa using h)]

theorem rdropWhile_append_of_ne_nil {p : CodePoint → Bool} {a b : Text} (h : b.rdropWhile p ≠ []) :
    (a ++ b).rdropWhile p = a ++ b.rdropWhile p := by
  unfold List.rdropWhile at h ⊢
  rw [List.reverse_append, dropWhile_append_of_ne_nil (by simpa using h), List.reverse_append,
    List.reverse_reverse]

theorem trim_append_blanks {t blanks : Text} (h : ∀ c ∈ blanks, isBlank c = true) :
    trim (t ++ blanks) = trim t := by
  have stop (a : Text) : (a ++ blanks).rdropWhile isBlank = a.rdropWhile isBlank := by
    unfold List.rdropWhile
    rw [List.reverse_append, List.dropWhile_append_of_pos (by simpa using h)]
  rw [trim_eq, trim_eq]
  by_cases empty : t.dropWhile isBlank = []
  · rw [List.dropWhile_append, if_pos (by simpa using empty), empty, List.dropWhile_eq_nil_iff.2 h]
  · rw [dropWhile_append_of_ne_nil empty, stop]

/-! ## Splitting and joining -/

section Split
variable {separator : CodePoint}

theorem splitOn_of_not_mem {t : Text} (h : separator ∉ t) : splitOn separator t = [t] := by
  induction t with
  | nil => rfl
  | cons c rest ih =>
    rw [List.mem_cons, not_or] at h
    rw [splitOn, if_neg (Ne.symm h.1), ih h.2]

theorem splitOn_append_cons {part : Text} (h : separator ∉ part) (rest : Text) :
    splitOn separator (part ++ separator :: rest) = part :: splitOn separator rest := by
  induction part with
  | nil => rw [List.nil_append, splitOn, if_pos rfl]
  | cons c more ih =>
    rw [List.mem_cons, not_or] at h
    rw [List.cons_append, splitOn, if_neg (Ne.symm h.1), ih h.2]

theorem not_mem_of_mem_splitOn {t part : Text} (h : part ∈ splitOn separator t) :
    separator ∉ part := by
  induction t generalizing part with
  | nil =>
    rw [List.mem_singleton.1 h]
    exact List.not_mem_nil
  | cons c rest ih =>
    rw [splitOn] at h
    split at h
    · rcases List.mem_cons.1 h with rfl | later
      · exact List.not_mem_nil
      · exact ih later
    · rename_i other
      split at h
      · rw [List.mem_singleton.1 h, List.mem_singleton]
        exact Ne.symm other
      · rename_i first parts hsplit
        rcases List.mem_cons.1 h with rfl | later
        · rw [List.mem_cons, not_or]
          exact ⟨Ne.symm other, ih (hsplit ▸ List.mem_cons_self ..)⟩
        · exact ih (hsplit ▸ List.mem_cons_of_mem first later)

theorem splitOn_ne_nil (t : Text) : splitOn separator t ≠ [] := by
  cases t with
  | nil => exact List.cons_ne_nil _ _
  | cons c rest =>
    rw [splitOn]
    split
    · exact List.cons_ne_nil _ _
    · split <;> exact List.cons_ne_nil _ _

/-- Characters behind a text that are no separators belong to its last part. -/
theorem splitOn_append {t more : Text} (h : separator ∉ more) :
    ∃ front last, splitOn separator t = front ++ [last] ∧
      splitOn separator (t ++ more) = front ++ [last ++ more] := by
  induction t with
  | nil => exact ⟨[], [], rfl, splitOn_of_not_mem h⟩
  | cons c rest ih =>
    obtain ⟨front, last, hrest, hmore⟩ := ih
    by_cases hc : c = separator
    · refine ⟨[] :: front, last, ?_, ?_⟩
      · rw [splitOn, if_pos hc, hrest, List.cons_append]
      · rw [List.cons_append, splitOn, if_pos hc, hmore, List.cons_append]
    · cases front with
      | nil =>
        refine ⟨[], c :: last, ?_, ?_⟩
        · rw [splitOn, if_neg hc, hrest]
          rfl
        · rw [List.cons_append, splitOn, if_neg hc, hmore]
          rfl
      | cons first front =>
        refine ⟨(c :: first) :: front, last, ?_, ?_⟩
        · rw [splitOn, if_neg hc, hrest]
          rfl
        · rw [List.cons_append, splitOn, if_neg hc, hmore]
          rfl

/-- Parts that are joined by their separator are found again. -/
theorem splitOn_join {parts : List Text} (some : parts ≠ [])
    (h : ∀ part ∈ parts, separator ∉ part) :
    splitOn separator (join [separator] parts) = parts := by
  induction parts with
  | nil => exact absurd rfl some
  | cons first rest ih =>
    rw [List.forall_mem_cons] at h
    cases rest with
    | nil => rw [join, splitOn_of_not_mem h.1]
    | cons second more =>
      have text : join [separator] (first :: second :: more) =
          first ++ separator :: join [separator] (second :: more) := by
        simp [join]
      rw [text, splitOn_append_cons h.1, ih (List.cons_ne_nil _ _) h.2]

theorem join_splitOn (t : Text) : join [separator] (splitOn separator t) = t := by
  induction t with
  | nil => rfl
  | cons c rest ih =>
    rw [splitOn]
    split
    · rename_i own
      subst own
      cases parts : splitOn c rest with
      | nil => exact absurd parts (splitOn_ne_nil rest)
      | cons first more =>
        rw [parts] at ih
        rw [join, ih]
        · rfl
        · exact List.cons_ne_nil _ _
    · cases parts : splitOn separator rest with
      | nil => exact absurd parts (splitOn_ne_nil rest)
      | cons first more =>
        rw [parts] at ih
        cases more with
        | nil => exact congrArg (c :: ·) ih
        | cons second more => exact congrArg (c :: ·) ih

end Split

theorem exists_mem_splitOn_iff {separator c : CodePoint} (other : c ≠ separator) {t : Text} :
    (∃ part ∈ splitOn separator t, c ∈ part) ↔ c ∈ t := by
  induction t with
  | nil => simp [splitOn]
  | cons d rest ih =>
    rw [splitOn]
    split
    · rename_i own
      simp [ih, own, other]
    · cases parts : splitOn separator rest with
      | nil => exact absurd parts (splitOn_ne_nil rest)
      | cons part more =>
        simp only [parts, List.exists_mem_cons_iff] at ih ⊢
        rw [List.mem_cons, List.mem_cons, ← ih, or_assoc]

theorem mem_join_iff {separator : Text} {c : CodePoint} (other : c ∉ separator)
    {parts : List Text} : c ∈ join separator parts ↔ ∃ part ∈ parts, c ∈ part := by
  induction parts with
  | nil => simp [join]
  | cons first rest ih =>
    cases rest with
    | nil => simp [join]
    | cons second more =>
      have text : join separator (first :: second :: more) =
          first ++ separator ++ join separator (second :: more) := rfl
      rw [text, List.mem_append, List.mem_append, ih, or_iff_left other,
        List.exists_mem_cons_iff _ first]

/-! ## Cutting -/

section Cut
variable {separator : CodePoint} {a b t : Text}

theorem cut_of_not_mem (h : separator ∉ t) :
    cut separator t = (t, none) := by
  induction t with
  | nil => rfl
  | cons c rest ih =>
    rw [List.mem_cons, not_or] at h
    rw [cut, if_neg (Ne.symm h.1), ih h.2]

theorem cut_append_cons (h : separator ∉ a) (b : Text) :
    cut separator (a ++ separator :: b) = (a, some b) := by
  induction a with
  | nil => rw [List.nil_append, cut, if_pos rfl]
  | cons c rest ih =>
    rw [List.mem_cons, not_or] at h
    rw [List.cons_append, cut, if_neg (Ne.symm h.1), ih h.2]

/-- The first separator divides a text. -/
theorem of_cut_eq_some (h : cut separator t = (a, some b)) :
    t = a ++ separator :: b ∧ separator ∉ a := by
  by_cases member : separator ∈ t
  · obtain ⟨front, back, rfl, first⟩ := List.eq_append_cons_of_mem member
    rw [cut_append_cons first] at h
    cases h
    exact ⟨rfl, first⟩
  · rw [cut_of_not_mem member] at h
    cases h

/-- A word that a space closes at the start of a text does not depend on what follows the last
space that is kept. -/
theorem prefix_space {word front x y : Text} (whole : .char ' ' ∉ word)
    (h : word ++ [.char ' '] <+: front ++ .char ' ' :: y) :
    word ++ [.char ' '] <+: front ++ .char ' ' :: x := by
  obtain ⟨rest, h⟩ := h
  rw [List.append_assoc, List.append_eq_append_iff] at h
  rcases h with ⟨more, rfl, h⟩ | ⟨more, rfl, h⟩
  · cases more with
    | nil => exact ⟨x, by simp⟩
    | cons c more =>
      cases h
      exact ⟨more ++ .char ' ' :: x, by simp⟩
  · cases more with
    | nil => exact ⟨x, by simp⟩
    | cons c more =>
      cases h
      simp at whole

end Cut

/-! ## Tokens -/

/-- A text that can be an operand. -/
structure IsToken (t : Text) : Prop where
  trimmed : trim t = t
  single : .char ',' ∉ t

instance (t : Text) : Decidable (IsToken t) :=
  decidable_of_iff (trim t = t ∧ .char ',' ∉ t)
    ⟨fun h => ⟨h.1, h.2⟩, fun h => ⟨h.trimmed, h.single⟩⟩

theorem isToken_trim {t : Text} (single : .char ',' ∉ t) : IsToken (trim t) where
  trimmed := trim_trim t
  single comma := single ((trim_sublist t).subset comma)

theorem isToken_of_mem_splitOn {t token : Text} (h : token ∈ (splitOn ',' t).map trim) :
    IsToken token := by
  obtain ⟨part, member, rfl⟩ := List.mem_map.1 h
  exact isToken_trim (not_mem_of_mem_splitOn member)

theorem trim_space_cons (t : Text) : trim (' ' :: t) = trim t := by
  rw [trim_eq, trim_eq, List.dropWhile_cons_of_pos (by decide)]

theorem map_trim_splitOn_space (t : Text) :
    (splitOn ',' (' ' :: t)).map trim = (splitOn ',' t).map trim := by
  rw [splitOn, if_neg (by decide)]
  split
  · rename_i none
    exact absurd none (splitOn_ne_nil t)
  · rename_i first parts hsplit
    rw [hsplit, List.map_cons, List.map_cons, trim_space_cons]

/-- Tokens that are joined by commas and spaces are read back. -/
theorem map_trim_splitOn_join {tokens : List Text} (some : tokens ≠ [])
    (h : ∀ token ∈ tokens, IsToken token) :
    (splitOn ',' (join [',', ' '] tokens)).map trim = tokens := by
  induction tokens with
  | nil => exact absurd rfl some
  | cons first rest ih =>
    have own := h first (List.mem_cons_self ..)
    cases rest with
    | nil =>
      rw [join, splitOn_of_not_mem own.single, List.map_singleton, own.trimmed]
    | cons second more =>
      have later := ih (List.cons_ne_nil _ _) fun token member =>
        h token (List.mem_cons_of_mem first member)
      have text : join [.char ',', .char ' '] (first :: second :: more) =
          first ++ .char ',' :: .char ' ' :: join [.char ',', .char ' '] (second :: more) := by
        simp [join]
      rw [text, splitOn_append_cons own.single, List.map_cons, own.trimmed,
        map_trim_splitOn_space, later]

/-- The same with blanks at the end cut off. -/
theorem map_trim_splitOn_rdropWhile (t : Text) :
    (splitOn ',' (t.rdropWhile isBlank)).map trim = (splitOn ',' t).map trim := by
  have blanks : ∀ c ∈ t.rtakeWhile isBlank, isBlank c = true :=
    fun c member => List.mem_rtakeWhile_imp member
  have comma : .char ',' ∉ t.rtakeWhile isBlank := fun member => by
    have := blanks ',' member
    revert this
    decide
  obtain ⟨front, last, hcut, hwhole⟩ := splitOn_append (t := t.rdropWhile isBlank) comma
  rw [List.rdropWhile_append_rtakeWhile] at hwhole
  rw [hcut, hwhole, List.map_append, List.map_append, List.map_singleton, List.map_singleton,
    trim_append_blanks blanks]

/-- A text of blanks has one token, which is empty. -/
theorem rdropWhile_eq_nil_iff {t : Text} :
    t.rdropWhile isBlank = [] ↔ (splitOn ',' t).map trim = [[]] := by
  constructor
  · intro blank
    rw [← map_trim_splitOn_rdropWhile, blank]
    rfl
  · intro empty
    have single : (splitOn ',' t).length = 1 := by simpa using congrArg List.length empty
    obtain ⟨part, own⟩ := List.length_eq_one_iff.1 single
    have whole : join [','] (splitOn ',' t) = t := join_splitOn t
    rw [own, join] at whole
    rw [own, whole, List.map_singleton, List.cons.injEq, trim_eq, List.rdropWhile_eq_nil_iff]
      at empty
    rw [List.rdropWhile_eq_nil_iff, ← List.takeWhile_append_dropWhile (p := isBlank) (l := t),
      List.forall_mem_append]
    exact ⟨fun c member => List.mem_takeWhile_imp member, empty.1⟩

end Text

/-! ## Instructions -/

namespace Instruction

theorem isToken_operands (t : Text) : ∀ token ∈ (ofText t).operands, Text.IsToken token := by
  intro token member
  unfold ofText at member
  split at member
  · cases member
  · exact Text.isToken_of_mem_splitOn member

/-- A mnemonic in lower case without blanks. -/
structure IsMnemonic (t : Text) : Prop where
  present : t ≠ []
  solid : ∀ c ∈ t, Text.isBlank c = false
  lower : Text.toLower t = t

-- the characters of the text are tried, and not all characters there are
instance (t : Text) : Decidable (IsMnemonic t) :=
  decidable_of_iff (t ≠ [] ∧ t.all (!Text.isBlank ·) = true ∧ Text.toLower t = t)
    ⟨fun h => ⟨h.1, by simpa using h.2.1, h.2.2⟩,
      fun h => ⟨h.present, by simpa using h.solid, h.lower⟩⟩

theorem ofText_trim (t : Text) : ofText (Text.trim t) = ofText t := by
  rw [ofText, ofText, Text.trim_trim]

/-- What stands before the first space is the mnemonic, and what follows it are the operands. -/
theorem ofText_append_space {word rest : Text} (whole : .char ' ' ∉ word)
    (begins : (word ++ [CodePoint.char ' ']).dropWhile Text.isBlank = word ++ [.char ' '])
    (present : rest.rdropWhile Text.isBlank ≠ []) :
    ofText (word ++ .char ' ' :: rest) =
      ⟨Text.toLower word, (Text.splitOn (.char ',') rest).map Text.trim⟩ := by
  have front : (word ++ [CodePoint.char ' ']).dropWhile Text.isBlank ≠ [] := by
    rw [begins]
    exact List.append_ne_nil_of_right_ne_nil _ (List.cons_ne_nil _ _)
  have trimmed : Text.trim (word ++ .char ' ' :: rest) =
      word ++ .char ' ' :: rest.rdropWhile Text.isBlank := by
    rw [List.append_cons, Text.trim_eq, Text.dropWhile_append_of_ne_nil front, begins,
      Text.rdropWhile_append_of_ne_nil present, ← List.append_cons]
  rw [ofText, trimmed, Text.cut_append_cons whole]
  simp only [Text.map_trim_splitOn_rdropWhile]

/-- The operands between commas are read whatever blanks there are around them. -/
theorem ofText_join {word : Text} {pieces : List Text} (whole : .char ' ' ∉ word)
    (begins : (word ++ [CodePoint.char ' ']).dropWhile Text.isBlank = word ++ [.char ' '])
    (some : pieces ≠ []) (single : ∀ piece ∈ pieces, .char ',' ∉ piece)
    (full : pieces.map Text.trim ≠ [[]]) :
    ofText (word ++ .char ' ' :: Text.join [.char ','] pieces) =
      ⟨Text.toLower word, pieces.map Text.trim⟩ := by
  have parts := Text.splitOn_join some single
  have present : (Text.join [','] pieces).rdropWhile Text.isBlank ≠ [] := by
    rwa [Ne, Text.rdropWhile_eq_nil_iff, parts]
  rw [ofText_append_space whole begins present, parts]

/-- A mnemonic and tokens are read from a text that is made of them. -/
theorem ofText_append_join {mnemonic : Text} {operands : List Text} (present : mnemonic ≠ [])
    (solid : ∀ c ∈ mnemonic, Text.isBlank c = false) (some : operands ≠ [])
    (full : operands ≠ [[]]) (tokens : ∀ token ∈ operands, Text.IsToken token) :
    ofText (mnemonic ++ .char ' ' :: Text.join [.char ',', .char ' '] operands) =
      ⟨Text.toLower mnemonic, operands⟩ := by
  have whole : .char ' ' ∉ mnemonic := fun member => absurd (solid (.char ' ') member) (by decide)
  have begins :
      (mnemonic ++ [CodePoint.char ' ']).dropWhile Text.isBlank = mnemonic ++ [.char ' '] := by
    cases h : mnemonic with
    | nil => exact absurd h present
    | cons c rest =>
      have first := solid c (h ▸ List.mem_cons_self ..)
      exact List.dropWhile_cons_of_neg (by simp [first])
  have read := Text.map_trim_splitOn_join some tokens
  have shown : (Text.join [',', ' '] operands).rdropWhile Text.isBlank ≠ [] := by
    rwa [Ne, Text.rdropWhile_eq_nil_iff, read]
  rw [ofText_append_space whole begins shown, read]

/-- An instruction that is made of tokens is read back from its text. -/
theorem ofText_text {i : Instruction} (mnemonic : IsMnemonic i.mnemonic) (some : i.operands ≠ [])
    (full : i.operands ≠ [[]]) (tokens : ∀ token ∈ i.operands, Text.IsToken token) :
    ofText i.text = i := by
  rw [text, ofText_append_join mnemonic.present mnemonic.solid some full tokens, mnemonic.lower]

end Instruction

end MipsImage
