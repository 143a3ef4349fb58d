import MipsImage.Proofs.LabelNames
import MipsImage.Register

/-!
# Letter case

Two texts with the same letters differ at most in which of their ASCII letters are capitals. That is
no difference for blanks, separators and labels, nor for the full mapping to lower case, which looks
at the letters around a character only for whether they are cased.
-/
set_option autoImplicit false

namespace MipsImage.Text

/-! ## Characters -/

/-- The letters of ASCII are the only characters that have another small form. -/
theorem toLower_cases (c : CodePoint) :
    c.toLower = c ∨
      ∃ n < 26, c = CodePoint.ofNat (n + 65) ∧ c.toLower = CodePoint.ofNat (n + 97) := by
  by_cases capital : 65 ≤ c.toNat ∧ c.toNat ≤ 90
  · have letters : ∀ n < 26, (CodePoint.ofNat (n + 65)).toLower = CodePoint.ofNat (n + 97) := by
      decide
    obtain ⟨n, hn⟩ : ∃ n, c.toNat = n + 65 := ⟨c.toNat - 65, by omega⟩
    have letter : c = CodePoint.ofNat (n + 65) := by rw [← hn, CodePoint.ofNat_toNat]
    have within : n < 26 := by omega
    exact .inr ⟨n, within, letter, by rw [letter, letters n within]⟩
  · refine .inl ?_
    cases c with
    | char c =>
      have small : ¬(c.val ≥ 'A'.val ∧ c.val ≤ 'Z'.val) := by
        rintro ⟨lower, upper⟩
        exact capital ⟨UInt32.le_iff_toNat_le.1 lower, UInt32.le_iff_toNat_le.1 upper⟩
      exact congrArg CodePoint.char (dif_neg small)
    | surrogate place => rfl

/-- What does not tell the capitals of ASCII from the small letters does not tell any character from
its small form. -/
theorem apply_toLower {α : Type} {f : CodePoint → α}
    (h : ∀ n < 26, f (CodePoint.ofNat (n + 97)) = f (CodePoint.ofNat (n + 65))) (c : CodePoint) :
    f c.toLower = f c := by
  rcases toLower_cases c with same | ⟨n, within, letter, small⟩
  · rw [same]
  · rw [small, h n within, ← letter]

theorem isBlank_toLower (c : CodePoint) : isBlank c.toLower = isBlank c :=
  apply_toLower (by decide +kernel) c

theorem isCaseIgnorable_toLower (c : CodePoint) : isCaseIgnorable c.toLower = isCaseIgnorable c :=
  apply_toLower (by decide +kernel) c

theorem isCased_toLower (c : CodePoint) : isCased c.toLower = isCased c :=
  apply_toLower (by decide +kernel) c

theorem lowerChar_toLower (c : CodePoint) : lowerChar c.toLower = lowerChar c :=
  apply_toLower (by decide +kernel) c

/-- A character that is no letter of ASCII. -/
def Plain (d : CodePoint) : Prop :=
  ∀ n < 26, CodePoint.ofNat (n + 97) ≠ d ∧ CodePoint.ofNat (n + 65) ≠ d

instance (d : CodePoint) : Decidable (Plain d) :=
  inferInstanceAs
    (Decidable (∀ n < 26, CodePoint.ofNat (n + 97) ≠ d ∧ CodePoint.ofNat (n + 65) ≠ d))

/-- It is the small form of nothing but itself. -/
theorem Plain.toLower_eq_iff {d : CodePoint} (plain : Plain d) (c : CodePoint) :
    c.toLower = d ↔ c = d :=
  iff_of_eq (apply_toLower (f := (· = d))
    (fun n within => propext (iff_of_false (plain n within).1 (plain n within).2)) c)

theorem plain_of_isBlank {d : CodePoint} (blank : isBlank d = true) : Plain d := by
  have letters : ∀ n < 26, isBlank (CodePoint.ofNat (n + 97)) = false ∧
      isBlank (CodePoint.ofNat (n + 65)) = false := by decide
  intro n within
  constructor
  · rintro rfl
    rw [(letters n within).1] at blank
    cases blank
  · rintro rfl
    rw [(letters n within).2] at blank
    cases blank

/-! ## Lower case -/

theorem beginsCased_map_toLower (t : Text) :
    beginsCased (t.map CodePoint.toLower) = beginsCased t := by
  have ignorable : isCaseIgnorable ∘ CodePoint.toLower = isCaseIgnorable :=
    funext isCaseIgnorable_toLower
  rw [beginsCased, beginsCased, List.dropWhile_map, ignorable]
  cases t.dropWhile isCaseIgnorable with
  | nil => rfl
  | cons c rest => exact isCased_toLower c

theorem lowerWithin_map_toLower (before : Text) (c : CodePoint) (after : Text) :
    lowerWithin (before.map CodePoint.toLower) c.toLower (after.map CodePoint.toLower) =
      lowerWithin before c after := by
  simp only [lowerWithin, beginsCased_map_toLower, lowerChar_toLower,
    Plain.toLower_eq_iff (d := 'Σ') (by decide), Plain.toLower_eq_iff (d := 'İ') (by decide)]

theorem lowerFrom_map_toLower (before t : Text) :
    lowerFrom (before.map CodePoint.toLower) (t.map CodePoint.toLower) = lowerFrom before t := by
  induction t generalizing before with
  | nil => rfl
  | cons c rest ih =>
    rw [List.map_cons, lowerFrom, lowerFrom, lowerWithin_map_toLower, ← ih (c :: before)]
    rfl

theorem toLower_map_toLower (t : Text) : toLower (t.map CodePoint.toLower) = toLower t :=
  lowerFrom_map_toLower [] t

theorem trim_map_toLower (t : Text) :
    trim (t.map CodePoint.toLower) = (trim t).map CodePoint.toLower := by
  have blank : isBlank ∘ CodePoint.toLower = isBlank := funext isBlank_toLower
  rw [trim_eq, trim_eq, List.rdropWhile, List.rdropWhile, List.dropWhile_map, blank,
    ← List.map_reverse, List.dropWhile_map, blank, List.map_reverse]

/-! ## Texts with the same letters -/

/-- The same text but for the case of its ASCII letters. -/
def SameLetters (t new : Text) : Prop := t.map CodePoint.toLower = new.map CodePoint.toLower

instance (t new : Text) : Decidable (SameLetters t new) :=
  inferInstanceAs (Decidable (t.map CodePoint.toLower = new.map CodePoint.toLower))

namespace SameLetters

variable {t new : Text}

theorem refl (t : Text) : SameLetters t t := Eq.refl _

theorem symm (same : SameLetters t new) : SameLetters new t := Eq.symm same

theorem toLower_eq (same : SameLetters t new) : toLower new = toLower t := by
  rw [← toLower_map_toLower new, ← same, toLower_map_toLower]

theorem trim (same : SameLetters t new) : SameLetters (Text.trim t) (Text.trim new) := by
  rw [SameLetters, ← trim_map_toLower, same, trim_map_toLower]

theorem eq_nil_iff (same : SameLetters t new) : new = [] ↔ t = [] := by
  rw [← List.map_eq_nil_iff (f := CodePoint.toLower), ← same, List.map_eq_nil_iff]

theorem length_eq (same : SameLetters t new) : new.length = t.length := by
  rw [← List.length_map (f := CodePoint.toLower), ← same, List.length_map]

theorem forall_iff (same : SameLetters t new) {p : CodePoint → Bool}
    (blind : ∀ c : CodePoint, p c.toLower = p c) :
    (∀ c ∈ new, p c = true) ↔ ∀ c ∈ t, p c = true := by
  have small (s : Text) : (∀ c ∈ s, p c = true) ↔ ∀ c ∈ s.map CodePoint.toLower, p c = true := by
    simp [blind]
  rw [small new, small t, same]

theorem mem_iff (same : SameLetters t new) {d : CodePoint}
    (plain : Plain d) : d ∈ new ↔ d ∈ t := by
  have small (s : Text) : d ∈ s ↔ d ∈ s.map CodePoint.toLower := by
    simp [plain.toLower_eq_iff]
  rw [small new, small t, same]

theorem head?_eq_some_iff (same : SameLetters t new) {d : CodePoint}
    (plain : Plain d) : new.head? = some d ↔ t.head? = some d := by
  have small (s : Text) : s.head? = some d ↔ (s.map CodePoint.toLower).head? = some d := by
    cases s with
    | nil => simp
    | cons c rest => simp [plain.toLower_eq_iff]
  rw [small new, small t, same]

theorem trimmed (same : SameLetters t new) (trimmed : Text.trim t = t) :
    Text.trim new = new := by
  refine (trim_sublist new).eq_of_length ?_
  rw [same.trim.length_eq, trimmed, same.length_eq]

theorem isToken (same : SameLetters t new) (token : IsToken t) : IsToken new where
  trimmed := same.trimmed token.trimmed
  single := fun comma => token.single ((same.mem_iff (by decide)).1 comma)

theorem proper (same : SameLetters t new) (proper : Label.Proper t) : Label.Proper new := by
  have first (c : CodePoint) : Label.isFirst c.toLower = Label.isFirst c :=
    apply_toLower (by decide +kernel) c
  have next (c : CodePoint) : Label.isNext c.toLower = Label.isNext c :=
    apply_toLower (by decide +kernel) c
  cases t with
  | nil => exact proper.elim
  | cons c rest =>
    cases new with
    | nil => cases same
    | cons d more =>
      rw [SameLetters, List.map_cons, List.map_cons, List.cons.injEq] at same
      refine ⟨?_, (forall_iff same.2 next).2 proper.2⟩
      rw [← first, ← same.1, first]
      exact proper.1

/-- A text has no blank at its start if the other has none. -/
theorem begins (same : SameLetters t new) (start : t.dropWhile isBlank = t) :
    new.dropWhile isBlank = new := by
  have blank : isBlank ∘ CodePoint.toLower = isBlank := funext isBlank_toLower
  have small (s : Text) : ((s.map CodePoint.toLower).dropWhile isBlank).length =
      (s.dropWhile isBlank).length := by
    rw [List.dropWhile_map, blank, List.length_map]
  refine (List.dropWhile_suffix isBlank).eq_of_length ?_
  rw [← small, ← same, small, start, same.length_eq]

theorem append (same : SameLetters t new) (rest : Text) :
    SameLetters (t ++ rest) (new ++ rest) := by
  rw [SameLetters, List.map_append, List.map_append, same]

theorem append_inv {front back : Text} (same : SameLetters t (front ++ back)) :
    ∃ a b, t = a ++ b ∧ SameLetters a front ∧ SameLetters b back := by
  rw [SameLetters, List.map_append, List.map_eq_append_iff] at same
  exact same

theorem cons_inv {d : CodePoint} {rest : Text} (same : SameLetters t (d :: rest))
    (plain : Plain d) : ∃ more, t = d :: more ∧ SameLetters more rest := by
  cases t with
  | nil => cases same
  | cons c more =>
    rw [SameLetters, List.map_cons, List.map_cons, List.cons.injEq] at same
    have own : d.toLower = d := (plain.toLower_eq_iff d).2 rfl
    rw [own, plain.toLower_eq_iff] at same
    exact ⟨more, by rw [same.1], same.2⟩

/-- A text opens with a header if the other does. -/
theorem header (same : SameLetters t new) {name rest : Text} (h : Label.Header new name rest) :
    ∃ name rest, Label.Header t name rest := by
  cases h with
  | spaced proper =>
    obtain ⟨name, _, rfl, names, colon⟩ := same.append_inv
    obtain ⟨_, rfl, space⟩ := colon.cons_inv (by decide)
    obtain ⟨rest, rfl, -⟩ := space.cons_inv (by decide)
    exact ⟨name, rest, .spaced (names.symm.proper proper)⟩
  | last proper closed =>
    obtain ⟨name, _, rfl, names, colon⟩ := same.append_inv
    obtain ⟨rest, rfl, behind⟩ := colon.cons_inv (by decide)
    refine ⟨name, rest, .last (names.symm.proper proper) ?_⟩
    rcases closed with rfl | rfl
    · exact .inl (behind.symm.eq_nil_iff.2 rfl)
    · obtain ⟨more, rfl, nothing⟩ := behind.cons_inv (by decide)
      rw [nothing.symm.eq_nil_iff.2 rfl]
      exact .inr rfl

end SameLetters

end MipsImage.Text
