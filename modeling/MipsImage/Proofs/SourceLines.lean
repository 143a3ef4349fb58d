import Mathlib.Data.List.Pairwise
import MipsImage.Proofs.NormalForm

/-!
# The lines of a source

The lines of a source are independent of each other: each has the normal form of its own text under
its own number, unless nothing is left of it. Normal forms that are joined to a source are the lines
of that source.
-/
set_option autoImplicit false

namespace MipsImage

/-! ## Line ends -/

namespace Text

theorem isLineEnd_of_mem_lines {t line : Text} (member : line ∈ lines t) :
    ∀ c ∈ line, isLineEnd c = false := by
  induction t using lines.induct generalizing line with
  | case1 => cases member
  | case2 rest ih =>
    rcases List.mem_cons.1 member with rfl | later
    · exact List.forall_mem_nil _
    · exact ih later
  | case3 c rest other ends ih =>
    rw [lines, if_pos ends] at member
    · rcases List.mem_cons.1 member with rfl | later
      · exact List.forall_mem_nil _
      · exact ih later
    · exact other
  | case4 c rest other inside none ih =>
    rw [lines, if_neg inside, none] at member
    · rw [List.mem_singleton.1 member]
      simpa using inside
    · exact other
  | case5 c rest other inside first more found ih =>
    rw [lines, if_neg inside, found] at member
    · rcases List.mem_cons.1 member with rfl | later
      · exact List.forall_mem_cons.2 ⟨by simpa using inside, ih (found ▸ List.mem_cons_self ..)⟩
      · exact ih (found ▸ List.mem_cons_of_mem first later)
    · exact other

/-- The first line of a text is read up to its end. -/
theorem lines_append {line rest : Text} (unbroken : ∀ c ∈ line, isLineEnd c = false)
    {first : Text} {more : List Text} (h : lines rest = first :: more) :
    lines (line ++ rest) = (line ++ first) :: more := by
  induction line with
  | nil => exact h
  | cons c front ih =>
    rw [List.forall_mem_cons] at unbroken
    rw [List.cons_append, lines, if_neg (by simp [unbroken.1]), ih unbroken.2]
    · rfl
    · rintro _ rfl
      exact absurd unbroken.1 (by decide)

theorem lines_append_feed {line : Text} (unbroken : ∀ c ∈ line, isLineEnd c = false)
    (rest : Text) : lines (line ++ .char '\n' :: rest) = line :: lines rest := by
  have feed : lines (.char '\n' :: rest) = [] :: lines rest := by
    rw [lines, if_pos (by decide)]
    exact fun _ h _ => absurd h (by decide)
  rw [lines_append unbroken feed, List.append_nil]

theorem lines_of_unbroken {t : Text} (some : t ≠ []) (h : ∀ c ∈ t, isLineEnd c = false) :
    lines t = [t] := by
  have last := List.dropLast_append_getLast some
  have one : lines [t.getLast some] = [[t.getLast some]] := by
    rw [lines, if_neg (by simp [h _ (List.getLast_mem some)])]
    · rfl
    · exact fun _ _ h => by cases h
  rw [← last, lines_append (fun c member => h c (List.dropLast_subset t member)) one]

/-- Lines that are joined by line feeds are found again. -/
theorem lines_join {parts : List Text} (some : ∀ part ∈ parts, part ≠ [])
    (unbroken : ∀ part ∈ parts, ∀ c ∈ part, isLineEnd c = false) :
    lines (join ['\n'] parts) = parts := by
  induction parts with
  | nil => rfl
  | cons first rest ih =>
    rw [List.forall_mem_cons] at some unbroken
    cases rest with
    | nil => exact lines_of_unbroken some.1 unbroken.1
    | cons second more =>
      have text : join [.char '\n'] (first :: second :: more) =
          first ++ .char '\n' :: join [.char '\n'] (second :: more) := by
        simp [join]
      rw [text, lines_append_feed unbroken.1, ih some.2 unbroken.2]

end Text

namespace SourceLine

theorem mem_ofSource_iff {source : Text} {line : SourceLine} :
    line ∈ ofSource source ↔ ∃ (i : Nat) (raw : Text), (Text.lines source)[i]? = some raw ∧
      line = ⟨normalise raw, (i + 1 : Nat)⟩ ∧ line.text ≠ [] := by
  unfold ofSource
  rw [List.mem_filterMap]
  constructor
  · rintro ⟨⟨raw, number⟩, member, h⟩
    obtain ⟨least, found⟩ := List.mk_mem_zipIdx_iff_le_and_getElem?_sub.1 member
    dsimp only at h
    split at h
    · cases h
    · rename_i some
      cases h
      refine ⟨number - 1, raw, found, ?_, some⟩
      rw [Nat.sub_add_cancel least]
  · rintro ⟨i, raw, found, rfl, some⟩
    refine ⟨(raw, i + 1), List.mk_mem_zipIdx_iff_le_and_getElem?_sub.2 ⟨by omega, found⟩, ?_⟩
    exact if_neg some

/-- A source of one line of which something is left. -/
theorem ofSource_of_unbroken {raw : Text} (unbroken : ∀ c ∈ raw, Text.isLineEnd c = false)
    (some : normalise raw ≠ []) : ofSource raw = [⟨normalise raw, 1⟩] := by
  have present : raw ≠ [] := by
    rintro rfl
    exact some (normalise_of_blank (List.forall_mem_nil _))
  rw [ofSource, Text.lines_of_unbroken present unbroken]
  exact List.filterMap_cons_some (if_neg some)

theorem pairwise_number_ofSource (source : Text) :
    (ofSource source).Pairwise (·.number < ·.number) := by
  have numbers : ((Text.lines source).zipIdx 1).Pairwise (·.2 < ·.2) := by
    rw [← List.pairwise_map (f := Prod.snd) (R := (· < ·)), List.zipIdx_map_snd]
    exact List.pairwise_lt_range'
  refine List.pairwise_filterMap.2 (numbers.imp ?_)
  rintro ⟨_, a⟩ ⟨_, b⟩ below line first other second
  dsimp only at first second
  split at first
  · cases first
  · split at second
    · cases second
    · cases first
      cases second
      exact Int.ofNat_lt.2 below

/-- Normal forms that are joined to a source are the lines of that source. -/
theorem ofSource_join {texts : List Text} (some : ∀ t ∈ texts, t ≠ [])
    (unbroken : ∀ t ∈ texts, ∀ c ∈ t, Text.isLineEnd c = false)
    (normal : ∀ t ∈ texts, normalise t = t) :
    ofSource (Text.join ['\n'] texts) =
      (texts.zipIdx 1).map fun (text, number) => ⟨text, number⟩ := by
  unfold ofSource
  rw [Text.lines_join some unbroken, ← List.filterMap_eq_map]
  refine List.filterMap_congr ?_
  rintro ⟨text, number⟩ member
  have own := List.fst_mem_of_mem_zipIdx member
  dsimp only
  rw [normal text own, if_neg (some text own)]
  rfl

end SourceLine

/-- The lines of a source are in normal form, each of them by its own raw line, and their numbers go
up. They are the lines of the source that is made of them. -/
theorem normal_lines_of_source (source : Text) :
    let lines := SourceLine.ofSource source
    let texts := lines.map SourceLine.text
    lines.Pairwise (·.number < ·.number) ∧
      (∀ line ∈ lines, 1 ≤ line.number ∧ line.number ≤ (Text.lines source).length ∧
        line.text ≠ [] ∧ (∀ c ∈ line.text, Text.isLineEnd c = false) ∧
        Text.trim line.text = line.text) ∧
      (∀ line, line ∈ lines ↔ ∃ (i : Nat) (raw : Text), (Text.lines source)[i]? = some raw ∧
        line = ⟨SourceLine.normalise raw, (i + 1 : Nat)⟩ ∧ line.text ≠ []) ∧
      SourceLine.ofSource (Text.join ['\n'] texts) =
        (texts.zipIdx 1).map fun (text, number) => ⟨text, number⟩ := by
  intro lines texts
  have own : ∀ line ∈ lines, line.text ≠ [] ∧ (∀ c ∈ line.text, Text.isLineEnd c = false) ∧
      SourceLine.normalise line.text = line.text := by
    intro line member
    obtain ⟨i, raw, found, rfl, some⟩ := SourceLine.mem_ofSource_iff.1 member
    exact ⟨some, SourceLine.isLineEnd_normalise (Text.isLineEnd_of_mem_lines
      (List.mem_of_getElem? found)), SourceLine.normalise_normalise raw⟩
  refine ⟨SourceLine.pairwise_number_ofSource source, fun line member => ?_,
    fun line => SourceLine.mem_ofSource_iff, ?_⟩
  · obtain ⟨i, raw, found, rfl, some⟩ := SourceLine.mem_ofSource_iff.1 member
    obtain ⟨within, -⟩ := List.getElem?_eq_some_iff.1 found
    refine ⟨?_, ?_, some, (own _ member).2.1, SourceLine.trim_normalise raw⟩
    · exact Int.ofNat_le.2 (Nat.le_add_left 1 i)
    · exact Int.ofNat_le.2 within
  · refine SourceLine.ofSource_join ?_ ?_ ?_
    · exact List.forall_mem_map.2 fun line member => (own line member).1
    · exact List.forall_mem_map.2 fun line member => (own line member).2.1
    · exact List.forall_mem_map.2 fun line member => (own line member).2.2

end MipsImage
