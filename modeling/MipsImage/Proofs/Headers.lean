import Mathlib.Data.List.TakeWhile
import MipsImage.Label

/-!
# Label headers

The headers that a normalised line opens with, as a grammar beside the scanner. A colon cannot be
part of a label, so the scanner never takes more or less than one label, and a line has one list of
headers and one body.
-/
set_option autoImplicit false

namespace MipsImage.Label

/-- An ASCII letter or an underscore, then word characters and dots. -/
def Proper : Text → Prop
  | [] => False
  | c :: rest => isFirst c = true ∧ ∀ d ∈ rest, isNext d = true

/-- A text opens with the header of a label, which a space closes or the end of the text. -/
inductive Header : Text → Text → Text → Prop
  | spaced {name rest : Text} (proper : Proper name) :
    Header (name ++ .char ':' :: .char ' ' :: rest) name rest
  | last {name rest : Text} (proper : Proper name) (closed : rest = [] ∨ rest = [.char '\n']) :
    Header (name ++ .char ':' :: rest) name rest

/-- The names of the headers with which a text opens, up to a body that opens with none. -/
inductive Headers : Text → List Text → Text → Prop
  | body {t : Text} (bare : ∀ name rest, ¬Header t name rest) : Headers t [] t
  | header {t name rest body : Text} {names : List Text} (first : Header t name rest)
    (more : Headers rest names body) : Headers t (name :: names) body

/-! ## Scanning -/

theorem scan?_append {name rest : Text} (proper : Proper name)
    (stop : ∀ c, rest.head? = some c → isNext c = false) :
    scan? (name ++ rest) = some (name, rest) := by
  have stopped : rest.takeWhile isNext = [] ∧ rest.dropWhile isNext = rest := by
    cases rest with
    | nil => exact ⟨rfl, rfl⟩
    | cons c more => simp [stop c rfl]
  cases name with
  | nil => exact proper.elim
  | cons c next =>
    obtain ⟨first, following⟩ := proper
    rw [List.cons_append, scan?, if_pos first, List.takeWhile_append_of_pos following,
      List.dropWhile_append_of_pos following, stopped.1, stopped.2, List.append_nil]

theorem of_scan? {t name rest : Text} (h : scan? t = some (name, rest)) :
    Proper name ∧ t = name ++ rest := by
  cases t with
  | nil => cases h
  | cons c more =>
    rw [scan?] at h
    split at h
    · rename_i first
      cases h
      refine ⟨⟨first, fun d member => List.mem_takeWhile_imp member⟩, ?_⟩
      rw [List.cons_append, List.takeWhile_append_dropWhile]
    · cases h

theorem scan?_colon {name : Text} (proper : Proper name) (rest : Text) :
    scan? (name ++ .char ':' :: rest) = some (name, .char ':' :: rest) := by
  apply scan?_append proper
  intro c hc
  cases hc
  decide

/-! ## Headers -/

theorem header?_eq_some_iff {t name rest : Text} :
    header? t = some (name, rest) ↔ Header t name rest := by
  constructor
  · intro h
    unfold header? at h
    split at h
    · rename_i scanned
      cases h
      obtain ⟨proper, rfl⟩ := of_scan? scanned
      exact .spaced proper
    · rename_i scanned
      split at h
      · rename_i closed
        cases h
        obtain ⟨proper, rfl⟩ := of_scan? scanned
        exact .last proper (by simpa [Text.isAtEnd] using closed)
      · cases h
    · cases h
  · intro h
    unfold header?
    cases h with
    | spaced proper => simp only [scan?_colon proper]
    | last proper closed =>
      have other : ∀ more, rest ≠ .char ' ' :: more := by
        rintro more rfl
        simp at closed
      rw [scan?_colon proper]
      split
      · rename_i heq
        cases heq
        exact absurd rfl (other _)
      · rename_i heq
        cases heq
        rw [if_pos (by simpa [Text.isAtEnd] using closed)]
      · rename_i none
        exact absurd rfl (none name rest)

theorem split_eq_iff {t body : Text} {names : List Text} :
    split t = (names, body) ↔ Headers t names body := by
  constructor
  · intro h
    fun_induction split t generalizing names with
    | case1 t name rest found more after heq ih =>
      cases h
      exact .header (header?_eq_some_iff.1 found) (ih heq)
    | case2 t none =>
      cases h
      refine .body fun name rest header => ?_
      rw [header?_eq_some_iff.2 header] at none
      cases none
  · intro h
    induction h with
    | @body t bare =>
      have none : header? t = none := by
        cases found : header? t with
        | none => rfl
        | some pair => exact absurd (header?_eq_some_iff.1 found) (bare pair.1 pair.2)
      rw [split]
      split
      · rename_i found
        rw [none] at found
        cases found
      · rfl
    | header first more ih =>
      rw [split]
      split
      · rename_i found
        rw [header?_eq_some_iff.2 first] at found
        cases found
        rw [ih]
      · rename_i none
        rw [header?_eq_some_iff.2 first] at none
        cases none

theorem Header.suffix {t name rest : Text} (h : Header t name rest) : rest <:+ t := by
  cases h with
  | spaced proper => exact ⟨name ++ [.char ':', .char ' '], by simp⟩
  | last proper closed => exact ⟨name ++ [.char ':'], by simp⟩

/-- The body is what the text ends with. -/
theorem Headers.suffix {t body : Text} {names : List Text} (h : Headers t names body) :
    body <:+ t := by
  induction h with
  | body bare => exact List.suffix_refl _
  | header first more ih => exact ih.trans first.suffix

/-- Every text has headers and a body, namely those that are split off. -/
theorem headers_split (t : Text) : Headers t (split t).1 (split t).2 := split_eq_iff.1 rfl

end MipsImage.Label
