import Mathlib.Data.List.Basic
import MipsImage.SourceLine

/-!
# Where strings open and close

A quoted string is closed by the first quote that is not escaped. So the first quote of a line that
opens no string opens none for any later quote either: what stands behind it is text that was never
closed. Every line is divided in this way into text outside strings, strings, and possibly such an
open rest, and the search for strings and the search for a comment see the same division.
-/
set_option autoImplicit false

namespace MipsImage

namespace Quoted

/-! ## Bodies of strings -/

/-- No quote stands bare and every backslash has a character after it. -/
inductive Body : Text → Prop
  | nil : Body []
  | plain {c : CodePoint} {rest : Text} (quote : c ≠ '"') (backslash : c ≠ '\\')
    (more : Body rest) : Body (c :: rest)
  | escaped {c : CodePoint} {rest : Text} (more : Body rest) : Body ('\\' :: c :: rest)

/-- Reads text in a string from a place that is `escaped` or not, and tells whether the next
character would be; there is no answer if the string is closed before. -/
def inside (escaped : Bool) : Text → Option Bool
  | [] => some escaped
  | c :: rest =>
    if escaped then inside false rest
    else if c = '"' then none
    else inside (c = '\\') rest

theorem inside_append (escaped : Bool) (a b : Text) :
    inside escaped (a ++ b) = (inside escaped a).bind fun escaped => inside escaped b := by
  induction a generalizing escaped with
  | nil => rfl
  | cons c rest ih =>
    rw [List.cons_append, inside, inside]
    split
    · exact ih false
    · split
      · rfl
      · exact ih _

/-- After any character but a quote and a backslash nothing is escaped, wherever it stands. -/
theorem inside_cons {c : CodePoint} (quote : c ≠ '"') (backslash : c ≠ '\\') (escaped : Bool)
    (rest : Text) : inside escaped (c :: rest) = inside false rest := by
  cases escaped <;> simp [inside, quote, backslash]

theorem Body.inside {t : Text} (body : Body t) : inside false t = some false := by
  induction body with
  | nil => rfl
  | plain quote backslash _ ih => rwa [inside_cons quote backslash]
  | escaped _ ih => exact ih

/-! ## Strings that are closed -/

theorem Body.closing? {body : Text} (h : Body body) (after : Text) :
    closing? (body ++ .char '"' :: after) = some (body, after) := by
  induction h with
  | nil => rfl
  | plain quote backslash _ ih =>
    rw [List.cons_append, Quoted.closing?, ih]
    · rfl
    · exact quote
    · exact fun _ _ h _ => backslash h
    · exact fun h _ => backslash h
  | escaped _ ih =>
    rw [List.cons_append, List.cons_append, Quoted.closing?, ih]
    rfl

/-- A character with which neither a pair of characters begins nor a backslash is left over. -/
theorem ne_backslash {c : CodePoint} {rest : Text}
    (pair : ∀ d more, c = '\\' → rest = d :: more → False)
    (last : c = '\\' → rest = [] → False) : c ≠ '\\' := by
  intro h
  cases rest with
  | nil => exact last h rfl
  | cons d more => exact pair d more h rfl

theorem of_closing? {t body after : Text} (h : closing? t = some (body, after)) :
    Body body ∧ t = body ++ .char '"' :: after := by
  fun_induction closing? t generalizing body with
  | case1 => cases h
  | case2 rest =>
    cases h
    exact ⟨.nil, rfl⟩
  | case3 c rest ih =>
    obtain ⟨⟨inner, _⟩, hinner, heq⟩ := Option.map_eq_some_iff.1 h
    cases heq
    obtain ⟨closed, rfl⟩ := ih hinner
    exact ⟨.escaped closed, rfl⟩
  | case4 => cases h
  | case5 c rest quote pair last ih =>
    have backslash := ne_backslash pair last
    obtain ⟨⟨inner, _⟩, hinner, heq⟩ := Option.map_eq_some_iff.1 h
    cases heq
    obtain ⟨closed, rfl⟩ := ih hinner
    exact ⟨.plain quote backslash closed, rfl⟩

/-- A string is never closed exactly if its text can be read to the end. -/
theorem closing?_eq_none_iff {t : Text} :
    closing? t = none ↔ ∃ escaped, inside false t = some escaped := by
  fun_induction closing? t with
  | case1 => simp [inside]
  | case2 rest => simp [inside]
  | case3 c rest ih => simpa [inside] using ih
  | case4 => simp [inside]
  | case5 c rest quote pair last ih =>
    rw [inside_cons quote (ne_backslash pair last)]
    simpa using ih

/-! ## The first string of a line -/

theorem first?_append {front : Text} (unquoted : .char '"' ∉ front) (t : Text) :
    first? (front ++ t) =
      (first? t).map fun (before, body, after) => (front ++ before, body, after) := by
  induction front with
  | nil => simp
  | cons c rest ih =>
    rw [List.mem_cons, not_or] at unquoted
    rw [List.cons_append, first?, if_neg (Ne.symm unquoted.1), ih unquoted.2, Option.map_map]
    rfl

theorem first?_of_not_mem {t : Text} (unquoted : .char '"' ∉ t) : first? t = none := by
  have none := first?_append unquoted []
  rwa [List.append_nil] at none

/-- No string begins in text that can be read as the inside of one, for all its quotes are escaped
and what follows one of them is again such text. -/
theorem first?_of_inside {t : Text} {escaped last : Bool} (h : inside escaped t = some last) :
    first? t = none := by
  induction t generalizing escaped with
  | nil => rfl
  | cons c rest ih =>
    have opening : (if c = '"' then closing? rest else none) = none := by
      split
      · rename_i quote
        cases escaped with
        | true => exact closing?_eq_none_iff.2 ⟨last, h⟩
        | false =>
          rw [inside, if_neg Bool.false_ne_true, if_pos quote] at h
          cases h
      · rfl
    have later : first? rest = none := by
      rw [inside] at h
      split at h
      · exact ih h
      · split at h
        · cases h
        · exact ih h
    rw [first?, opening, later]
    rfl

/-! ## Divided lines -/

/-- The division of a line by its quotes. -/
inductive Divided : Text → Prop
  | plain {t : Text} (unquoted : .char '"' ∉ t) : Divided t
  | unclosed {before rest : Text} (unquoted : .char '"' ∉ before) (never : closing? rest = none) :
    Divided (before ++ .char '"' :: rest)
  | quoted {before body after : Text} (unquoted : .char '"' ∉ before) (closed : Body body)
    (more : Divided after) : Divided (before ++ .char '"' :: (body ++ .char '"' :: after))

theorem divided (t : Text) : Divided t := by
  induction length : t.length using Nat.strongRecOn generalizing t with
  | ind n shorter =>
    by_cases quote : .char '"' ∈ t
    · obtain ⟨before, rest, rfl, unquoted⟩ := List.eq_append_cons_of_mem quote
      cases h : closing? rest with
      | none => exact .unclosed unquoted h
      | some pair =>
        obtain ⟨body, after⟩ := pair
        obtain ⟨closed, rfl⟩ := of_closing? h
        refine .quoted unquoted closed (shorter after.length ?_ after rfl)
        simp only [List.length_append, List.length_cons] at length
        omega
    · exact .plain quote

theorem first?_unclosed {before rest : Text} (unquoted : .char '"' ∉ before)
    (never : closing? rest = none) : first? (before ++ .char '"' :: rest) = none := by
  obtain ⟨last, h⟩ := closing?_eq_none_iff.1 never
  rw [first?_append unquoted, first?, if_pos rfl, never, first?_of_inside h]
  rfl

theorem first?_quoted {before body after : Text} (unquoted : .char '"' ∉ before)
    (closed : Body body) :
    first? (before ++ .char '"' :: (body ++ .char '"' :: after)) = some (before, body, after) := by
  rw [first?_append unquoted, first?, if_pos rfl, closed.closing?]
  simp

end Quoted

/-! ## Comments -/

namespace SourceLine

theorem uncomment_append {front : Text} (plain : ∀ c ∈ front, c ≠ '"' ∧ c ≠ '#') (t : Text) :
    uncomment (front ++ t) = front ++ uncomment t := by
  unfold uncomment
  induction front with
  | nil => rfl
  | cons c rest ih =>
    rw [List.forall_mem_cons] at plain
    simp [uncommentFrom, plain.1, ih plain.2]

theorem plain_of_blank {blanks : Text} (h : ∀ c ∈ blanks, Text.isBlank c = true) :
    ∀ c ∈ blanks, c ≠ '"' ∧ c ≠ '#' := by
  intro c member
  constructor <;>
  · rintro rfl
    exact absurd (h _ member) (by decide)

theorem uncomment_eq_self {t : Text} (plain : ∀ c ∈ t, c ≠ '"' ∧ c ≠ '#') : uncomment t = t := by
  have whole := uncomment_append plain []
  rwa [List.append_nil, show uncomment [] = [] from rfl, List.append_nil] at whole

/-- In a string nothing is a comment. -/
theorem uncommentFrom_of_inside {t : Text} {escaped last : Bool}
    (h : Quoted.inside escaped t = some last) (rest : Text) :
    uncommentFrom true escaped (t ++ rest) = t ++ uncommentFrom true last rest := by
  induction t generalizing escaped with
  | nil =>
    cases h
    rfl
  | cons c more ih =>
    rw [Quoted.inside] at h
    rw [List.cons_append, uncommentFrom]
    cases escaped with
    | true => rw [if_pos rfl, ih h, List.cons_append]
    | false =>
      rw [if_neg Bool.false_ne_true] at h ⊢
      by_cases quote : c = '"'
      · rw [if_pos quote] at h
        cases h
      · rw [if_neg quote] at h
        by_cases backslash : c = '\\'
        · simp only [backslash, decide_true] at h
          simp [backslash, ih h]
        · simp only [backslash, decide_false] at h
          simp [backslash, quote, ih h]

theorem uncomment_quoted {body : Text} (closed : Quoted.Body body) (after : Text) :
    uncomment (.char '"' :: (body ++ .char '"' :: after)) =
      .char '"' :: (body ++ .char '"' :: uncomment after) := by
  have text := uncommentFrom_of_inside closed.inside (.char '"' :: after)
  simpa [uncomment, uncommentFrom] using text

theorem uncomment_unclosed {rest : Text} (never : Quoted.closing? rest = none) :
    uncomment (.char '"' :: rest) = .char '"' :: rest := by
  obtain ⟨last, h⟩ := Quoted.closing?_eq_none_iff.1 never
  have text := uncommentFrom_of_inside h []
  simpa [uncomment, uncommentFrom] using text

theorem opening_uncommentFrom (inString escaped : Bool) (t : Text) :
    uncommentFrom inString escaped t <+: t := by
  induction t generalizing inString escaped with
  | nil => exact List.prefix_rfl
  | cons c rest ih =>
    rw [uncommentFrom]
    split_ifs
    · exact (List.prefix_cons_inj c).2 (ih _ _)
    · exact (List.prefix_cons_inj c).2 (ih _ _)
    · exact (List.prefix_cons_inj c).2 (ih _ _)
    · exact List.nil_prefix
    · exact (List.prefix_cons_inj c).2 (ih _ _)

theorem uncommentFrom_uncommentFrom (inString escaped : Bool) (t : Text) :
    uncommentFrom inString escaped (uncommentFrom inString escaped t) =
      uncommentFrom inString escaped t := by
  induction t generalizing inString escaped with
  | nil => rfl
  | cons c rest ih =>
    rw [uncommentFrom]
    split_ifs with h₁ h₂ h₃ h₄
    · rw [uncommentFrom, if_pos h₁, ih]
    · rw [uncommentFrom, if_neg h₁, if_pos h₂, ih]
    · rw [uncommentFrom, if_neg h₁, if_neg h₂, if_pos h₃, ih]
    · rfl
    · rw [uncommentFrom, if_neg h₁, if_neg h₂, if_neg h₃, if_neg h₄, ih]

theorem uncomment_uncomment (t : Text) : uncomment (uncomment t) = uncomment t :=
  uncommentFrom_uncommentFrom false false t

/-- What a line without a comment opens with has none. -/
theorem uncommentFrom_of_append {inString escaped : Bool} {front rest : Text}
    (h : uncommentFrom inString escaped (front ++ rest) = front ++ rest) :
    uncommentFrom inString escaped front = front := by
  induction front generalizing inString escaped with
  | nil => rfl
  | cons c more ih =>
    rw [List.cons_append, uncommentFrom] at h
    rw [uncommentFrom]
    split_ifs at h ⊢ with h₁ h₂ h₃ h₄
    · rw [ih (List.cons.inj h).2]
    · rw [ih (List.cons.inj h).2]
    · rw [ih (List.cons.inj h).2]
    · rw [ih (List.cons.inj h).2]

/-- A line that opens without quotes and has no comment has none in what it opens with. -/
theorem plain_of_uncomment {front t : Text} (unquoted : .char '"' ∉ front)
    (h : uncomment (front ++ t) = front ++ t) : ∀ c ∈ front, c ≠ '"' ∧ c ≠ '#' := by
  induction front with
  | nil => exact List.forall_mem_nil _
  | cons c rest ih =>
    rw [List.mem_cons, not_or] at unquoted
    have quote := Ne.symm unquoted.1
    by_cases mark : c = '#'
    · simp [uncomment, uncommentFrom, mark] at h
    · have later : uncomment (rest ++ t) = rest ++ t := by
        simpa [uncomment, uncommentFrom, quote, mark] using h
      exact List.forall_mem_cons.2 ⟨⟨quote, mark⟩, ih unquoted.2 later⟩

end SourceLine

end MipsImage
