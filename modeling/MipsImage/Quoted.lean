import MipsImage.Text.Basic

/-!
# Quoted strings in a line

A quoted string runs from a double quote to the next one that no backslash precedes; a backslash
always belongs together with the character after it. A quote that is never closed opens nothing.
-/
set_option autoImplicit false

namespace MipsImage.Quoted

/-- What stands before the closing quote and what after it, the opening quote already passed. -/
def closing? : Text → Option (Text × Text)
  | [] => none
  | '"' :: rest => some ([], rest)
  | '\\' :: c :: rest => (closing? rest).map fun (body, after) => ('\\' :: c :: body, after)
  | ['\\'] => none
  | c :: rest => (closing? rest).map fun (body, after) => (c :: body, after)

/-- The text before the first quoted string, the body of that string and the text after it. -/
def first? : Text → Option (Text × Text × Text)
  | [] => none
  | c :: rest =>
    match if c = '"' then closing? rest else none with
    | some (body, after) => some ([], body, after)
    | none => (first? rest).map fun (before, body, after) => (c :: before, body, after)

/-- The body of the one quoted string that the whole text is. -/
def body? : Text → Option Text
  | '"' :: rest =>
    match closing? rest with
    | some (body, []) => some body
    | _ => none
  | _ => none

theorem closing?_length {t body after : Text} (h : closing? t = some (body, after)) :
    after.length < t.length := by
  fun_induction closing? t generalizing body with
  | case1 => simp at h
  | case2 rest => simp at h; simp [h.2]
  | case3 c rest ih =>
    simp only [Option.map_eq_some_iff, Prod.exists, Prod.mk.injEq] at h
    obtain ⟨b, a, hc, -, rfl⟩ := h
    have := ih hc
    simp only [List.length_cons]
    omega
  | case4 => simp at h
  | case5 c rest _ _ _ ih =>
    simp only [Option.map_eq_some_iff, Prod.exists, Prod.mk.injEq] at h
    obtain ⟨b, a, hc, -, rfl⟩ := h
    have := ih hc
    simp only [List.length_cons]
    omega

theorem first?_length {t before body after : Text} (h : first? t = some (before, body, after)) :
    after.length < t.length := by
  induction t generalizing before body with
  | nil => simp [first?] at h
  | cons c rest ih =>
    simp only [first?] at h
    split at h
    · rename_i hc
      simp only [Option.some.injEq, Prod.mk.injEq] at h
      split at hc
      · have := closing?_length hc
        simp only [← h.2.2, List.length_cons]
        omega
      · simp at hc
    · simp only [Option.map_eq_some_iff, Prod.exists, Prod.mk.injEq] at h
      obtain ⟨b, m, a, hf, -, -, rfl⟩ := h
      have := ih hf
      simp only [List.length_cons]
      omega

end MipsImage.Quoted
