/-!
# Outcomes

An outcome is a value or a failure together with the notes made on the way to it. Running one
computation after another keeps the notes of both in their order, and a failure keeps the notes
that were made before it.
-/
set_option autoImplicit false

namespace MipsImage

structure Outcome (ω ε α : Type) where
  notes : List ω
  result : Except ε α

namespace Outcome

variable {ω ω₂ ε ε₂ α β : Type}

def ok (value : α) : Outcome ω ε α := ⟨[], .ok value⟩

def fail (error : ε) : Outcome ω ε α := ⟨[], .error error⟩

/-- A value with one note. -/
def noting (n : ω) (value : α) : Outcome ω ε α := ⟨[n], .ok value⟩

def ofExcept (result : Except ε α) : Outcome ω ε α := ⟨[], result⟩

def bind (x : Outcome ω ε α) (f : α → Outcome ω ε β) : Outcome ω ε β :=
  match x.result with
  | .error error => ⟨x.notes, .error error⟩
  | .ok value => ⟨x.notes ++ (f value).notes, (f value).result⟩

instance : Monad (Outcome ω ε) where
  pure := ok
  bind := bind

instance : MonadLift (Except ε) (Outcome ω ε) where
  monadLift := ofExcept

def mapNotes (f : ω → ω₂) (x : Outcome ω ε α) : Outcome ω₂ ε α := ⟨x.notes.map f, x.result⟩

def mapError (f : ε → ε₂) (x : Outcome ω ε α) : Outcome ω ε₂ α := ⟨x.notes, x.result.mapError f⟩

/-! ## Laws -/

theorem pure_eq_ok (value : α) : (pure value : Outcome ω ε α) = ok value := rfl

theorem bind_eq (x : Outcome ω ε α) (f : α → Outcome ω ε β) : x >>= f = x.bind f := rfl

@[simp] theorem ok_bind (value : α) (f : α → Outcome ω ε β) : (ok value).bind f = f value := by
  simp [ok, bind]

@[simp] theorem fail_bind (error : ε) (f : α → Outcome ω ε β) :
    (fail error).bind f = fail error := by
  simp [fail, bind]

@[simp] theorem bind_ok (x : Outcome ω ε α) : x.bind ok = x := by
  obtain ⟨notes, result⟩ := x
  cases result with
  | error error => rfl
  | ok value => simp [ok, bind]

theorem bind_assoc {γ : Type} (x : Outcome ω ε α) (f : α → Outcome ω ε β)
    (g : β → Outcome ω ε γ) : (x.bind f).bind g = x.bind fun value => (f value).bind g := by
  obtain ⟨notes, result⟩ := x
  cases result with
  | error error => rfl
  | ok value =>
    simp only [bind]
    cases (f value).result with
    | error error => rfl
    | ok next => simp

theorem ofExcept_bind (x : Except ε α) (f : α → Except ε β) :
    (ofExcept (x.bind f) : Outcome ω ε β) = (ofExcept x).bind fun value => ofExcept (f value) := by
  cases x <;> rfl

theorem ofExcept_eq_ok_iff {x : Except ε α} {notes : List ω} {value : α} :
    ofExcept x = ⟨notes, .ok value⟩ ↔ x = .ok value ∧ notes = [] := by
  rw [ofExcept, Outcome.mk.injEq, and_comm, eq_comm (a := [])]

/-- A bound computation succeeds if both of its parts do, and then the notes of both are kept. -/
theorem bind_eq_ok_iff {x : Outcome ω ε α} {f : α → Outcome ω ε β} {notes : List ω} {value : β} :
    x.bind f = ⟨notes, .ok value⟩ ↔
      ∃ middle first second, x = ⟨first, .ok middle⟩ ∧ f middle = ⟨second, .ok value⟩ ∧
        notes = first ++ second := by
  obtain ⟨before, result⟩ := x
  cases result with
  | error error => simp [bind]
  | ok middle =>
    constructor
    · intro h
      simp only [bind, Outcome.mk.injEq] at h
      exact ⟨middle, before, (f middle).notes, rfl, by rw [← h.2], h.1.symm⟩
    · rintro ⟨_, first, second, h, hf, rfl⟩
      simp only [Outcome.mk.injEq, Except.ok.injEq] at h
      obtain ⟨rfl, rfl⟩ := h
      simp [bind, hf]

/-- A bound computation fails in its first part, or in its second one after the first succeeded. -/
theorem bind_eq_error_iff {x : Outcome ω ε α} {f : α → Outcome ω ε β} {notes : List ω}
    {failure : ε} :
    x.bind f = ⟨notes, .error failure⟩ ↔
      x = ⟨notes, .error failure⟩ ∨
      ∃ middle first second, x = ⟨first, .ok middle⟩ ∧ f middle = ⟨second, .error failure⟩ ∧
        notes = first ++ second := by
  obtain ⟨before, result⟩ := x
  cases result with
  | error error => simp [bind]
  | ok middle =>
    constructor
    · intro h
      simp only [bind, Outcome.mk.injEq] at h
      exact .inr ⟨middle, before, (f middle).notes, rfl, by rw [← h.2], h.1.symm⟩
    · rintro (h | ⟨_, first, second, h, hf, rfl⟩)
      · cases h
      · cases h
        simp [bind, hf]

end Outcome

end MipsImage
