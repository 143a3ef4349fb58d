import MipsImage.Proofs.Word

/-!
# Operands

An operand gives numbers for one part of the word or, in the case of a memory operand, for two. It
sets these parts to the low bits of the numbers and leaves all others alone, so the fields of an
instruction are those that its mnemonic fixes with the parts of its operands set.
-/
set_option autoImplicit false

namespace MipsImage

/-- A number that an operand gives for a part of the word. -/
structure Setting where
  part : Part
  value : Int
  token : Text
  deriving DecidableEq, Repr

namespace Setting

/-- The warning that is due if the number is too large for the part. -/
def overflow? (bits : Nat) (s : Setting) : Option Truncation :=
  if Bits.fits (s.part.width bits) s.value then none else some ⟨s.token, s.part.width bits⟩

/-- It is no register number. -/
def IsNumeric (s : Setting) : Prop := s.part = .shamt ∨ s.part = .imm

end Setting

namespace Slot

/-- What an operand in this slot is for. -/
def parts : Slot → List Part
  | rd => [.rd]
  | rs => [.rs]
  | rt => [.rt]
  | shiftAmount => [.shamt]
  | immediate | target => [.imm]
  | memory => [.rs, .imm]

/-- The numbers that an operand in this slot gives. -/
def read (symbols : SymbolTable) (token : Text) : Slot → Except (Failure Fault) (List Setting)
  | rd => (Register.parse token).map fun r => [⟨.rd, r.val, token⟩]
  | rs => (Register.parse token).map fun r => [⟨.rs, r.val, token⟩]
  | rt => (Register.parse token).map fun r => [⟨.rt, r.val, token⟩]
  | shiftAmount => (readInteger token).map fun value => [⟨.shamt, value, token⟩]
  | immediate => (readInteger token).map fun value => [⟨.imm, value, token⟩]
  | target => (symbols.resolveTarget token).map fun value => [⟨.imm, value, token⟩]
  | memory => (symbols.resolveMemory token).map fun (base, offset) =>
      [⟨.rs, base.val, token⟩, ⟨.imm, offset, token⟩]

/-- The numbers that operands in their slots give, up to the first that cannot be read. -/
def readAll (symbols : SymbolTable) : List (Slot × Text) → Except (Failure Fault) (List Setting)
  | [] => .ok []
  | (slot, token) :: rest => do
    let first ← slot.read symbols token
    let more ← readAll symbols rest
    return first ++ more

end Slot

namespace Fields

/-! ## Setting parts -/

def set (f : Fields) (value : Int) : Part → Fields
  | .opcode => { f with opcode := value }
  | .rs => { f with rs := value }
  | .rt => { f with rt := value }
  | .rd => { f with rd := value }
  | .shamt => { f with shamt := value }
  | .funct => { f with funct := value }
  | .imm => { f with imm := value }

@[simp] theorem get_set_self (f : Fields) (value : Int) (part : Part) :
    (f.set value part).get part = value := by
  cases part <;> rfl

theorem get_set_of_ne (f : Fields) (value : Int) {part other : Part} (h : other ≠ part) :
    (f.set value part).get other = f.get other := by
  cases part <;> cases other <;> first | rfl | exact absurd rfl h

/-- The fields with the low bits of a number in its part. -/
def put (bits : Nat) (f : Fields) (s : Setting) : Fields :=
  f.set (Bits.low (s.part.width bits) s.value) s.part

def putAll (bits : Nat) (f : Fields) (settings : List Setting) : Fields :=
  settings.foldl (put bits) f

theorem putAll_append (bits : Nat) (f : Fields) (first more : List Setting) :
    f.putAll bits (first ++ more) = (f.putAll bits first).putAll bits more :=
  List.foldl_append

theorem get_putAll_of_not_mem {bits : Nat} {f : Fields} {settings : List Setting} {part : Part}
    (h : part ∉ settings.map Setting.part) : (f.putAll bits settings).get part = f.get part := by
  induction settings generalizing f with
  | nil => rfl
  | cons s rest ih =>
    rw [List.map_cons, List.mem_cons, not_or] at h
    exact (ih h.2).trans (get_set_of_ne f _ h.1)

theorem get_putAll_of_mem {bits : Nat} {f : Fields} {settings : List Setting} {s : Setting}
    (distinct : (settings.map Setting.part).Nodup) (h : s ∈ settings) :
    (f.putAll bits settings).get s.part = Bits.low (s.part.width bits) s.value := by
  induction settings generalizing f with
  | nil => cases h
  | cons first rest ih =>
    rw [List.map_cons, List.nodup_cons] at distinct
    rcases List.mem_cons.1 h with rfl | later
    · exact (get_putAll_of_not_mem distinct.1).trans (get_set_self f _ _)
    · exact ih distinct.2 later

theorem set_separate {bits : Nat} {f : Fields} {value : Int} (separate : f.Separate bits)
    (part : Part) (live : part.LiveIn bits) (nonneg : 0 ≤ value)
    (below : value < Bits.count (part.width bits)) : (f.set value part).Separate bits := by
  constructor
  · intro other
    by_cases h : other = part
    · rw [h, get_set_self]
      exact nonneg
    · rw [get_set_of_ne f value h]
      exact separate.nonneg other
  · intro other
    by_cases h : other = part
    · rw [h, get_set_self]
      exact below
    · rw [get_set_of_ne f value h]
      exact separate.below other
  · intro other dead
    have h : other ≠ part := fun h => dead (h ▸ live)
    rw [get_set_of_ne f value h]
    exact separate.unused other dead

theorem put_separate {bits : Nat} {f : Fields} {s : Setting} (separate : f.Separate bits)
    (live : s.part.LiveIn bits) : (f.put bits s).Separate bits :=
  set_separate separate s.part live (Int.natCast_nonneg _) (Int.ofNat_lt.2 (Bits.low_lt _ _))

theorem putAll_separate {bits : Nat} {f : Fields} {settings : List Setting}
    (separate : f.Separate bits) (live : ∀ s ∈ settings, s.part.LiveIn bits) :
    (f.putAll bits settings).Separate bits := by
  induction settings generalizing f with
  | nil => exact separate
  | cons s rest ih =>
    exact ih (put_separate separate (live s (List.mem_cons_self ..)))
      fun other h => live other (List.mem_cons_of_mem s h)

end Fields

/-! ## Reading operands -/

theorem Bits.low_eq_self {bits : Nat} {value : Int} (nonneg : 0 ≤ value)
    (below : value < Bits.count bits) : (Bits.low bits value : Int) = value := by
  rw [Bits.low, Int.emod_eq_of_lt nonneg below, Int.toNat_of_nonneg nonneg]

theorem Bits.fits_of_lt {bits : Nat} {value : Int} (nonneg : 0 ≤ value)
    (below : value < Bits.count bits) : Bits.fits bits value = true := by
  have positive := Bits.count_pos (bits - 1)
  simp only [Bits.fits, Bool.and_eq_true, decide_eq_true_eq]
  omega

theorem fit_eq (value : Int) (bits : Nat) (token : Text) :
    fit value bits token =
      ⟨if Bits.fits bits value then [] else [⟨token, bits⟩], .ok (Bits.low bits value : Int)⟩ := by
  rw [fit]
  split <;> rfl

/-- The number of a register is never too large for five bits. -/
theorem Setting.overflow?_register (bits : Nat) (part : Part) (token : Text) (r : Register)
    (five : part.width bits = 5) : Setting.overflow? bits ⟨part, r.val, token⟩ = none := by
  have below : (r.val : Int) < Bits.count 5 := Int.ofNat_lt.2 r.isLt
  simp [Setting.overflow?, five, Bits.fits_of_lt (Int.natCast_nonneg _) below]

theorem Fields.put_register (bits : Nat) (f : Fields) (part : Part) (token : Text) (r : Register)
    (five : part.width bits = 5) : f.put bits ⟨part, r.val, token⟩ = f.set r.val part := by
  have below : (r.val : Int) < Bits.count 5 := Int.ofNat_lt.2 r.isLt
  rw [Fields.put, five, Bits.low_eq_self (Int.natCast_nonneg _) below]

section Placing
variable (format : Format) (symbols : SymbolTable) (fields : Fields) (token : Text)

/-- The fields after numbers have been put in, with a warning for each that is too large. -/
def putNoting (settings : List Setting) : Encoding Fields :=
  ⟨settings.filterMap (Setting.overflow? format.immediateBits),
    .ok (fields.putAll format.immediateBits settings)⟩

theorem putNoting_register (part : Part) (five : part.width format.immediateBits = 5)
    (r : Register) :
    putNoting format fields [⟨part, r.val, token⟩] = Outcome.ok (fields.set r.val part) := by
  simp [putNoting, Fields.putAll, Outcome.ok, Setting.overflow?_register _ part token r five,
    Fields.put_register _ fields part token r five]

theorem putNoting_number (part : Part) (value : Int) :
    putNoting format fields [⟨part, value, token⟩] =
      (fit value (part.width format.immediateBits) token).bind fun low =>
        Outcome.ok (fields.set low part) := by
  rw [fit_eq]
  simp only [putNoting, Setting.overflow?, Fields.putAll, Fields.put, Outcome.bind, Outcome.ok,
    List.filterMap_cons, List.filterMap_nil, List.foldl_cons, List.foldl_nil]
  split <;> simp_all

theorem putNoting_memory (base : Register) (offset : Int) :
    putNoting format fields [⟨.rs, base.val, token⟩, ⟨.imm, offset, token⟩] =
      putNoting format (fields.set base.val .rs) [⟨.imm, offset, token⟩] := by
  simp [putNoting, Fields.putAll, Setting.overflow?_register _ .rs token base rfl,
    Fields.put_register _ fields .rs token base rfl]

theorem ofExcept_map_bind {α β γ : Type} (x : Except (Failure Fault) α) (f : α → β)
    (g : β → Encoding γ) :
    (Outcome.ofExcept (x.map f)).bind g = (Outcome.ofExcept x).bind fun value => g (f value) := by
  cases x <;> rfl

/-- An operand is read, what is too large for its part is noted, and its parts are set. -/
theorem place_eq (slot : Slot) (ordinary : format.family ≠ .loadAddress) :
    place format symbols fields slot token =
      (Outcome.ofExcept (slot.read symbols token)).bind (putNoting format fields) := by
  cases slot with
  | rd =>
    simp only [Slot.read, ofExcept_map_bind, putNoting_register format fields token .rd rfl]
    rfl
  | rs =>
    simp only [Slot.read, ofExcept_map_bind, putNoting_register format fields token .rs rfl]
    rfl
  | rt =>
    simp only [Slot.read, ofExcept_map_bind, putNoting_register format fields token .rt rfl]
    rfl
  | shiftAmount =>
    simp only [Slot.read, ofExcept_map_bind, putNoting_number]
    rfl
  | immediate =>
    simp only [Slot.read, ofExcept_map_bind, putNoting_number]
    rfl
  | target =>
    simp only [Slot.read, ofExcept_map_bind, putNoting_number, place, ordinary, if_false]
    rfl
  | memory =>
    simp only [Slot.read, ofExcept_map_bind, putNoting_memory, putNoting_number]
    rfl

theorem putNoting_append (first more : List Setting) :
    putNoting format fields (first ++ more) =
      (putNoting format fields first).bind fun next => putNoting format next more := by
  simp only [putNoting, Outcome.bind, List.filterMap_append, Fields.putAll_append]

theorem placeAll_cons (slot : Slot) (rest : List (Slot × Text)) :
    placeAll format symbols fields ((slot, token) :: rest) =
      (place format symbols fields slot token).bind fun next =>
        placeAll format symbols next rest := rfl

end Placing

namespace Slot

theorem readAll_cons_eq_ok_iff {symbols : SymbolTable} {slot : Slot} {token : Text}
    {rest : List (Slot × Text)} {settings : List Setting} :
    readAll symbols ((slot, token) :: rest) = .ok settings ↔
      ∃ first more, slot.read symbols token = .ok first ∧ readAll symbols rest = .ok more ∧
        settings = first ++ more := by
  rw [readAll]
  cases slot.read symbols token with
  | error failure => simp [bind, Except.bind]
  | ok first =>
    cases readAll symbols rest with
    | error failure => simp [bind, Except.bind]
    | ok more =>
      simp only [bind, Except.bind, pure, Except.pure, Except.ok.injEq]
      constructor
      · rintro rfl
        exact ⟨first, more, rfl, rfl, rfl⟩
      · rintro ⟨_, _, rfl, rfl, rfl⟩
        rfl

end Slot

/-- All operands are placed exactly if they can all be read. -/
theorem placeAll_eq_ok_iff {format : Format} {symbols : SymbolTable} {fields next : Fields}
    {operands : List (Slot × Text)} {notes : List Truncation}
    (ordinary : format.family ≠ .loadAddress) :
    placeAll format symbols fields operands = ⟨notes, .ok next⟩ ↔
      ∃ settings, Slot.readAll symbols operands = .ok settings ∧
        putNoting format fields settings = ⟨notes, .ok next⟩ := by
  induction operands generalizing fields notes with
  | nil =>
    constructor
    · intro h
      exact ⟨[], rfl, h⟩
    · rintro ⟨settings, hread, h⟩
      cases hread
      exact h
  | cons operand rest ih =>
    obtain ⟨slot, token⟩ := operand
    rw [placeAll_cons, place_eq format symbols fields token slot ordinary, Outcome.bind_assoc]
    constructor
    · intro h
      obtain ⟨first, _, _, hfirst, hrest, rfl⟩ := Outcome.bind_eq_ok_iff.1 h
      obtain ⟨middle, _, _, hput, hmore, rfl⟩ := Outcome.bind_eq_ok_iff.1 hrest
      obtain ⟨more, hread, hnext⟩ := ih.1 hmore
      obtain ⟨hslot, rfl⟩ := Outcome.ofExcept_eq_ok_iff.1 hfirst
      refine ⟨first ++ more, Slot.readAll_cons_eq_ok_iff.2 ⟨first, more, hslot, hread, rfl⟩, ?_⟩
      rw [putNoting_append, hput, List.nil_append]
      exact Outcome.bind_eq_ok_iff.2 ⟨middle, _, _, rfl, hnext, rfl⟩
    · rintro ⟨settings, hread, h⟩
      obtain ⟨first, more, hfirst, hmore, rfl⟩ := Slot.readAll_cons_eq_ok_iff.1 hread
      rw [putNoting_append] at h
      obtain ⟨middle, _, _, hput, hnext, rfl⟩ := Outcome.bind_eq_ok_iff.1 h
      rw [hfirst]
      refine Outcome.bind_eq_ok_iff.2 ⟨first, [], _, rfl, ?_, (List.nil_append _).symm⟩
      exact Outcome.bind_eq_ok_iff.2 ⟨middle, _, _, hput, ih.2 ⟨more, hmore, hnext⟩, rfl⟩

/-! ## What is read -/

namespace Slot

theorem map_eq_ok_iff {ε α β : Type} {x : Except ε α} {f : α → β} {value : β} :
    x.map f = .ok value ↔ ∃ middle, x = .ok middle ∧ f middle = value := by
  cases x <;> simp [Except.map]

theorem map_part_read {symbols : SymbolTable} {slot : Slot} {token : Text}
    {settings : List Setting} (h : slot.read symbols token = .ok settings) :
    settings.map Setting.part = slot.parts := by
  cases slot <;> obtain ⟨_, _, rfl⟩ := map_eq_ok_iff.1 h <;> rfl

theorem overflow?_read {symbols : SymbolTable} {slot : Slot} {token : Text}
    {settings : List Setting} (h : slot.read symbols token = .ok settings) (bits : Nat)
    {s : Setting} (hs : s ∈ settings) : s.IsNumeric ∨ s.overflow? bits = none := by
  cases slot with
  | rd | rs | rt =>
    obtain ⟨r, -, rfl⟩ := map_eq_ok_iff.1 h
    rw [List.mem_singleton.1 hs]
    exact .inr (Setting.overflow?_register bits _ token r rfl)
  | shiftAmount =>
    obtain ⟨value, -, rfl⟩ := map_eq_ok_iff.1 h
    rw [List.mem_singleton.1 hs]
    exact .inl (.inl rfl)
  | immediate | target =>
    obtain ⟨value, -, rfl⟩ := map_eq_ok_iff.1 h
    rw [List.mem_singleton.1 hs]
    exact .inl (.inr rfl)
  | memory =>
    obtain ⟨⟨base, offset⟩, -, rfl⟩ := map_eq_ok_iff.1 h
    rcases List.mem_cons.1 hs with rfl | later
    · exact .inr (Setting.overflow?_register bits _ token base rfl)
    · rw [List.mem_singleton.1 later]
      exact .inl (.inr rfl)

theorem map_part_readAll {symbols : SymbolTable} {operands : List (Slot × Text)}
    {settings : List Setting} (h : readAll symbols operands = .ok settings) :
    settings.map Setting.part = (operands.map Prod.fst).flatMap parts := by
  induction operands generalizing settings with
  | nil => cases h; rfl
  | cons operand rest ih =>
    obtain ⟨first, more, hfirst, hmore, rfl⟩ := readAll_cons_eq_ok_iff.1 h
    rw [List.map_append, map_part_read hfirst, ih hmore, List.map_cons, List.flatMap_cons]

theorem overflow?_readAll {symbols : SymbolTable} {operands : List (Slot × Text)}
    {settings : List Setting} (h : readAll symbols operands = .ok settings) (bits : Nat)
    {s : Setting} (hs : s ∈ settings) : s.IsNumeric ∨ s.overflow? bits = none := by
  induction operands generalizing settings with
  | nil => cases h; cases hs
  | cons operand rest ih =>
    obtain ⟨first, more, hfirst, hmore, rfl⟩ := readAll_cons_eq_ok_iff.1 h
    rcases List.mem_append.1 hs with hs | hs
    · exact overflow?_read hfirst bits hs
    · exact ih hmore hs

end Slot

end MipsImage
