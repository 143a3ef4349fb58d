import Mathlib.Algebra.Order.Ring.Int
import MipsImage.Encoding

/-!
# Words and their parts

A word is divided into parts in one of four ways, by the width of its immediate: the wider it is,
the more of the other parts give way to it. Fields that are within the width of their parts, and
zero where a part gives way, are packed without touching each other, so every part of the word can
be read back and no bit is set that no field asks for.
-/
set_option autoImplicit false

namespace MipsImage

/-- What the bits of a word are for. -/
inductive Part where
  | opcode
  | rs
  | rt
  | rd
  | shamt
  | funct
  | imm
  deriving DecidableEq, Repr

namespace Part

/-- The lowest bit. -/
def position : Part → Nat
  | opcode => 26
  | rs => 21
  | rt => 16
  | rd => 11
  | shamt => 6
  | funct => 0
  | imm => 0

/-- How many bits it has in a word whose immediate has `bits` of them. -/
def width (bits : Nat) : Part → Nat
  | opcode => 6
  | rs => 5
  | rt => 5
  | rd => 5
  | shamt => 5
  | funct => 6
  | imm => bits

/-- It does not give way to an immediate of so many bits. -/
def LiveIn (bits : Nat) : Part → Prop
  | opcode => True
  | rs => bits ≤ 21
  | rt => bits ≤ 16
  | rd => bits = 0
  | shamt => bits = 0
  | funct => bits = 0
  | imm => 0 < bits

instance (bits : Nat) (part : Part) : Decidable (part.LiveIn bits) :=
  match part with
  | opcode => instDecidableTrue
  | rs => inferInstanceAs (Decidable (bits ≤ 21))
  | rt => inferInstanceAs (Decidable (bits ≤ 16))
  | rd | shamt | funct => inferInstanceAs (Decidable (bits = 0))
  | imm => inferInstanceAs (Decidable (0 < bits))

/-- The bit with this number is one of its bits. -/
def Covers (bits : Nat) (part : Part) (i : Nat) : Prop :=
  part.position ≤ i ∧ i < part.position + part.width bits

/-- No bit belongs to two parts. -/
theorem eq_of_covers {bits i : Nat} (narrow : bits ≤ 26) {part other : Part}
    (live : part.LiveIn bits) (live' : other.LiveIn bits) (h : part.Covers bits i)
    (h' : other.Covers bits i) : part = other := by
  cases part <;> cases other <;>
    simp only [LiveIn, Covers, position, width] at live live' h h' <;> first | rfl | omega

theorem end_le {bits : Nat} (narrow : bits ≤ 26) (part : Part) :
    part.position + part.width bits ≤ 32 := by
  cases part <;> simp only [position, width] <;> omega

theorem exists_iff {p : Part → Prop} :
    (∃ part, p part) ↔
      p opcode ∨ p rs ∨ p rt ∨ p rd ∨ p shamt ∨ p funct ∨ p imm := by
  constructor
  · rintro ⟨part, h⟩
    cases part <;> simp only [h, true_or, or_true]
  · rintro (h | h | h | h | h | h | h) <;> exact ⟨_, h⟩

theorem forall_iff {p : Part → Prop} :
    (∀ part, p part) ↔
      p opcode ∧ p rs ∧ p rt ∧ p rd ∧ p shamt ∧ p funct ∧ p imm := by
  constructor
  · intro h
    exact ⟨h opcode, h rs, h rt, h rd, h shamt, h funct, h imm⟩
  · rintro ⟨h₁, h₂, h₃, h₄, h₅, h₆, h₇⟩ part
    cases part <;> assumption

instance (p : Part → Prop) [DecidablePred p] : Decidable (∀ part, p part) :=
  decidable_of_iff _ forall_iff.symm

end Part

/-- A part of a word holds the low bits of a value. -/
def Part.Holds (bits : Nat) (part : Part) (word : Word) (value : Int) : Prop :=
  word.extractLsb' part.position (part.width bits) = BitVec.ofInt (part.width bits) value

namespace Fields

def get (f : Fields) : Part → Int
  | .opcode => f.opcode
  | .rs => f.rs
  | .rt => f.rt
  | .rd => f.rd
  | .shamt => f.shamt
  | .funct => f.funct
  | .imm => f.imm

theorem ext_get {f g : Fields} (h : ∀ part, f.get part = g.get part) : f = g := by
  cases f
  cases g
  rw [Fields.mk.injEq]
  exact ⟨h .opcode, h .rs, h .rt, h .rd, h .shamt, h .funct, h .imm⟩

/-- Every field is within the width of its part, and zero if that gives way to the immediate. -/
structure Separate (bits : Nat) (f : Fields) : Prop where
  nonneg : ∀ part, 0 ≤ f.get part
  below : ∀ part, f.get part < Bits.count (part.width bits)
  unused : ∀ part, ¬part.LiveIn bits → f.get part = 0

instance (bits : Nat) (f : Fields) : Decidable (f.Separate bits) :=
  decidable_of_iff
    ((∀ part, 0 ≤ f.get part) ∧ (∀ part, f.get part < Bits.count (part.width bits)) ∧
      ∀ part : Part, ¬part.LiveIn bits → f.get part = 0)
    ⟨fun h => ⟨h.1, h.2.1, h.2.2⟩, fun h => ⟨h.nonneg, h.below, h.unused⟩⟩

theorem getLsbD_ofInt {value : Int} (nonneg : 0 ≤ value) (i : Nat) :
    (BitVec.ofInt 32 value).getLsbD i = (decide (i < 32) && value.toNat.testBit i) := by
  obtain ⟨n, rfl⟩ := Int.eq_ofNat_of_zero_le nonneg
  rw [BitVec.ofInt_natCast, BitVec.getLsbD_ofNat, Int.toNat_natCast]

theorem Separate.covers {bits i : Nat} {f : Fields} (separate : f.Separate bits) (part : Part)
    (h : part.position ≤ i) (bit : (f.get part).toNat.testBit (i - part.position) = true) :
    part.LiveIn bits ∧ part.Covers bits i := by
  have nonneg := separate.nonneg part
  have below := separate.below part
  constructor
  · by_contra dead
    rw [separate.unused part dead] at bit
    simp at bit
  · refine ⟨h, ?_⟩
    by_contra outside
    have small : (f.get part).toNat < 2 ^ (i - part.position) := by
      have wider : 2 ^ part.width bits ≤ 2 ^ (i - part.position) :=
        Nat.pow_le_pow_right (by decide) (by omega)
      simp only [Bits.count, Nat.pow_eq] at below
      omega
    rw [Nat.testBit_lt_two_pow small] at bit
    cases bit

/-- A bit of a packed word is set exactly if it is set in one of the fields. -/
theorem Separate.getLsbD_pack {bits i : Nat} {f : Fields} (separate : f.Separate bits)
    (h : i < 32) :
    (f.pack bits).getLsbD i = true ↔
      ∃ part : Part, part.position ≤ i ∧ (f.get part).toNat.testBit (i - part.position) = true := by
  have field (part : Part) : (BitVec.ofInt 32 (f.get part) <<< part.position).getLsbD i = true ↔
      part.position ≤ i ∧ (f.get part).toNat.testBit (i - part.position) = true := by
    rw [BitVec.getLsbD_shiftLeft, getLsbD_ofInt (separate.nonneg part)]
    have near : i - part.position < 32 := by omega
    simp [h, near]
  have imm : (BitVec.ofInt 32 (f.get .imm) &&&
        BitVec.ofNat 32 (Bits.count bits - 1)).getLsbD i = true ↔
      Part.imm.position ≤ i ∧ (f.get .imm).toNat.testBit (i - Part.imm.position) = true := by
    rw [BitVec.getLsbD_and, getLsbD_ofInt (separate.nonneg .imm), BitVec.getLsbD_ofNat, Bits.count,
      Nat.pow_eq, Nat.testBit_two_pow_sub_one]
    have inside : (f.get .imm).toNat.testBit i = true → i < bits := fun bit =>
      (Nat.zero_add bits) ▸ (separate.covers .imm (Nat.zero_le i) bit).2.2
    simp only [h, decide_true, Bool.true_and, Bool.and_eq_true, decide_eq_true_eq]
    exact ⟨fun both => ⟨Nat.zero_le i, both.1⟩, fun both => ⟨both.2, inside both.2⟩⟩
  rw [Part.exists_iff, ← field, ← field, ← field, ← field, ← field, ← field, ← imm]
  simp only [pack, get, Part.position, BitVec.getLsbD_or, Bool.or_eq_true, or_assoc]

theorem ofInt_low (bits : Nat) (value : Int) :
    BitVec.ofInt bits (Bits.low bits value : Int) = BitVec.ofInt bits value := by
  apply BitVec.eq_of_toNat_eq
  have cast : ((Bits.low bits value : Nat) : Int) = value % (2 ^ bits : Nat) :=
    Int.toNat_of_nonneg (Int.emod_nonneg _
      (Int.natCast_ne_zero.2 (Nat.ne_of_gt (Bits.count_pos bits))))
  rw [BitVec.toNat_ofInt, BitVec.toNat_ofInt, cast, Int.emod_emod]

/-- A part that does not give way holds its field. -/
theorem Separate.holds {bits : Nat} {f : Fields} (separate : f.Separate bits) (narrow : bits ≤ 26)
    {part : Part} (live : part.LiveIn bits) : part.Holds bits (f.pack bits) (f.get part) := by
  apply BitVec.eq_of_getLsbD_eq
  intro j hj
  have inside : part.position + j < 32 := by
    have := part.end_le narrow
    omega
  have own : (BitVec.ofInt (part.width bits) (f.get part)).getLsbD j =
      (f.get part).toNat.testBit j := by
    obtain ⟨n, hn⟩ := Int.eq_ofNat_of_zero_le (separate.nonneg part)
    rw [hn, BitVec.ofInt_natCast, BitVec.getLsbD_ofNat, Int.toNat_natCast]
    simp [hj]
  rw [BitVec.getLsbD_extractLsb', own, Bool.eq_iff_iff]
  simp only [hj, decide_true, Bool.true_and, separate.getLsbD_pack inside]
  constructor
  · rintro ⟨other, hposition, bit⟩
    obtain ⟨live', covers⟩ := separate.covers _ hposition bit
    have same : part = other :=
      Part.eq_of_covers narrow live live' ⟨Nat.le_add_right _ _, by omega⟩ covers
    subst same
    rwa [Nat.add_sub_cancel_left] at bit
  · intro bit
    exact ⟨part, Nat.le_add_right _ _, by rwa [Nat.add_sub_cancel_left]⟩

/-- A bit is clear if all parts to which it could belong are zero. -/
theorem Separate.getLsbD_pack_eq_false {bits i : Nat} {f : Fields} (separate : f.Separate bits)
    (h : ∀ part : Part, part.LiveIn bits → part.Covers bits i → f.get part = 0) :
    (f.pack bits).getLsbD i = false := by
  by_cases inside : i < 32
  · rw [Bool.eq_false_iff]
    intro set
    obtain ⟨part, hposition, bit⟩ := (separate.getLsbD_pack inside).1 set
    obtain ⟨live, covers⟩ := separate.covers _ hposition bit
    rw [h part live covers] at bit
    simp at bit
  · exact BitVec.getLsbD_of_ge _ _ (by omega)

/-- A field can be read off the word into which it was packed. -/
theorem Separate.get_eq {bits : Nat} {f : Fields} (separate : f.Separate bits)
    (narrow : bits ≤ 26) (part : Part) (live : part.LiveIn bits) :
    f.get part = ((f.pack bits).toNat / 2 ^ part.position % 2 ^ part.width bits : Nat) := by
  obtain ⟨n, hn⟩ := Int.eq_ofNat_of_zero_le (separate.nonneg part)
  have below := separate.below part
  have read := congrArg BitVec.toNat (separate.holds narrow live)
  rw [hn, Int.ofNat_lt, Bits.count, Nat.pow_eq] at below
  rw [BitVec.extractLsb'_toNat, hn, BitVec.ofInt_natCast, BitVec.toNat_ofNat,
    Nat.mod_eq_of_lt below, Nat.shiftRight_eq_div_pow] at read
  rw [hn, read]

end Fields

end MipsImage
