import Mathlib.Data.List.Forall2
import MipsImage.Proofs.WordMeaning

/-!
# The meaning of pseudo-instructions

A pseudo-instruction does what its name says, whatever the registers hold and whichever of them its
operands are: the words for which it stands leave the result in the first operand, or end in a
branch that is taken in the right case. Besides, they change the scratch register at most.
-/
set_option autoImplicit false

namespace MipsImage

/-! ## What the names say -/

/-- What the register operand at this place holds, and zero if there is none. -/
def Registers.operand (R : Registers) (registers : List Register) (place : Nat) : Word :=
  (registers[place]?.map R.read).getD 0

namespace Pseudo

/-- What is put into the first operand, from what the second and the third one hold. -/
def result? : Pseudo → Option (Word → Word → Word)
  | .move => some fun x _ => x
  | .clear => some fun _ _ => 0
  | .neg => some fun x _ => -x
  | .not => some fun x _ => ~~~x
  | .sgt => some fun x y => Word.flag (decide (y.toInt < x.toInt))
  | .sge => some fun x y => Word.flag (decide (y.toInt ≤ x.toInt))
  | .sle => some fun x y => Word.flag (decide (x.toInt ≤ y.toInt))
  | .sgtu => some fun x y => Word.flag (decide (y.toNat < x.toNat))
  | .sgeu => some fun x y => Word.flag (decide (y.toNat ≤ x.toNat))
  | .sleu => some fun x y => Word.flag (decide (x.toNat ≤ y.toNat))
  | .seq => some fun x y => Word.flag (x == y)
  | .sne => some fun x y => Word.flag (x != y)
  | _ => none

/-- When the branch to the last operand is taken, from what the first and the second one hold. -/
def test? : Pseudo → Option (Word → Word → Bool)
  | .b => some fun _ _ => true
  | .beqz => some fun x _ => x == 0
  | .bnez => some fun x _ => x != 0
  | .blt => some fun x y => decide (x.toInt < y.toInt)
  | .bgt => some fun x y => decide (y.toInt < x.toInt)
  | .bge => some fun x y => decide (y.toInt ≤ x.toInt)
  | .ble => some fun x y => decide (x.toInt ≤ y.toInt)
  | .bltu => some fun x y => decide (x.toNat < y.toNat)
  | .bgtu => some fun x y => decide (y.toNat < x.toNat)
  | .bgeu => some fun x y => decide (y.toNat ≤ x.toNat)
  | .bleu => some fun x y => decide (x.toNat ≤ y.toNat)
  | _ => none

end Pseudo

/-- The words for which a text stands once it is expanded and encoded. -/
def Yields (symbols : SymbolTable) (t : Text) (words : List Word) : Prop :=
  ∃ fragments, expandInstruction t = .ok fragments ∧
    List.Forall₂ (fun fragment word => ∃ text half notes,
      fragment = .instruction text half ∧ encode symbols half text = ⟨notes, .ok word⟩)
      fragments words

/-! ## Sequences of instructions -/

/-- These words are the instructions, written out and encoded. -/
def Instruction.Encodes (symbols : SymbolTable) : List Instruction → List Word → Prop :=
  List.Forall₂ fun i word => ∃ notes, encode symbols none i.text = ⟨notes, .ok word⟩

/-- Instructions that are written out and encoded turn registers into others. -/
def Instruction.Computes (symbols : SymbolTable) (instructions : List Instruction)
    (act : Registers → Registers) : Prop :=
  ∃ words, Encodes symbols instructions words ∧ ∀ R, Word.run R words = some (act R)

/-- Instructions that are written out and encoded turn registers into others and then branch. -/
def Instruction.Branches (symbols : SymbolTable) (instructions : List Instruction)
    (act : Registers → Registers) (test : Registers → Bool) (offset : BitVec 16) : Prop :=
  ∃ front last, Encodes symbols instructions (front ++ [last]) ∧
    ∀ R, Word.run R front = some (act R) ∧
      last.operation? (act R) = some (.branch (test R) offset)

namespace Instruction

variable {symbols : SymbolTable} {i j : Instruction} {rest instructions : List Instruction}
  {d : Register}

theorem Does.congr {act other : Registers → Operation} (does : i.Does symbols act)
    (same : ∀ R, act R = other R) : i.Does symbols other :=
  (funext same : act = other) ▸ does

theorem Computes.nil : Computes symbols [] id := ⟨[], .nil, fun _ => rfl⟩

theorem Computes.cons {value : Registers → Word} {act : Registers → Registers}
    (does : i.Does symbols fun R => .write d (value R)) (computes : Computes symbols rest act) :
    Computes symbols (i :: rest) fun R => act (R.write d (value R)) := by
  obtain ⟨notes, word, encoded, operation⟩ := does
  obtain ⟨words, more, run⟩ := computes
  refine ⟨word :: words, .cons ⟨notes, encoded⟩ more, fun R => ?_⟩
  rw [Word.run, operation]
  exact run _

theorem Computes.single {value : Registers → Word}
    (does : i.Does symbols fun R => .write d (value R)) :
    Computes symbols [i] fun R => R.write d (value R) :=
  .cons does .nil

/-- A second instruction may change what the first one has written. -/
theorem Computes.update {value : Registers → Word} {f : Word → Word}
    (first : i.Does symbols fun R => .write d (value R))
    (second : j.Does symbols fun R => .write d (f (R.read d))) :
    Computes symbols [i, j] fun R => R.write d (f (value R)) := by
  obtain ⟨words, encoded, run⟩ := Computes.cons first (Computes.single second)
  refine ⟨words, encoded, fun R => ?_⟩
  rw [run R]
  exact congrArg some (R.write_write d (value R) f)

theorem Computes.branches {act : Registers → Registers} {test : Registers → Bool}
    {offset : BitVec 16} (computes : Computes symbols instructions act)
    (does : j.Does symbols fun R => .branch (test R) offset) :
    Branches symbols (instructions ++ [j]) act (fun R => test (act R)) offset := by
  obtain ⟨front, encoded, run⟩ := computes
  obtain ⟨notes, last, whole, operation⟩ := does
  exact ⟨front, last, List.rel_append encoded (.cons ⟨notes, whole⟩ .nil),
    fun R => ⟨run R, operation (act R)⟩⟩

end Instruction

/-! ## Comparisons -/

/-- How one of the two instructions that compare is used. -/
structure Comparison where
  signed : Bool
  /-- The operands are given the other way round. -/
  swapped : Bool
  /-- The opposite is meant. -/
  negated : Bool
  deriving DecidableEq, Repr

namespace Comparison

variable (c : Comparison)

def less (x y : Word) : Bool :=
  if c.signed then decide (x.toInt < y.toInt) else decide (x.toNat < y.toNat)

/-- What the instruction finds out. -/
def found (x y : Word) : Bool := if c.swapped then c.less y x else c.less x y

def mnemonic : Mnemonic := if c.signed then .slt else .sltu

def instruction (destination a b : Text) : Instruction :=
  ⟨c.mnemonic.name.toText, if c.swapped then [destination, b, a] else [destination, a, b]⟩

variable {c} {symbols : SymbolTable} {destination a b : Text} {d s t : Register}

theorem does (hd : Text.Names destination d) (ha : Text.Names a s) (hb : Text.Names b t) :
    (c.instruction destination a b).Does symbols fun R =>
      .write d (Word.flag (c.found (R.read s) (R.read t))) := by
  have both (x y : Text) (r u : Register) (hx : Text.Names x r) (hy : Text.Names y u) :
      Instruction.Does symbols ⟨c.mnemonic.name.toText, [destination, x, y]⟩ fun R =>
        .write d (Word.flag (c.less (R.read r) (R.read u))) := by
    obtain ⟨signed, swapped, negated⟩ := c
    cases signed with
    | false => exact Instruction.does_arithmetic (m := .sltu) rfl (fun _ _ => rfl) hd hx hy
    | true => exact Instruction.does_arithmetic (m := .slt) rfl (fun _ _ => rfl) hd hx hy
  unfold instruction found
  cases c.swapped with
  | false => exact both a b s t ha hb
  | true => exact both b a t s hb ha

/-- What is meant. -/
def holds (c : Comparison) (x y : Word) : Bool := if c.negated then !c.found x y else c.found x y

/-- The instructions that put one or zero into a register, as the comparison holds or not. -/
def setting (c : Comparison) (destination a b : Text) : List Instruction :=
  c.instruction destination a b ::
    if c.negated then [⟨Mnemonic.xori.name.toText, [destination, destination, "1".toText]⟩] else []

/-- The instructions that branch if the comparison holds. -/
def branching (c : Comparison) (a b target : Text) : List Instruction :=
  [c.instruction "$1".toText a b] ++
    [⟨(if c.negated then Mnemonic.beq else Mnemonic.bne).name.toText,
      ["$1".toText, "$0".toText, target]⟩]

theorem setting_computes (hd : Text.Names destination d) (ha : Text.Names a s)
    (hb : Text.Names b t) :
    Instruction.Computes symbols (c.setting destination a b) fun R =>
      R.write d (Word.flag (c.holds (R.read s) (R.read t))) := by
  have first := @does c symbols _ _ _ _ _ _ hd ha hb
  unfold setting holds
  cases c.negated with
  | false => exact .single first
  | true =>
    -- the last bit of a flag is flipped
    have flip (b : Bool) : Word.flag (!b) = Word.flag b ^^^ 1 := by cases b <;> decide
    have second : Instruction.Does symbols
        ⟨Mnemonic.xori.name.toText, [destination, destination, "1".toText]⟩
        fun R => .write d (R.read d ^^^ 1) :=
      Instruction.does_immediate (m := .xori) (f := (· ^^^ 1)) rfl (fun _ => rfl) hd hd
        Text.counts_one
    simp only [if_true, flip]
    exact .update (f := (· ^^^ 1)) first second

theorem branching_branches {target : Text} {address : Int} (ha : Text.Names a s)
    (hb : Text.Names b t) (ht : Text.Targets symbols target address) :
    ∃ act : Registers → Registers, (∀ R r, r ≠ Register.scratch → (act R).read r = R.read r) ∧
      Instruction.Branches symbols (c.branching a b target) act
        (fun R => c.holds (R.read s) (R.read t)) (BitVec.ofInt 16 address) := by
  have first := @does c symbols _ _ _ _ _ _ Text.names_scratch ha hb
  refine ⟨fun R => R.write Register.scratch (Word.flag (c.found (R.read s) (R.read t))),
    fun R r h => R.read_write_of_ne _ h, ?_⟩
  unfold branching holds
  cases c.negated with
  | false =>
    have tested (b : Bool) : (Word.flag b != 0) = b := by cases b <;> decide
    have whole := (Instruction.Computes.single first).branches
      (Instruction.does_bne Text.names_scratch Text.names_zero ht)
    simp only [Registers.read_write_scratch, Registers.zero, tested] at whole
    exact whole
  | true =>
    have tested (b : Bool) : (Word.flag b == 0) = !b := by cases b <;> decide
    have whole := (Instruction.Computes.single first).branches
      (Instruction.does_beq Text.names_scratch Text.names_zero ht)
    simp only [Registers.read_write_scratch, Registers.zero, tested] at whole
    exact whole

end Comparison

/-! ## Pseudo-instructions -/

theorem Text.forall₂_names {sources : List Text} {registers : List Register}
    (tokens : ∀ token ∈ sources, IsToken token)
    (h : List.Forall₂ (fun token r => Register.parse token = .ok r) sources registers) :
    List.Forall₂ Names sources registers := by
  induction h with
  | nil => exact .nil
  | cons parsed _ ih =>
    rw [List.forall_mem_cons] at tokens
    exact .cons ⟨tokens.1, parsed⟩ (ih tokens.2)

theorem Text.present_of_names {sources : List Text} {registers : List Register}
    (h : List.Forall₂ Names sources registers) : ∀ token ∈ sources, token ≠ [] := by
  induction h with
  | nil => exact nofun
  | cons names _ ih => exact List.forall_mem_cons.2 ⟨names.present, ih⟩

theorem Text.names_single {sources : List Text} {registers : List Register}
    (h : List.Forall₂ Names sources registers) (length : sources.length = 1) :
    ∃ a s, sources = [a] ∧ registers = [s] ∧ Names a s := by
  obtain ⟨a, rfl⟩ := List.length_eq_one_iff.1 length
  cases h with
  | @cons _ s _ _ ha rest =>
    cases rest
    exact ⟨a, s, rfl, rfl, ha⟩

theorem Text.names_pair {sources : List Text} {registers : List Register}
    (h : List.Forall₂ Names sources registers) (length : sources.length = 2) :
    ∃ a b s t, sources = [a, b] ∧ registers = [s, t] ∧ Names a s ∧ Names b t := by
  obtain ⟨a, b, rfl⟩ := List.length_eq_two.1 length
  cases h with
  | @cons _ s _ _ ha rest =>
    cases rest with
    | @cons _ t _ _ hb rest =>
      cases rest
      exact ⟨a, b, s, t, rfl, rfl, ha, hb⟩

namespace Pseudo

/-- The comparison that a pseudo-instruction makes. -/
def comparison? : Pseudo → Option Comparison
  | .blt => some ⟨true, false, false⟩
  | .sgt | .bgt => some ⟨true, true, false⟩
  | .sge | .bge => some ⟨true, false, true⟩
  | .sle | .ble => some ⟨true, true, true⟩
  | .bltu => some ⟨false, false, false⟩
  | .sgtu | .bgtu => some ⟨false, true, false⟩
  | .sgeu | .bgeu => some ⟨false, false, true⟩
  | .sleu | .bleu => some ⟨false, true, true⟩
  | _ => none

section Comparison
variable {p : Pseudo} {c : Comparison}

theorem arity_of_comparison (h : p.comparison? = some c) : p.arity = 3 := by
  cases p <;> first | rfl | cases h

theorem setting_of_comparison {f : Word → Word → Word} (h : p.comparison? = some c)
    (result : p.result? = some f) (destination a b : Text) :
    p.templates.map (Template.fill [destination, a, b]) = c.setting destination a b := by
  cases p <;> cases result <;> cases h <;> rfl

theorem branching_of_comparison {test : Word → Word → Bool} (h : p.comparison? = some c)
    (tests : p.test? = some test) (a b target : Text) :
    p.templates.map (Template.fill [a, b, target]) = c.branching a b target := by
  cases p <;> cases tests <;> cases h <;> rfl

theorem result_of_comparison {f : Word → Word → Word} (h : p.comparison? = some c)
    (result : p.result? = some f) (x y : Word) : f x y = Word.flag (c.holds x y) := by
  cases p <;> cases result <;> cases h <;>
    simp only [Comparison.holds, Comparison.found, Comparison.less, if_true, if_false,
      Bool.false_eq_true, ← decide_not, Int.not_lt, Nat.not_lt]

theorem test_of_comparison {test : Word → Word → Bool} (h : p.comparison? = some c)
    (tests : p.test? = some test) (x y : Word) : test x y = c.holds x y := by
  cases p <;> cases tests <;> cases h <;>
    simp only [Comparison.holds, Comparison.found, Comparison.less, if_true, if_false,
      Bool.false_eq_true, ← decide_not, Int.not_lt, Nat.not_lt]

end Comparison

/-! ### Results -/

section Results
variable {symbols : SymbolTable} {x a b : Text} {d s t : Register}

theorem move_computes (hx : Text.Names x d) (ha : Text.Names a s) :
    Instruction.Computes symbols [⟨Mnemonic.add.name.toText, [x, "$0".toText, a]⟩]
      fun R => R.write d (R.read s) := by
  refine .single (.congr (Instruction.does_arithmetic (m := .add) (f := (· + ·)) rfl
    (fun _ _ => rfl) hx Text.names_zero ha) fun R => ?_)
  simp [R.zero]

theorem neg_computes (hx : Text.Names x d) (ha : Text.Names a s) :
    Instruction.Computes symbols [⟨Mnemonic.sub.name.toText, [x, "$0".toText, a]⟩]
      fun R => R.write d (-R.read s) := by
  refine .single (.congr (Instruction.does_arithmetic (m := .sub) (f := (· - ·)) rfl
    (fun _ _ => rfl) hx Text.names_zero ha) fun R => ?_)
  simp [R.zero]

theorem not_computes (hx : Text.Names x d) (ha : Text.Names a s) :
    Instruction.Computes symbols [⟨Mnemonic.nor.name.toText, [x, a, "$0".toText]⟩]
      fun R => R.write d (~~~R.read s) := by
  refine .single (.congr (Instruction.does_arithmetic (m := .nor) (f := fun x y => ~~~(x ||| y)) rfl
    (fun _ _ => rfl) hx ha Text.names_zero) fun R => ?_)
  simp [R.zero]

theorem clear_computes (hx : Text.Names x d) :
    Instruction.Computes symbols [⟨Mnemonic.lui.name.toText, [x, "0".toText]⟩]
      fun R => R.write d 0 := by
  have shifted : (BitVec.ofInt 16 0).setWidth 32 <<< 16 = (0 : Word) := by decide
  refine .single (.congr (Instruction.does_lui hx Text.counts_zero) fun _ => ?_)
  rw [shifted]

theorem toNat_xor_pos_iff {x y : Word} : 0 < (x ^^^ y).toNat ↔ x ≠ y := by
  rw [Nat.pos_iff_ne_zero, ne_eq, not_iff_not, ← BitVec.xor_eq_zero_iff]
  constructor
  · intro h
    exact BitVec.eq_of_toNat_eq h
  · intro h
    rw [h]
    rfl

theorem xor_does (hx : Text.Names x d) (ha : Text.Names a s) (hb : Text.Names b t) :
    Instruction.Does symbols ⟨Mnemonic.xor.name.toText, [x, a, b]⟩
      fun R => .write d (R.read s ^^^ R.read t) :=
  Instruction.does_arithmetic (m := .xor) (f := (· ^^^ ·)) rfl (fun _ _ => rfl) hx ha hb

theorem seq_computes (hx : Text.Names x d) (ha : Text.Names a s) (hb : Text.Names b t) :
    Instruction.Computes symbols
      [⟨Mnemonic.xor.name.toText, [x, a, b]⟩, ⟨Mnemonic.sltiu.name.toText, [x, x, "1".toText]⟩]
      fun R => R.write d (Word.flag (R.read s == R.read t)) := by
  have equal (x y : Word) : decide ((x ^^^ y).toNat < 1) = (x == y) := by
    rw [Bool.eq_iff_iff, decide_eq_true_eq, beq_iff_eq, Nat.lt_one_iff, ← Nat.le_zero,
      ← Nat.not_lt, toNat_xor_pos_iff, not_not]
  have second : Instruction.Does symbols ⟨Mnemonic.sltiu.name.toText, [x, x, "1".toText]⟩
      fun R => .write d (Word.flag (decide ((R.read d).toNat < 1))) :=
    Instruction.does_immediate (m := .sltiu) (f := fun z => Word.flag (decide (z.toNat < 1))) rfl
      (fun _ => rfl) hx hx Text.counts_one
  simp only [← equal]
  exact .update (f := fun z => Word.flag (decide (z.toNat < 1))) (xor_does hx ha hb) second

theorem sne_computes (hx : Text.Names x d) (ha : Text.Names a s) (hb : Text.Names b t) :
    Instruction.Computes symbols
      [⟨Mnemonic.xor.name.toText, [x, a, b]⟩, ⟨Mnemonic.sltu.name.toText, [x, "$0".toText, x]⟩]
      fun R => R.write d (Word.flag (R.read s != R.read t)) := by
  have different (x y : Word) : decide (0 < (x ^^^ y).toNat) = (x != y) := by
    rw [Bool.eq_iff_iff, decide_eq_true_eq, bne_iff_ne, toNat_xor_pos_iff]
  have second : Instruction.Does symbols ⟨Mnemonic.sltu.name.toText, [x, "$0".toText, x]⟩
      fun R => .write d (Word.flag (decide (0 < (R.read d).toNat))) := by
    refine .congr (Instruction.does_arithmetic (m := .sltu)
      (f := fun x y => Word.flag (decide (x.toNat < y.toNat))) rfl (fun _ _ => rfl) hx
      Text.names_zero hx) fun R => ?_
    rw [R.zero]
    rfl
  simp only [← different]
  exact .update (f := fun z => Word.flag (decide (0 < z.toNat))) (xor_does hx ha hb) second

/-- The instructions for which a pseudo-instruction stands leave its result in the first operand. -/
theorem computes {p : Pseudo} {f : Word → Word → Word} {sources : List Text}
    {registers : List Register} (result : p.result? = some f)
    (arity : sources.length + 1 = p.arity) (hx : Text.Names x d)
    (hs : List.Forall₂ Text.Names sources registers) :
    Instruction.Computes symbols (p.templates.map (Template.fill (x :: sources)))
      fun R => R.write d (f (R.operand registers 0) (R.operand registers 1)) := by
  -- the comparisons follow one scheme, the others are taken one by one
  cases hc : p.comparison? with
  | some c =>
    rw [arity_of_comparison hc] at arity
    obtain ⟨a, b, s, t, rfl, rfl, ha, hb⟩ := Text.names_pair hs (Nat.succ.inj arity)
    rw [setting_of_comparison hc result]
    simp only [result_of_comparison hc result]
    exact Comparison.setting_computes hx ha hb
  | none =>
    cases p <;> cases result <;> try cases hc
    case none.move.refl.refl =>
      obtain ⟨a, s, rfl, rfl, ha⟩ := Text.names_single hs (Nat.succ.inj arity)
      exact move_computes hx ha
    case none.clear.refl.refl =>
      cases List.length_eq_zero_iff.1 (Nat.succ.inj arity)
      exact clear_computes hx
    case none.neg.refl.refl =>
      obtain ⟨a, s, rfl, rfl, ha⟩ := Text.names_single hs (Nat.succ.inj arity)
      exact neg_computes hx ha
    case none.not.refl.refl =>
      obtain ⟨a, s, rfl, rfl, ha⟩ := Text.names_single hs (Nat.succ.inj arity)
      exact not_computes hx ha
    case none.seq.refl.refl =>
      obtain ⟨a, b, s, t, rfl, rfl, ha, hb⟩ := Text.names_pair hs (Nat.succ.inj arity)
      exact seq_computes hx ha hb
    case none.sne.refl.refl =>
      obtain ⟨a, b, s, t, rfl, rfl, ha, hb⟩ := Text.names_pair hs (Nat.succ.inj arity)
      exact sne_computes hx ha hb

/-- The instructions for which a pseudo-instruction stands branch in the right case. -/
theorem branches {p : Pseudo} {test : Word → Word → Bool} {sources : List Text} {target : Text}
    {registers : List Register} {address : Int} (tests : p.test? = some test)
    (arity : sources.length + 1 = p.arity) (hs : List.Forall₂ Text.Names sources registers)
    (ht : Text.Targets symbols target address) :
    ∃ act : Registers → Registers, (∀ R r, r ≠ Register.scratch → (act R).read r = R.read r) ∧
      Instruction.Branches symbols (p.templates.map (Template.fill (sources ++ [target]))) act
        (fun R => test (R.operand registers 0) (R.operand registers 1))
        (BitVec.ofInt 16 address) := by
  cases hc : p.comparison? with
  | some c =>
    rw [arity_of_comparison hc] at arity
    obtain ⟨a, b, s, t, rfl, rfl, ha, hb⟩ := Text.names_pair hs (Nat.succ.inj arity)
    rw [List.cons_append, List.cons_append, List.nil_append, branching_of_comparison hc tests]
    simp only [test_of_comparison hc tests]
    exact Comparison.branching_branches ha hb ht
  | none =>
    -- a single instruction branches
    refine ⟨id, fun _ _ _ => rfl, ?_⟩
    cases p <;> cases tests <;> try cases hc
    case none.b.refl.refl =>
      cases List.length_eq_zero_iff.1 (Nat.succ.inj arity)
      have whole := Instruction.Computes.nil.branches
        (Instruction.does_beq Text.names_zero Text.names_zero ht)
      simp only [beq_self_eq_true] at whole
      exact whole
    case none.beqz.refl.refl =>
      obtain ⟨a, s, rfl, rfl, ha⟩ := Text.names_single hs (Nat.succ.inj arity)
      have whole := Instruction.Computes.nil.branches (Instruction.does_beq ha Text.names_zero ht)
      simp only [Registers.zero] at whole
      exact whole
    case none.bnez.refl.refl =>
      obtain ⟨a, s, rfl, rfl, ha⟩ := Text.names_single hs (Nat.succ.inj arity)
      have whole := Instruction.Computes.nil.branches (Instruction.does_bne ha Text.names_zero ht)
      simp only [Registers.zero] at whole
      exact whole

end Results

end Pseudo

/-! ## Expansion -/

theorem Pseudo.named?_name (p : Pseudo) : named? p.name.toText = some p := by
  have table : ∀ p ∈ all, named? p.name.toText = some p := by decide +kernel
  exact table p p.mem_all

theorem expandInstruction_of_pseudo {t : Text} {p : Pseudo} {operands : List Text}
    (written : Instruction.ofText t = ⟨p.name.toText, operands⟩)
    (arity : operands.length = p.arity) (full : ∀ token ∈ operands, token ≠ []) :
    expandInstruction t =
      .ok ((p.templates.map (Template.fill operands)).map Fragment.ofInstruction) := by
  have li : p.name.toText ≠ "li".toText := by
    have table : ∀ p ∈ Pseudo.all, p.name.toText ≠ "li".toText := by decide +kernel
    exact table p p.mem_all
  have la : p.name.toText ≠ Mnemonic.la.name.toText := by
    have table : ∀ p ∈ Pseudo.all, p.name.toText ≠ Mnemonic.la.name.toText := by decide +kernel
    exact table p p.mem_all
  have fills : Instruction.fillsPlaces p.arity operands = true := by
    rw [Instruction.fillsPlaces, Bool.and_eq_true, decide_eq_true_eq, List.all_eq_true]
    exact ⟨arity, fun token member => decide_eq_true (full token member)⟩
  have expanded : expandInstruction.template t ⟨p.name.toText, operands⟩ =
      .ok ((p.templates.map (Template.fill operands)).map Fragment.ofInstruction) := by
    simp only [expandInstruction.template, p.named?_name, Option.bind_some, Pseudo.expand?, fills,
      if_true]
  simp only [expandInstruction, written]
  split
  · rw [if_neg li, if_neg la]
    exact expanded
  · exact expanded

theorem expandInstruction_loadImmediate {t destination source : Text} {value : Int}
    (written : Instruction.ofText t = ⟨"li".toText, [destination, source]⟩)
    (read : readInteger source = .ok value) :
    expandInstruction t =
      .ok ((loadImmediate destination value).map Fragment.ofInstruction) := by
  simp only [expandInstruction, written, if_true, read]
  rfl

theorem expandInstruction_loadAddress {t destination target : Text}
    (written : Instruction.ofText t = loadAddress destination target) :
    expandInstruction t =
      .ok [.instruction (loadAddress destination target).text (some .upper),
        .instruction (loadAddress destination target).text (some .lower)] := by
  have other : Mnemonic.la.name.toText ≠ "li".toText := by decide
  simp only [expandInstruction, written, loadAddress, if_neg other, if_true]

theorem Yields.of_encodes {symbols : SymbolTable} {t : Text} {instructions : List Instruction}
    {words : List Word}
    (expanded : expandInstruction t = .ok (instructions.map Fragment.ofInstruction))
    (encodes : Instruction.Encodes symbols instructions words) : Yields symbols t words := by
  refine ⟨_, expanded, List.forall₂_map_left_iff.2 (encodes.imp ?_)⟩
  rintro i word ⟨notes, encoded⟩
  exact ⟨i.text, none, notes, rfl, encoded⟩

/-! ## Loading numbers -/

section Loading
variable {symbols : SymbolTable} {t destination : Text} {d : Register}

theorem loadImmediate_computes {value : Int} (hd : Text.Names destination d) :
    Instruction.Computes symbols (loadImmediate destination value) fun R =>
      (R.write Register.scratch
        ((BitVec.ofInt 16 (value % 2 ^ 32 / 2 ^ 16)).setWidth 32 <<< 16)).write d
        (BitVec.ofInt 32 value) := by
  have upper := Text.counts_decimalText (n := Bits.high 16 (Bits.low 32 value))
    (Nat.div_lt_of_lt_mul (Bits.low_lt 32 value))
  have lower := Text.counts_decimalText (n := Bits.low 16 (Bits.low 32 value)) (Bits.low_lt 16 _)
  rw [Bits.natCast_upper] at upper
  rw [Bits.natCast_lower] at lower
  have second := @Instruction.does_immediate symbols .ori _ _ _ _ _ _ rfl _
    (· ||| (BitVec.ofInt 16 (value % 2 ^ 16)).setWidth 32) (fun _ => rfl) hd Text.names_at lower
  have whole := Instruction.Computes.cons (Instruction.does_lui Text.names_at upper)
    (Instruction.Computes.single second)
  simp only [Registers.read_write_scratch, Word.upper_or_lower] at whole
  exact whole

theorem loadAddress_yields {target : Text} {address : Int}
    (written : Instruction.ofText t = loadAddress destination target)
    (hd : Text.Names destination d) (ht : Text.Targets symbols target address) :
    ∃ words, Yields symbols t words ∧ ∀ R, Word.run R words =
      some ((R.write Register.scratch
        ((BitVec.ofInt 16 (address % 2 ^ 32 / 2 ^ 16)).setWidth 32 <<< 16)).write d
        (BitVec.ofInt 32 address)) := by
  obtain ⟨upper, encodedUpper, first⟩ := encode_loadAddress hd ht .upper
  obtain ⟨lower, encodedLower, second⟩ := encode_loadAddress hd ht .lower
  refine ⟨[upper, lower], ⟨_, expandInstruction_loadAddress written,
    .cons ⟨_, _, _, rfl, encodedUpper⟩ (.cons ⟨_, _, _, rfl, encodedLower⟩ .nil)⟩, fun R => ?_⟩
  simp only [Word.run, first.operation?_upper, second.operation?_lower]
  rw [Registers.read_write_scratch, Word.upper_or_lower]

end Loading

/-- Whatever registers the operands name and whatever these hold, a pseudo-instruction with its
operands in place has the effect that its name says. -/
theorem pseudo_meaning (symbols : SymbolTable) (t : Text) :
    (∀ p f destination sources d registers, Pseudo.result? p = some f →
      Instruction.ofText t = ⟨p.name.toText, destination :: sources⟩ →
      sources.length + 1 = p.arity → Register.parse destination = .ok d →
      List.Forall₂ (fun token r => Register.parse token = .ok r) sources registers →
      ∃ words, Yields symbols t words ∧ ∀ R, Word.run R words =
        some (R.write d (f (R.operand registers 0) (R.operand registers 1)))) ∧
    (∀ p test sources target registers address, Pseudo.test? p = some test →
      Instruction.ofText t = ⟨p.name.toText, sources ++ [target]⟩ →
      sources.length + 1 = p.arity →
      List.Forall₂ (fun token r => Register.parse token = .ok r) sources registers →
      target ≠ [] → symbols.resolveTarget target = .ok address →
      ∃ front last, Yields symbols t (front ++ [last]) ∧ ∀ R, ∃ S,
        Word.run R front = some S ∧ (∀ r, r ≠ Register.scratch → S.read r = R.read r) ∧
        last.operation? S = some (.branch (test (R.operand registers 0) (R.operand registers 1))
          (BitVec.ofInt 16 address))) ∧
    (∀ destination source d value, Instruction.ofText t = ⟨"li".toText, [destination, source]⟩ →
      Register.parse destination = .ok d → readInteger source = .ok value →
      ∃ words scratch, Yields symbols t words ∧ ∀ R, Word.run R words =
        some ((R.write Register.scratch scratch).write d (BitVec.ofInt 32 value))) ∧
    ∀ destination target d address,
      Instruction.ofText t = ⟨"la".toText, [destination, target]⟩ →
      Register.parse destination = .ok d → target ≠ [] →
      symbols.resolveTarget target = .ok address →
      ∃ words scratch, Yields symbols t words ∧ ∀ R, Word.run R words =
        some ((R.write Register.scratch scratch).write d (BitVec.ofInt 32 address)) := by
  have tokens := Instruction.isToken_operands t
  refine ⟨?_, ?_, ?_, ?_⟩
  · intro p f destination sources d registers result written arity parsed hs
    rw [written, List.forall_mem_cons] at tokens
    have hd : Text.Names destination d := ⟨tokens.1, parsed⟩
    have named := Text.forall₂_names tokens.2 hs
    have full : ∀ token ∈ destination :: sources, token ≠ [] :=
      List.forall_mem_cons.2 ⟨hd.present, Text.present_of_names named⟩
    obtain ⟨words, encodes, run⟩ := Pseudo.computes result arity hd named
    exact ⟨words, .of_encodes (expandInstruction_of_pseudo written arity full) encodes, run⟩
  · intro p test sources target registers address tests written arity hs present resolved
    rw [written, List.forall_mem_append, List.forall_mem_singleton] at tokens
    have ht : Text.Targets symbols target address := ⟨tokens.2, present, resolved⟩
    have named := Text.forall₂_names tokens.1 hs
    have full : ∀ token ∈ sources ++ [target], token ≠ [] :=
      List.forall_mem_append.2
        ⟨Text.present_of_names named, List.forall_mem_singleton.2 present⟩
    have length : (sources ++ [target]).length = p.arity := by
      rw [List.length_append, List.length_singleton, arity]
    obtain ⟨act, kept, front, last, encodes, run⟩ := Pseudo.branches tests arity named ht
    exact ⟨front, last, .of_encodes (expandInstruction_of_pseudo written length full) encodes,
      fun R => ⟨act R, (run R).1, kept R, (run R).2⟩⟩
  · intro destination source d value written parsed read
    rw [written, List.forall_mem_cons] at tokens
    obtain ⟨words, encodes, run⟩ := loadImmediate_computes ⟨tokens.1, parsed⟩
    exact ⟨words, _, .of_encodes (expandInstruction_loadImmediate written read) encodes, run⟩
  · intro destination target d address written parsed present resolved
    rw [written, List.forall_mem_cons, List.forall_mem_singleton] at tokens
    obtain ⟨words, yields, run⟩ :=
      loadAddress_yields written ⟨tokens.1, parsed⟩ ⟨tokens.2, present, resolved⟩
    exact ⟨words, _, yields, run⟩

/-- Destinations that are operands as well, the scratch register among them. -/
theorem pseudo_meaning_aliased :
    let symbols : SymbolTable := [("loop".toText, 8)]
    (∃ words, Yields symbols "sge $t0, $t1, $t0".toText words ∧ ∀ R, Word.run R words =
      some (R.write 8 (Word.flag (decide ((R.read 8).toInt ≤ (R.read 9).toInt))))) ∧
    (∃ front last, Yields symbols "bltu $1, $t1, loop".toText (front ++ [last]) ∧ ∀ R, ∃ S,
      Word.run R front = some S ∧ (∀ r, r ≠ Register.scratch → S.read r = R.read r) ∧
      last.operation? S = some (.branch (decide ((R.read 1).toNat < (R.read 9).toNat)) 8)) ∧
    (∃ words scratch, Yields symbols "li $at, -1".toText words ∧ ∀ R, Word.run R words =
      some ((R.write Register.scratch scratch).write 1 0xffffffff)) ∧
    ∃ words scratch, Yields symbols "la $v0, loop".toText words ∧ ∀ R, Word.run R words =
      some ((R.write Register.scratch scratch).write 2 8) := by
  intro symbols
  refine ⟨?_, ?_, ?_, ?_⟩
  · exact (pseudo_meaning symbols _).1 .sge _ "$t0".toText ["$t1".toText, "$t0".toText] 8 [9, 8] rfl
      (by rfl) rfl (by rfl) (.cons (by rfl) (.cons (by rfl) .nil))
  · exact (pseudo_meaning symbols _).2.1 .bltu _ ["$1".toText, "$t1".toText] "loop".toText [1, 9] 8
      rfl (by rfl) rfl (.cons (by rfl) (.cons (by rfl) .nil)) (by decide) (by rfl)
  · exact (pseudo_meaning symbols "li $at, -1".toText).2.2.1 "$at".toText "-1".toText 1 (-1)
      (by rfl) (by rfl) (by rfl)
  · exact (pseudo_meaning symbols _).2.2.2 "$v0".toText "loop".toText 2 8 (by rfl) (by rfl)
      (by decide) (by rfl)

end MipsImage
