import Mathlib.Data.List.Forall2
import MipsImage.Proofs.InstructionExpansion
import MipsImage.Proofs.LabelNames
import MipsImage.Proofs.LineBlocks
import MipsImage.Segments

/-!
# Operands that stand for each other

Sources may differ in how their operands are written. As long as each operand is read as the one in
its place, every instruction is expanded to the same instructions with such operands, and lines
become blocks of the same sizes. What can be read from one source can then be read from the other,
which is said of outcomes as a refinement that goes through every step.
-/
set_option autoImplicit false

namespace MipsImage

/-! ## Refinement of outcomes -/

namespace Outcome

variable {ω ω₂ ε ε₂ α α₂ β β₂ : Type} {S : ω → ω₂ → Prop} {V : α → α₂ → Prop}
  {W : β → β₂ → Prop}

/-- The first outcome may fail where the second does not, but wherever it gives a value, the second
gives a related one after related notes. -/
def Refines (S : ω → ω₂ → Prop) (V : α → α₂ → Prop) (x : Outcome ω ε α)
    (y : Outcome ω₂ ε₂ α₂) : Prop :=
  ∀ notes value, x = ⟨notes, .ok value⟩ →
    ∃ later other, y = ⟨later, .ok other⟩ ∧ List.Forall₂ S notes later ∧ V value other

theorem refines_ok {value : α} {other : α₂} (related : V value other) :
    Refines S V (ok value : Outcome ω ε α) (ok other : Outcome ω₂ ε₂ α₂) := by
  rintro notes _ ⟨⟩
  exact ⟨[], other, rfl, .nil, related⟩

theorem refines_fail (error : ε) (y : Outcome ω₂ ε₂ α₂) :
    Refines S V (fail error : Outcome ω ε α) y := by
  rintro notes value ⟨⟩

theorem refines_noting {n : ω} {m : ω₂} {value : α} {other : α₂} (noted : S n m)
    (related : V value other) :
    Refines S V (noting n value : Outcome ω ε α) (noting m other : Outcome ω₂ ε₂ α₂) := by
  rintro notes _ ⟨⟩
  exact ⟨[m], other, rfl, .cons noted .nil, related⟩

theorem refines_ofExcept {x : Except ε α} {y : Except ε₂ α}
    (same : ∀ value, x = .ok value → y = .ok value) :
    Refines S Eq (ofExcept x) (ofExcept y) := by
  intro notes value h
  obtain ⟨read, rfl⟩ := ofExcept_eq_ok_iff.1 h
  exact ⟨[], value, ofExcept_eq_ok_iff.2 ⟨same value read, rfl⟩, .nil, rfl⟩

/-- Refinement goes through every step. -/
theorem Refines.bind {x : Outcome ω ε α} {y : Outcome ω₂ ε₂ α₂} {f : α → Outcome ω ε β}
    {g : α₂ → Outcome ω₂ ε₂ β₂} (first : Refines S V x y)
    (next : ∀ value other, V value other → Refines S W (f value) (g other)) :
    Refines S W (x.bind f) (y.bind g) := by
  intro notes value h
  obtain ⟨middle, front, back, hx, hf, rfl⟩ := bind_eq_ok_iff.1 h
  obtain ⟨front', middle', hy, hfront, related⟩ := first _ _ hx
  obtain ⟨back', value', hg, hback, done⟩ := next _ _ related _ _ hf
  exact ⟨front' ++ back', value', bind_eq_ok_iff.2 ⟨middle', front', back', hy, hg, rfl⟩,
    List.rel_append hfront hback, done⟩

end Outcome

/-! ## Notes -/

/-- Bits that were cut from operands that stand for each other. -/
structure Truncation.Alike (R : Text → Text → Prop) (t new : Truncation) : Prop where
  bits : new.bits = t.bits
  token : R t.token new.token

/-- Warnings in one line. -/
structure Warning.Alike (S : Truncation → Truncation → Prop) (w new : Warning) : Prop where
  line : new.line = w.line
  truncation : S w.truncation new.truncation

theorem Warning.Alike.eq {w new : Warning} (alike : Warning.Alike Eq w new) : w = new :=
  congr (congrArg Warning.mk alike.line.symm) alike.truncation

theorem Warning.forall₂_alike_map {S : Truncation → Truncation → Prop} (line : Int)
    {notes later : List Truncation} (alike : List.Forall₂ S notes later) :
    List.Forall₂ (Warning.Alike S) (notes.map (Warning.mk line)) (later.map (Warning.mk line)) := by
  rw [List.forall₂_map_left_iff, List.forall₂_map_right_iff]
  exact alike.imp fun _ _ same => ⟨rfl, same⟩

theorem Outcome.Refines.atLine {α α₂ : Type} {S : Truncation → Truncation → Prop}
    {V : α → α₂ → Prop} {x : Encoding α} {y : Encoding α₂} (refines : x.Refines S V y)
    (line : Int) : (x.atLine line).Refines (Warning.Alike S) V (y.atLine line) := by
  intro warnings value h
  obtain ⟨notes, hx, rfl⟩ := Outcome.atLine_eq_ok_iff.1 h
  obtain ⟨later, other, hy, noted, related⟩ := refines notes value hx
  exact ⟨_, other, Outcome.atLine_eq_ok_iff.2 ⟨later, hy, rfl⟩,
    Warning.forall₂_alike_map line noted, related⟩

/-! ## Operands -/

theorem exists_mem_of_forall₂ {α β : Type} {R : α → β → Prop} {values : List α}
    {others : List β} (related : List.Forall₂ R values others) {other : β}
    (member : other ∈ others) : ∃ value ∈ values, R value other := by
  induction related with
  | nil => cases member
  | cons first _ ih =>
    rcases List.mem_cons.1 member with rfl | later
    · exact ⟨_, List.mem_cons_self .., first⟩
    · obtain ⟨value, own, same⟩ := ih later
      exact ⟨value, List.mem_cons_of_mem _ own, same⟩

/-- One operand may stand for another wherever no label is looked up: if the first is a register or
a number, the second is the same one. Whatever is no label may stand for itself. -/
structure Interchange (R : Text → Text → Prop) : Prop where
  token : ∀ {t new}, R t new → Text.IsToken t → Text.IsToken new
  empty : ∀ {t new}, R t new → (new = [] ↔ t = [])
  register : ∀ {t new r}, R t new → Register.parse t = .ok r → Register.parse new = .ok r
  integer : ∀ {t new value}, R t new → readInteger t = .ok value → readInteger new = .ok value
  own : ∀ {t}, ¬Label.Proper t → R t t

/-- An instruction in which every operand stands for the one in its place. -/
structure Instruction.Alike (R : Text → Text → Prop) (i new : Instruction) : Prop where
  mnemonic : new.mnemonic = i.mnemonic
  operands : List.Forall₂ R i.operands new.operands

/-- A fragment in whose instruction every operand stands for the one in its place. -/
inductive Fragment.Alike (R : Text → Text → Prop) : Fragment → Fragment → Prop
  | instruction {text new : Text} {half : Option Half}
    (same : Instruction.Alike R (Instruction.ofText text) (Instruction.ofText new)) :
    Alike R (.instruction text half) (.instruction new half)
  | filling {fragment : Fragment} (still : ∀ text half, fragment ≠ .instruction text half) :
    Alike R fragment fragment

theorem Fragment.Alike.refl {R : Text → Text → Prop} (own : ∀ t, R t t) (fragment : Fragment) :
    Fragment.Alike R fragment fragment := by
  cases fragment with
  | instruction text half => exact .instruction ⟨rfl, List.forall₂_same.2 fun t _ => own t⟩
  | data | space | align => exact .filling nofun

theorem not_proper_of_isInteger {token : Text} (h : isInteger token = true) :
    ¬Label.Proper token := by
  intro proper
  rw [isInteger, proper.ofToken?_eq_none] at h
  cases h

theorem not_proper_decimalText (n : Nat) : ¬Label.Proper (Numeral.decimalText n) := by
  obtain ⟨digits, hdigits, -⟩ := Numeral.ofToken?_decimalText n
  apply not_proper_of_isInteger
  rw [isInteger, hdigits]
  rfl

section Expansion

variable {R : Text → Text → Prop} {i new : Instruction}

namespace Interchange

theorem nil (interchange : Interchange R) : R [] [] := interchange.own fun proper => proper.elim

theorem fillsPlaces_eq (interchange : Interchange R) (places : Nat) {operands after : List Text}
    (alike : List.Forall₂ R operands after) :
    Instruction.fillsPlaces places after = Instruction.fillsPlaces places operands := by
  have full : after.all (· ≠ []) = operands.all (· ≠ []) := by
    induction alike with
    | nil => rfl
    | cons first _ ih => simp only [List.all_cons, ih, interchange.empty first, ne_eq]
  rw [Instruction.fillsPlaces, Instruction.fillsPlaces, alike.length_eq, full]

/-- Only operands that were given are exchanged in a template, because what it fixes is no label. -/
theorem fill_alike (interchange : Interchange R) {p : Pseudo} {template : Template}
    (member : template ∈ p.templates) {operands after : List Text}
    (alike : List.Forall₂ R operands after) :
    Instruction.Alike R (template.fill operands) (template.fill after) := by
  have fixed : ∀ token ∈ TemplateOperand.fixedTokens, ¬Label.Proper token.toText := by decide
  have given (place : Nat) : R (operands[place]?.getD []) (after[place]?.getD []) := by
    induction alike generalizing place with
    | nil => exact interchange.nil
    | cons first _ ih =>
      cases place with
      | zero => exact first
      | succ place => exact ih place
  refine ⟨rfl, ?_⟩
  rw [Template.fill, Template.fill, List.forall₂_map_left_iff, List.forall₂_map_right_iff,
    List.forall₂_same]
  intro operand hoperand
  cases operand with
  | given place => exact given place
  | fixed token => exact interchange.own (fixed token (TemplateOperand.fixed_mem member hoperand))

theorem loadImmediate_alike (interchange : Interchange R) {destination new : Text}
    (alike : R destination new) (value : Int) :
    List.Forall₂ (Instruction.Alike R) (loadImmediate destination value)
      (loadImmediate new value) := by
  have scratch : R "$at".toText "$at".toText := interchange.own (by decide)
  have decimal (n : Nat) := interchange.own (not_proper_decimalText n)
  exact .cons ⟨rfl, .cons scratch (.cons (decimal _) .nil)⟩
    (.cons ⟨rfl, .cons alike (.cons scratch (.cons (decimal _) .nil))⟩ .nil)

end Interchange

/-- Instructions that are written and read back are alike as they are. -/
theorem forall₂_alike_ofInstruction {instructions after : List Instruction}
    (alike : List.Forall₂ (Instruction.Alike R) instructions after)
    (old : ∀ i ∈ instructions, Instruction.ofText i.text = i)
    (new : ∀ i ∈ after, Instruction.ofText i.text = i) :
    List.Forall₂ (Fragment.Alike R) (instructions.map Fragment.ofInstruction)
      (after.map Fragment.ofInstruction) := by
  induction alike with
  | nil => exact .nil
  | cons first _ ih =>
    rw [List.forall_mem_cons] at old new
    refine .cons (.instruction ?_) (ih old.2 new.2)
    rwa [old.1, new.1]

theorem Interchange.forall_isToken (interchange : Interchange R) {operands after : List Text}
    (alike : List.Forall₂ R operands after) (tokens : ∀ token ∈ operands, Text.IsToken token) :
    ∀ token ∈ after, Text.IsToken token := by
  intro token member
  obtain ⟨old, own, same⟩ := exists_mem_of_forall₂ alike member
  exact interchange.token same (tokens old own)

theorem Interchange.loadAddress_alike (interchange : Interchange R)
    {destination source destination' source' : Text} (first : R destination destination')
    (second : R source source') (tokens : ∀ token ∈ [destination, source], Text.IsToken token)
    (half : Option Half) :
    Fragment.Alike R (.instruction (loadAddress destination source).text half)
      (.instruction (loadAddress destination' source').text half) := by
  have operands : List.Forall₂ R [destination, source] [destination', source'] :=
    .cons first (.cons second .nil)
  have tokens' := interchange.forall_isToken operands tokens
  simp only [List.forall_mem_cons] at tokens tokens'
  refine .instruction ?_
  rw [ofText_loadAddress tokens.1 tokens.2.1, ofText_loadAddress tokens'.1 tokens'.2.1]
  exact ⟨rfl, operands⟩

/-- What stands for an instruction by a template. -/
theorem template_alike (interchange : Interchange R) {t new : Text} {fragments : List Fragment}
    (alike : Instruction.Alike R (Instruction.ofText t) (Instruction.ofText new))
    (h : expandInstruction.template t (Instruction.ofText t) = .ok fragments) :
    ∃ after, expandInstruction.template new (Instruction.ofText new) = .ok after ∧
      List.Forall₂ (Fragment.Alike R) fragments after := by
  have tokens := Instruction.isToken_operands t
  have tokens' := Instruction.isToken_operands new
  have itself : List.Forall₂ (Fragment.Alike R) [.instruction t none] [.instruction new none] :=
    .cons (.instruction alike) .nil
  unfold expandInstruction.template at h ⊢
  rw [alike.mnemonic]
  cases named : Pseudo.named? (Instruction.ofText t).mnemonic with
  | none =>
    rw [named] at h
    cases h
    exact ⟨_, rfl, itself⟩
  | some p =>
    have places := interchange.fillsPlaces_eq p.arity alike.operands
    rw [named] at h
    by_cases fills : Instruction.fillsPlaces p.arity (Instruction.ofText t).operands = true
    · simp only [Option.bind_some, Pseudo.expand?, places, if_pos fills] at h ⊢
      cases h
      refine ⟨_, rfl, forall₂_alike_ofInstruction ?_ ?_ ?_⟩
      · rw [List.forall₂_map_left_iff, List.forall₂_map_right_iff, List.forall₂_same]
        exact fun template member => interchange.fill_alike member alike.operands
      · exact List.forall_mem_map.2 fun template member => Template.ofText_fill member tokens
      · exact List.forall_mem_map.2 fun template member => Template.ofText_fill member tokens'
    · simp only [Option.bind_some, Pseudo.expand?, places, if_neg fills] at h ⊢
      cases h
      exact ⟨_, rfl, itself⟩

/-- An instruction with other operands that are read alike is expanded to the same instructions with
such operands. -/
theorem expandInstruction_alike (interchange : Interchange R) {t new : Text}
    {fragments : List Fragment}
    (alike : Instruction.Alike R (Instruction.ofText t) (Instruction.ofText new))
    (h : expandInstruction t = .ok fragments) :
    ∃ after, expandInstruction new = .ok after ∧
      List.Forall₂ (Fragment.Alike R) fragments after := by
  have tokens := Instruction.isToken_operands t
  have template := @template_alike R interchange t new fragments alike
  unfold expandInstruction at h ⊢
  obtain ⟨mnemonic, operands⟩ := alike
  generalize Instruction.ofText t = i at h template tokens mnemonic operands
  generalize Instruction.ofText new = j at template mnemonic operands ⊢
  obtain ⟨name, given⟩ := i
  obtain ⟨name', given'⟩ := j
  cases mnemonic
  rcases operands with _ | ⟨hdestination, _ | ⟨hsource, _ | ⟨_, _⟩⟩⟩
  · exact template h
  · exact template h
  · rename_i destination destination' source source'
    dsimp only at h template ⊢
    split at h
    · rename_i immediate
      rw [if_pos immediate]
      cases hvalue : readInteger source with
      | error failure =>
        rw [hvalue] at h
        cases h
      | ok value =>
        rw [hvalue] at h
        cases h
        have own := tokens destination (List.mem_cons_self ..)
        rw [interchange.integer hsource hvalue]
        exact ⟨_, rfl, forall₂_alike_ofInstruction
          (interchange.loadImmediate_alike hdestination value)
          (ofText_loadImmediate own value)
          (ofText_loadImmediate (interchange.token hdestination own) value)⟩
    · rename_i immediate
      rw [if_neg immediate]
      split at h
      · rename_i address
        rw [if_pos address]
        cases h
        have words := interchange.loadAddress_alike hdestination hsource tokens
        exact ⟨_, rfl, .cons (words _) (.cons (words _) .nil)⟩
      · rename_i address
        rw [if_neg address]
        exact template h
  · exact template h

end Expansion

/-! ## Segments -/

/-- Two lines that have the same part in the division into segments. -/
structure SourceLine.SteersAlike (line new : SourceLine) : Prop where
  global : isGlobalDeclaration new.text = isGlobalDeclaration line.text
  data : new.text = ".data".toText ↔ line.text = ".data".toText
  text : new.text = ".text".toText ↔ line.text = ".text".toText

namespace SourceLine

theorem isGlobalDeclaration_iff {t : Text} : isGlobalDeclaration t = true ↔
    ".globl".toText ++ [.char ' '] <+: t ∨ ".global".toText ++ [.char ' '] <+: t := by
  rw [isGlobalDeclaration, Bool.or_eq_true, List.isPrefixOf_iff_prefix, List.isPrefixOf_iff_prefix]
  exact Iff.rfl

theorem not_isGlobalDeclaration_of_head? {t : Text} (point : t.head? ≠ some '.') :
    ¬isGlobalDeclaration t = true := by
  rw [isGlobalDeclaration_iff]
  rintro (⟨rest, rfl⟩ | ⟨rest, rfl⟩)
  · exact point rfl
  · exact point rfl

/-- Whether a text is a directive of segments can be told from what stands before a space in it, and
from whether it begins with a point. -/
theorem steersAlike_of_cases {line new : SourceLine}
    (cases : new.text = line.text ∨
      (∃ front x y, line.text = front ++ .char ' ' :: x ∧ new.text = front ++ .char ' ' :: y) ∨
      line.text.head? ≠ some '.' ∧ new.text.head? ≠ some '.') : line.SteersAlike new := by
  rcases cases with same | ⟨front, x, y, old, other⟩ | ⟨old, other⟩
  · exact ⟨by rw [same], by rw [same], by rw [same]⟩
  · have kept {x y : Text} : isGlobalDeclaration (front ++ .char ' ' :: x) = true →
        isGlobalDeclaration (front ++ .char ' ' :: y) = true := by
      rw [isGlobalDeclaration_iff, isGlobalDeclaration_iff]
      exact Or.imp (Text.prefix_space (by decide)) (Text.prefix_space (by decide))
    have divided {x directive : Text} (whole : .char ' ' ∉ directive) :
        front ++ .char ' ' :: x ≠ directive := by
      rintro rfl
      exact whole (List.mem_append_right _ (List.mem_cons_self ..))
    refine ⟨?_, ?_, ?_⟩
    · rw [old, other, Bool.eq_iff_iff]
      exact ⟨kept, kept⟩
    · rw [old, other]
      exact iff_of_false (divided (by decide)) (divided (by decide))
    · rw [old, other]
      exact iff_of_false (divided (by decide)) (divided (by decide))
  · have pointed {t directive : Text} (point : directive.head? = some '.')
        (none : t.head? ≠ some '.') : t ≠ directive := by
      rintro rfl
      exact none point
    refine ⟨?_, ?_, ?_⟩
    · rw [Bool.eq_iff_iff]
      exact iff_of_false (not_isGlobalDeclaration_of_head? other)
        (not_isGlobalDeclaration_of_head? old)
    · exact iff_of_false (pointed (by decide) other) (pointed (by decide) old)
    · exact iff_of_false (pointed (by decide) other) (pointed (by decide) old)

end SourceLine

namespace Segments

variable {P : SourceLine → SourceLine → Prop} {lines after : List SourceLine}

theorem forall₂_ofLinesFrom (steers : ∀ line new, P line new → line.SteersAlike new)
    (related : List.Forall₂ P lines after) (inData : Bool) :
    List.Forall₂ P (ofLinesFrom inData lines).text (ofLinesFrom inData after).text ∧
      List.Forall₂ P (ofLinesFrom inData lines).data (ofLinesFrom inData after).data := by
  induction related generalizing inData with
  | nil => exact ⟨.nil, .nil⟩
  | cons first _ ih =>
    have same := steers _ _ first
    simp only [ofLinesFrom, same.global, same.data, same.text]
    split
    · exact ih inData
    · split
      · exact ih true
      · split
        · exact ih false
        · have later := ih inData
          cases inData with
          | false => exact ⟨.cons first later.1, later.2⟩
          | true => exact ⟨later.1, .cons first later.2⟩

theorem forall₂_inOrder (steers : ∀ line new, P line new → line.SteersAlike new)
    (related : List.Forall₂ P lines after) :
    List.Forall₂ P (ofLines lines).inOrder (ofLines after).inOrder :=
  have both := forall₂_ofLinesFrom steers related false
  List.rel_append both.1 both.2

end Segments

/-! ## Blocks -/

/-- A fragment that is no instruction of an unknown kind, which could not be encoded. -/
def Fragment.Known (fragment : Fragment) : Prop :=
  ∀ text half, fragment = .instruction text half →
    Mnemonic.named? (Instruction.ofText text).mnemonic ≠ none

theorem Fragment.Alike.endFrom_eq {R : Text → Text → Prop} {fragment new : Fragment}
    (alike : Fragment.Alike R fragment new) (address : Int) :
    new.endFrom address = fragment.endFrom address := by
  cases alike with
  | instruction | filling => rfl

namespace Block

/-- A block of the same line with fragments that are alike, whose labels may have other names. -/
structure Alike (f : Text → Text) (R : Text → Text → Prop) (block new : Block) : Prop where
  line : new.line = block.line
  labels : new.labels = block.labels.map f
  fragment : Fragment.Alike R block.fragment new.fragment

variable {f : Text → Text} {R : Text → Text → Prop}

theorem alike_ofFragments (line : Int) (names : List Text) {fragments after : List Fragment}
    (alike : List.Forall₂ (Fragment.Alike R) fragments after) :
    List.Forall₂ (Alike f R) (ofFragments line names fragments)
      (ofFragments line (names.map f) after) := by
  cases alike with
  | nil => exact .nil
  | cons first rest =>
    refine .cons ⟨rfl, rfl, first⟩ ?_
    rw [List.forall₂_map_left_iff, List.forall₂_map_right_iff]
    exact rest.imp fun _ _ alike => ⟨rfl, rfl, alike⟩

section Blocks
variable {blocks after : List Block}

theorem endOf_eq_of_alike (alike : List.Forall₂ (Alike f R) blocks after) (address : Int) :
    endOf address after = endOf address blocks := by
  induction alike generalizing address with
  | nil => rfl
  | cons first _ ih => rw [endOf_cons, endOf_cons, first.fragment.endFrom_eq, ih]

/-- Labels have the same addresses, under other names if these are changed. -/
theorem placements_eq_of_alike (alike : List.Forall₂ (Alike f R) blocks after) (address : Int) :
    placements address after = (placements address blocks).map (Prod.map f id) := by
  induction alike generalizing address with
  | nil => rfl
  | cons first _ ih =>
    rw [placements, placements, first.fragment.endFrom_eq, ih, first.labels, List.map_append,
      List.map_map, List.map_map]
    rfl

theorem flatMap_labels_of_alike (alike : List.Forall₂ (Alike f R) blocks after) :
    after.flatMap Block.labels = (blocks.flatMap Block.labels).map f := by
  rw [← map_fst_placements 0, ← map_fst_placements 0, placements_eq_of_alike alike,
    List.map_map, List.map_map]
  rfl

end Blocks

/-- Lines whose own blocks are alike become blocks that are alike: each has its place where it had
it, because the sizes do not change. -/
theorem Grouped.alike {P : SourceLine → SourceLine → Prop} {S : Truncation → Truncation → Prop}
    {limit : Option Int} {address : Int} {lines after : List SourceLine}
    {groups : List (List Block)} {warnings : List Warning}
    (number : ∀ line new, P line new → new.number = line.number)
    (expands : ∀ line new names fragments notes, P line new →
      line.Expands limit names fragments notes → (∀ fragment ∈ fragments, fragment.Known) →
      ∃ fragments' notes', new.Expands limit (names.map f) fragments' notes' ∧
        List.Forall₂ (Fragment.Alike R) fragments fragments' ∧ List.Forall₂ S notes notes')
    (grouped : Grouped limit address lines groups warnings)
    (known : ∀ block ∈ groups.flatten, block.fragment.Known)
    (related : List.Forall₂ P lines after) :
    ∃ groups' warnings', Grouped limit address after groups' warnings' ∧
      List.Forall₂ (Alike f R) groups.flatten groups'.flatten ∧
      List.Forall₂ (Warning.Alike S) warnings warnings' := by
  induction grouped generalizing after with
  | nil =>
    cases related
    exact ⟨[], [], .nil, .nil, .nil⟩
  | @cons address line rest names fragments notes groups warnings own fits _ ih =>
    cases related with
    | @cons _ new _ _ first later =>
      rw [List.flatten_cons, List.forall_mem_append] at known
      have recognised : ∀ fragment ∈ fragments, fragment.Known := by
        intro fragment member
        rw [← map_fragment_ofFragments line.number names fragments] at member
        obtain ⟨block, hblock, rfl⟩ := List.mem_map.1 member
        exact known.1 block hblock
      obtain ⟨fragments', notes', hnew, alike, noted⟩ := expands _ _ _ _ _ first own recognised
      obtain ⟨groups', warnings', hmore, blocks, warned⟩ := ih known.2 later
      have here : List.Forall₂ (Alike f R) _ _ := alike_ofFragments line.number names alike
      have same := number _ _ first
      rw [← endOf_eq_of_alike here address, ← same] at fits hmore
      refine ⟨_, _, .cons hnew fits hmore, ?_, ?_⟩
      · rw [List.flatten_cons, List.flatten_cons, same]
        exact List.rel_append here blocks
      · rw [same]
        exact List.rel_append (Warning.forall₂_alike_map line.number noted) warned

end Block

end MipsImage
