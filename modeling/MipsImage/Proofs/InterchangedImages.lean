import MipsImage.Proofs.EncodedFields
import MipsImage.Proofs.Interchange
import MipsImage.Proofs.PhaseOrder

/-!
# Images of operands that stand for each other

Where operands are read alike, with labels looked up in a table each, the same fields are filled and
the same words are packed. Only the warnings tell the sources apart, because they quote the operand
whose number was cut.
-/
set_option autoImplicit false

namespace MipsImage

variable {R : Text → Text → Prop} {symbols after : SymbolTable}

/-! ## Words -/

/-- Operands that stand for each other are read alike also where labels are looked up, the first in
one table and the second in the other. -/
structure SymbolTable.Agrees (R : Text → Text → Prop) (symbols after : SymbolTable) : Prop where
  target : ∀ {t new address}, R t new → symbols.resolveTarget t = .ok address →
    after.resolveTarget new = .ok address
  memory : ∀ {t new operand}, R t new → symbols.resolveMemory t = .ok operand →
    after.resolveMemory new = .ok operand

theorem fit_refines (value : Int) (bits : Nat) {t new : Text} (alike : R t new) :
    (fit value bits t).Refines (Truncation.Alike R) Eq (fit value bits new) := by
  unfold fit
  split
  · exact Outcome.refines_ok rfl
  · exact Outcome.refines_noting ⟨rfl, alike⟩ rfl

/-- What is read alike is put alike. -/
theorem put_refines {α β : Type} {x y : Except (Failure Fault) α}
    (same : ∀ value, x = .ok value → y = .ok value) (put : α → β) :
    ((Outcome.ofExcept x : Encoding α).bind fun value => Outcome.ok (put value)).Refines
      (Truncation.Alike R) Eq
      ((Outcome.ofExcept y : Encoding α).bind fun value => Outcome.ok (put value)) :=
  (Outcome.refines_ofExcept same).bind fun _ _ read =>
    Outcome.refines_ok (congrArg put read)

/-- What is read alike is cut alike, with a warning that quotes the other operand. -/
theorem fit_put_refines {α β : Type} {x y : Except (Failure Fault) α} {t new : Text}
    (alike : R t new) (same : ∀ value, x = .ok value → y = .ok value) (number : α → Int)
    (bits : Nat) (put : α → Int → β) :
    ((Outcome.ofExcept x : Encoding α).bind fun value =>
        (fit (number value) bits t).bind fun low => Outcome.ok (put value low)).Refines
      (Truncation.Alike R) Eq
      ((Outcome.ofExcept y : Encoding α).bind fun value =>
        (fit (number value) bits new).bind fun low => Outcome.ok (put value low)) := by
  refine (Outcome.refines_ofExcept same).bind ?_
  rintro value _ rfl
  refine (fit_refines (number value) bits alike).bind ?_
  rintro low _ rfl
  exact Outcome.refines_ok rfl

theorem place_refines (interchange : Interchange R) (agrees : symbols.Agrees R after)
    (format : Format) (fields : Fields) (slot : Slot) {t new : Text} (alike : R t new) :
    (place format symbols fields slot t).Refines (Truncation.Alike R) Eq
      (place format after fields slot new) := by
  cases slot with
  | rd | rs | rt => exact put_refines (fun _ => interchange.register alike) _
  | shiftAmount | immediate =>
    exact fit_put_refines alike (fun _ => interchange.integer alike) _ _ _
  | memory => exact fit_put_refines alike (fun _ => agrees.memory alike) _ _ _
  | target =>
    by_cases whole : format.family = .loadAddress
    · simp only [place, if_pos whole]
      exact put_refines (fun _ => agrees.target alike) _
    · simp only [place, if_neg whole]
      exact fit_put_refines alike (fun _ => agrees.target alike) _ _ _

theorem placeAll_refines (interchange : Interchange R) (agrees : symbols.Agrees R after)
    (format : Format) (fields : Fields) (layout : List Slot) {operands others : List Text}
    (alike : List.Forall₂ R operands others) :
    (placeAll format symbols fields (layout.zip operands)).Refines (Truncation.Alike R) Eq
      (placeAll format after fields (layout.zip others)) := by
  induction alike generalizing fields layout with
  | nil =>
    rw [List.zip_nil_right]
    exact Outcome.refines_ok rfl
  | cons first _ ih =>
    cases layout with
    | nil => exact Outcome.refines_ok rfl
    | cons slot rest =>
      refine (place_refines interchange agrees format fields slot first).bind ?_
      rintro next _ rfl
      exact ih next rest

theorem resolve_refines (interchange : Interchange R) (agrees : symbols.Agrees R after)
    {i new : Instruction} (alike : Instruction.Alike R i new) :
    (resolve symbols i).Refines (Truncation.Alike R) Eq (resolve after new) := by
  unfold resolve
  rw [alike.mnemonic]
  cases Mnemonic.named? i.mnemonic with
  | none => exact Outcome.refines_fail _ _
  | some m =>
    have layouts : m.format.layoutFor? new.operands = m.format.layoutFor? i.operands := by
      unfold Format.layoutFor?
      simp only [interchange.fillsPlaces_eq _ alike.operands]
    simp only [layouts]
    cases m.format.layoutFor? i.operands with
    | none => exact Outcome.refines_fail _ _
    | some layout =>
      refine (placeAll_refines interchange agrees m.format _ layout alike.operands).bind ?_
      rintro fields _ rfl
      exact Outcome.refines_ok rfl

/-- An instruction whose operands are read alike is encoded to the same word. -/
theorem encode_refines (interchange : Interchange R) (agrees : symbols.Agrees R after)
    (half : Option Half) {text new : Text}
    (alike : Instruction.Alike R (Instruction.ofText text) (Instruction.ofText new)) :
    (encode symbols half text).Refines (Truncation.Alike R) Eq (encode after half new) := by
  have resolved := resolve_refines interchange agrees alike
  by_cases address : Mnemonic.named? (Instruction.ofText text).mnemonic = some .la
  · unfold encode
    simp only [alike.mnemonic, address]
    cases half with
    | none => exact Outcome.refines_fail _ _
    | some half =>
      refine resolved.bind ?_
      rintro pair _ rfl
      exact Outcome.refines_ok rfl
  · rw [encode_eq_of_ne_la address, encode_eq_of_ne_la (alike.mnemonic ▸ address)]
    refine resolved.bind ?_
    rintro pair _ rfl
    exact Outcome.refines_ok rfl

theorem known_of_encode {notes : List Truncation} {text : Text} {half : Option Half} {word : Word}
    (h : encode symbols half text = ⟨notes, .ok word⟩) :
    Mnemonic.named? (Instruction.ofText text).mnemonic ≠ none := by
  intro unknown
  have ordinary : Mnemonic.named? (Instruction.ofText text).mnemonic ≠ some .la := by
    rw [unknown]
    exact nofun
  rw [encode_eq_of_ne_la ordinary, resolve, unknown] at h
  cases h

/-! ## Images -/

namespace Image

variable {f : Text → Text}

theorem addedSize_eq_of_alike {fragment new : Fragment} (alike : Fragment.Alike R fragment new)
    (emitted : Nat) : addedSize emitted new = addedSize emitted fragment := by
  cases alike with
  | instruction | filling => rfl

theorem piece_refines (interchange : Interchange R) (agrees : symbols.Agrees R after)
    (emitted : Nat) {block new : Block} (alike : Block.Alike f R block new) :
    (piece symbols emitted block).Refines (Warning.Alike (Truncation.Alike R)) Eq
      (piece after emitted new) := by
  have fragments := alike.fragment
  generalize old : block.fragment = fragment at fragments
  generalize other : new.fragment = fragment' at fragments
  cases fragments with
  | instruction same =>
    rw [piece_of_instruction old, piece_of_instruction other, alike.line]
    refine ((encode_refines interchange agrees _ same).atLine block.line).bind ?_
    rintro word _ rfl
    exact Outcome.refines_ok rfl
  | filling still =>
    rw [piece_of_filling (old ▸ still), piece_of_filling (other ▸ still), old, other]
    exact Outcome.refines_ok rfl

/-- Blocks that are alike are encoded to the same bytes. -/
theorem ofBlocksFrom_refines (interchange : Interchange R) (agrees : symbols.Agrees R after)
    (emitted : Nat) {blocks others : List Block}
    (alike : List.Forall₂ (Block.Alike f R) blocks others) :
    (ofBlocksFrom symbols emitted blocks).Refines (Warning.Alike (Truncation.Alike R)) Eq
      (ofBlocksFrom after emitted others) := by
  induction alike generalizing emitted with
  | nil => exact Outcome.refines_ok rfl
  | cons first _ ih =>
    rw [ofBlocksFrom_cons, ofBlocksFrom_cons, addedSize_eq_of_alike first.fragment]
    refine (piece_refines interchange agrees emitted first).bind ?_
    rintro own _ rfl
    refine (ih _).bind ?_
    rintro more _ rfl
    exact Outcome.refines_ok rfl

/-- Whatever is encoded is known. -/
theorem known_of_ofBlocksFrom {emitted : Nat} {warnings : List Warning} {bytes : Bytes}
    {blocks : List Block} (h : ofBlocksFrom symbols emitted blocks = ⟨warnings, .ok bytes⟩) :
    ∀ block ∈ blocks, block.fragment.Known := by
  induction blocks generalizing emitted warnings bytes with
  | nil => exact nofun
  | cons block rest ih =>
    rw [ofBlocksFrom_cons] at h
    obtain ⟨_, _, _, hown, hrest, -⟩ := Outcome.bind_eq_ok_iff.1 h
    obtain ⟨_, _, _, hmore, -, -⟩ := Outcome.bind_eq_ok_iff.1 hrest
    refine List.forall_mem_cons.2 ⟨?_, ih hmore⟩
    intro text half instruction
    rw [piece_of_instruction instruction] at hown
    obtain ⟨_, _, _, hword, -, -⟩ := Outcome.bind_eq_ok_iff.1 hown
    obtain ⟨_, encoded, -⟩ := Outcome.atLine_eq_ok_iff.1 hword
    exact known_of_encode encoded

end Image

end MipsImage
