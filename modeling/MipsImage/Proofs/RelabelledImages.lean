import MipsImage.Proofs.InterchangedImages
import MipsImage.Proofs.RelabelledLines

/-!
# Images under other labels

A label that is looked up in the table of the other labels has the address that the old one had, and
nothing but labels is looked up. So the same words are encoded, and the images are the same.
-/
set_option autoImplicit false

namespace MipsImage

variable {f : Text → Text}

/-! ## Warnings -/

def Truncation.relabel (f : Text → Text) (t : Truncation) : Truncation :=
  { t with token := f t.token }

def Warning.relabel (f : Text → Text) (w : Warning) : Warning :=
  { w with truncation := w.truncation.relabel f }

/-! ## Symbols -/

/-- Whatever is found in a table is a label, and the other label is found in the other table. -/
structure SymbolTable.Relabels (f : Text → Text) (symbols after : SymbolTable) : Prop where
  proper : ∀ name address, symbols.lookup name = some address → Label.Proper name
  found : ∀ name address, symbols.lookup name = some address → after.lookup (f name) = some address

theorem SymbolTable.relabels_map {symbols : SymbolTable}
    (proper : ∀ name ∈ symbols.map Prod.fst, Label.Proper name)
    (distinct : ((symbols.map (Prod.map f id)).map Prod.fst).Nodup) :
    symbols.Relabels f (symbols.map (Prod.map f id)) where
  proper _ _ found := proper _ (List.mem_map_of_mem (mem_of_lookup found))
  found name address found := by
    have member : Prod.map f id (name, address) ∈ symbols.map (Prod.map f id) :=
      List.mem_map_of_mem (mem_of_lookup found)
    exact lookup_eq_some_of_mem distinct member

section Encoding
variable {symbols after : SymbolTable} {token : Text}

theorem resolveTarget_relabel (renames : Label.Renames f) (relabels : symbols.Relabels f after)
    {address : Int} (h : symbols.resolveTarget token = .ok address) :
    after.resolveTarget (f token) = .ok address := by
  unfold SymbolTable.resolveTarget at h ⊢
  split at h
  · rename_i integer
    rw [renames.eq_self (not_proper_of_isInteger integer), if_pos integer]
    exact h
  · split at h
    · rename_i found
      cases h
      have new := renames.proper (relabels.proper _ _ found)
      have word : ¬isInteger (f token) = true := fun integer => not_proper_of_isInteger integer new
      rw [if_neg word, relabels.found _ _ found]
    · split at h <;> cases h

theorem resolveMemory_relabel (renames : Label.Renames f) (relabels : symbols.Relabels f after)
    {operand : Register × Int} (h : symbols.resolveMemory token = .ok operand) :
    after.resolveMemory (f token) = .ok operand := by
  unfold SymbolTable.resolveMemory at h ⊢
  cases indexed : SymbolTable.indexed? token with
  | some pair =>
    have other : ¬Label.Proper token := by
      intro proper
      rw [proper.indexed?_eq_none] at indexed
      cases indexed
    rw [renames.eq_self other]
    rwa [indexed] at h ⊢
  | none =>
    rw [indexed] at h
    dsimp only at h
    split at h
    · rename_i found
      cases h
      have new := renames.proper (relabels.proper _ _ found)
      rw [new.indexed?_eq_none]
      dsimp only
      rw [relabels.found _ _ found]
    · cases h

theorem SymbolTable.Relabels.agrees (renames : Label.Renames f)
    (relabels : symbols.Relabels f after) : symbols.Agrees (fun t new => f t = new) after where
  target := by
    rintro t _ address rfl h
    exact resolveTarget_relabel renames relabels h
  memory := by
    rintro t _ operand rfl h
    exact resolveMemory_relabel renames relabels h

end Encoding

/-! ## Images -/

theorem Warning.Alike.eq_relabel {w new : Warning}
    (alike : Warning.Alike (Truncation.Alike fun t new => f t = new) w new) :
    w.relabel f = new :=
  congr (congrArg Warning.mk alike.line.symm)
    (congr (congrArg Truncation.mk alike.truncation.token) alike.truncation.bits.symm)

/-- Blocks with other labels are encoded to the same bytes. -/
theorem Image.ofBlocksFrom_relabel {symbols after : SymbolTable} {emitted : Nat}
    {warnings : List Warning} {bytes : Bytes} (renames : Label.Renames f)
    (relabels : symbols.Relabels f after) {blocks new : List Block}
    (same : List.Forall₂ (Block.Relabels f) blocks new)
    (h : ofBlocksFrom symbols emitted blocks = ⟨warnings, .ok bytes⟩) :
    ofBlocksFrom after emitted new = ⟨warnings.map (Warning.relabel f), .ok bytes⟩ := by
  have alike : List.Forall₂ (Block.Alike f fun t new => f t = new) blocks new :=
    same.imp fun _ _ => Block.relabels_iff.1
  obtain ⟨later, _, encoded, warned, rfl⟩ :=
    ofBlocksFrom_refines renames.interchange (relabels.agrees renames) emitted alike _ _ h
  have words : warnings.map (Warning.relabel f) = later := by
    rw [← List.forall₂_eq_eq_eq, List.forall₂_map_left_iff]
    exact warned.imp fun _ _ => Warning.Alike.eq_relabel
  rw [words, encoded]

end MipsImage
