import Mathlib.Algebra.Order.Ring.Int
import Mathlib.Order.Bounds.Basic
import MipsImage.Placement

/-!
# Addresses

Where blocks come to stand that are placed one after another. Padding ends at the least multiple of
its boundary, so addresses never decrease, and the symbol table of blocks has each of their labels
once, with the address of the block that carries it.
-/
set_option autoImplicit false

namespace MipsImage

/-! ## Padding -/

theorem dvd_alignUp (offset boundary : Int) : boundary ∣ alignUp offset boundary :=
  Dvd.intro _ rfl

theorem alignUp_eq (offset boundary : Int) (positive : 0 < boundary) :
    alignUp offset boundary = -(boundary * (-offset / boundary)) := by
  rw [alignUp, Int.fdiv_eq_ediv_of_nonneg _ positive.le, Int.mul_neg]

theorem le_alignUp (offset boundary : Int) (positive : 0 < boundary) :
    offset ≤ alignUp offset boundary := by
  have h := Int.mul_ediv_self_le (x := -offset) (k := boundary) positive.ne'
  rw [alignUp_eq offset boundary positive]
  omega

theorem alignUp_le (offset boundary bound : Int) (positive : 0 < boundary)
    (multiple : boundary ∣ bound) (h : offset ≤ bound) : alignUp offset boundary ≤ bound := by
  obtain ⟨k, rfl⟩ := multiple
  have hk : -k ≤ -offset / boundary := by
    apply Int.le_ediv_of_mul_le positive
    rw [Int.neg_mul, Int.mul_comm]
    omega
  have hb := Int.mul_le_mul_of_nonneg_left hk positive.le
  rw [alignUp_eq offset boundary positive]
  rw [Int.mul_neg] at hb
  omega

theorem alignUp_isLeast (offset boundary : Int) (positive : 0 < boundary) :
    IsLeast {bound : Int | boundary ∣ bound ∧ offset ≤ bound} (alignUp offset boundary) := by
  constructor
  · exact ⟨dvd_alignUp offset boundary, le_alignUp offset boundary positive⟩
  · rintro bound ⟨multiple, h⟩
    exact alignUp_le offset boundary bound positive multiple h

/-! ## Ends of fragments and of blocks -/

namespace Fragment

/-- Padding is up to the multiples of a positive number. -/
def Proper : Fragment → Prop
  | align boundary => 0 < boundary
  | _ => True

instance (fragment : Fragment) : Decidable fragment.Proper :=
  match fragment with
  | .align boundary => inferInstanceAs (Decidable (0 < boundary))
  | .instruction _ _ | .data _ | .space _ => instDecidableTrue

theorem le_endFrom (fragment : Fragment) (proper : fragment.Proper) (address : Int) :
    address ≤ fragment.endFrom address := by
  cases fragment with
  | instruction text half => simp only [endFrom]; omega
  | data bytes => simp only [endFrom]; omega
  | space count => simp only [endFrom]; omega
  | align boundary => exact le_alignUp address boundary (Int.natCast_pos.2 proper)

end Fragment

@[simp] theorem endOf_nil (address : Int) : endOf address [] = address := rfl

@[simp] theorem endOf_cons (address : Int) (block : Block) (rest : List Block) :
    endOf address (block :: rest) = endOf (block.fragment.endFrom address) rest := rfl

theorem endOf_append (address : Int) (front back : List Block) :
    endOf address (front ++ back) = endOf (endOf address front) back :=
  List.foldl_append

theorem le_endOf (address : Int) (blocks : List Block)
    (proper : ∀ block ∈ blocks, block.fragment.Proper) : address ≤ endOf address blocks := by
  induction blocks generalizing address with
  | nil => exact le_refl address
  | cons block rest ih =>
    have first := block.fragment.le_endFrom (proper block (List.mem_cons_self ..)) address
    have later := ih (block.fragment.endFrom address)
      fun other h => proper other (List.mem_cons_of_mem block h)
    exact first.trans later

namespace Block

/-- Where the block with this index stands, and for the number of blocks where the image ends. -/
def address (blocks : List Block) (i : Nat) : Int := endOf 0 (blocks.take i)

theorem address_zero (blocks : List Block) : address blocks 0 = 0 := by
  rw [address, List.take_zero, endOf_nil]

theorem address_succ (blocks : List Block) (i : Nat) (h : i < blocks.length) :
    address blocks (i + 1) = blocks[i].fragment.endFrom (address blocks i) := by
  rw [address, List.take_succ_eq_append_getElem h, endOf_append]
  rfl

theorem address_length (blocks : List Block) : address blocks blocks.length = endOf 0 blocks := by
  rw [address, List.take_length]

/-! ## Labels -/

theorem map_fst_placements (start : Int) (blocks : List Block) :
    (placements start blocks).map Prod.fst = blocks.flatMap Block.labels := by
  induction blocks generalizing start with
  | nil => rfl
  | cons block rest ih =>
    rw [placements, List.map_append, List.map_map, ih, List.flatMap_cons]
    exact congrArg (· ++ _) (List.map_id block.labels)

/-- Placements are the labels of each block with the end of all blocks before it. -/
theorem mem_placements_iff {start : Int} {blocks : List Block} {name : Text} {place : Int} :
    (name, place) ∈ placements start blocks ↔
      ∃ i, ∃ h : i < blocks.length,
        name ∈ blocks[i].labels ∧ place = endOf start (blocks.take i) := by
  induction blocks generalizing start with
  | nil => simp [placements]
  | cons block rest ih =>
    rw [placements, List.mem_append, ih]
    constructor
    · rintro (h | ⟨i, hi, hname, hplace⟩)
      · obtain ⟨label, hlabel, heq⟩ := List.mem_map.1 h
        cases heq
        exact ⟨0, Nat.succ_pos _, hlabel, rfl⟩
      · exact ⟨i + 1, Nat.succ_lt_succ hi, hname, hplace⟩
    · rintro ⟨i, hi, hname, hplace⟩
      cases i with
      | zero => exact .inl (List.mem_map.2 ⟨name, hname, by rw [hplace]; rfl⟩)
      | succ i => exact .inr ⟨i, Nat.lt_of_succ_lt_succ hi, hname, hplace⟩

end Block

theorem firstRepeat?_eq_none_iff {seen names : List Text} :
    firstRepeat? seen names = none ↔ names.Nodup ∧ ∀ name ∈ names, name ∉ seen := by
  induction names generalizing seen with
  | nil => simp [firstRepeat?]
  | cons name rest ih =>
    rw [firstRepeat?]
    split
    · rename_i repeated
      simp [repeated]
    · rename_i fresh
      rw [ih, List.nodup_cons]
      simp only [List.mem_cons, forall_eq_or_imp, not_or]
      constructor
      · rintro ⟨distinct, unseen⟩
        exact ⟨⟨fun h => (unseen name h).1 rfl, distinct⟩, fresh, fun other h => (unseen other h).2⟩
      · rintro ⟨⟨absent, distinct⟩, -, unseen⟩
        exact ⟨distinct, fun other h => ⟨fun heq => absent (heq ▸ h), unseen other h⟩⟩

theorem firstRepeat?_append (seen front rest : List Text) :
    firstRepeat? seen (front ++ rest) =
      (firstRepeat? seen front).or (firstRepeat? (front.reverse ++ seen) rest) := by
  induction front generalizing seen with
  | nil => rfl
  | cons name front ih =>
    rw [List.cons_append, firstRepeat?, firstRepeat?]
    split
    · rfl
    · rw [ih, List.reverse_cons, List.append_assoc, List.singleton_append]

theorem firstRepeat?_eq_some_iff {seen names : List Text} {name : Text} :
    firstRepeat? seen names = some name ↔
      ∃ front back, names = front ++ name :: back ∧ firstRepeat? seen front = none ∧
        (name ∈ front ∨ name ∈ seen) := by
  constructor
  · intro h
    induction names generalizing seen with
    | nil => cases h
    | cons first rest ih =>
      rw [firstRepeat?] at h
      split at h
      · rename_i repeated
        cases h
        exact ⟨[], rest, rfl, rfl, .inr repeated⟩
      · rename_i fresh
        obtain ⟨front, back, rfl, distinct, repeated⟩ := ih h
        refine ⟨first :: front, back, rfl, ?_, ?_⟩
        · rw [firstRepeat?, if_neg fresh, distinct]
        · rw [List.mem_cons] at repeated ⊢
          tauto
  · rintro ⟨front, back, rfl, distinct, repeated⟩
    have again : name ∈ front.reverse ++ seen :=
      List.mem_append.2 (repeated.imp_left List.mem_reverse.2)
    rw [firstRepeat?_append, distinct, Option.none_or, firstRepeat?, if_pos again]

namespace SymbolTable

/-- Labels get addresses exactly if none of them is declared twice. -/
theorem ofBlocks_eq_ok_iff {blocks : List Block} {table : SymbolTable} :
    ofBlocks blocks = .ok table ↔
      (blocks.flatMap Block.labels).Nodup ∧ table = Block.placements 0 blocks := by
  simp only [ofBlocks, Block.map_fst_placements]
  have distinct : firstRepeat? [] (blocks.flatMap Block.labels) = none ↔
      (blocks.flatMap Block.labels).Nodup := by
    simp [firstRepeat?_eq_none_iff]
  split
  · rename_i h
    simp [distinct.1 h, eq_comm]
  · rename_i name h
    have repeated : ¬(blocks.flatMap Block.labels).Nodup := fun nodup => by
      rw [distinct.2 nodup] at h
      cases h
    simp [repeated]

theorem ofBlocks_eq_error_iff {blocks : List Block} {failure : Failure LocatedFault} :
    ofBlocks blocks = .error failure ↔
      ∃ name, firstRepeat? [] (blocks.flatMap Block.labels) = some name ∧
        failure = .fault ⟨(Block.declaredLines blocks name)[1]?.getD 0,
          .duplicateLabel name (Block.declaredLines blocks name)⟩ := by
  simp only [ofBlocks, Block.map_fst_placements]
  split
  · rename_i h
    simp [h]
  · rename_i name h
    simp [h, eq_comm]

theorem mem_of_lookup {symbols : SymbolTable} {name : Text} {place : Int}
    (h : symbols.lookup name = some place) : (name, place) ∈ symbols := by
  obtain ⟨before, after, rfl, -⟩ := List.lookup_eq_some_iff.1 h
  exact List.mem_append_right before (List.mem_cons_self ..)

theorem lookup_eq_some_of_mem {symbols : SymbolTable} {name : Text} {place : Int}
    (distinct : (symbols.map Prod.fst).Nodup) (h : (name, place) ∈ symbols) :
    symbols.lookup name = some place := by
  induction symbols with
  | nil => cases h
  | cons entry rest ih =>
    rw [List.map_cons, List.nodup_cons] at distinct
    rcases List.mem_cons.1 h with rfl | later
    · exact List.lookup_cons_self
    · have other : (name == entry.1) = false := by
        apply beq_eq_false_iff_ne.2
        rintro rfl
        exact distinct.1 (List.mem_map.2 ⟨_, later, rfl⟩)
      rw [List.lookup_cons, other]
      exact ih distinct.2 later

end SymbolTable

end MipsImage
