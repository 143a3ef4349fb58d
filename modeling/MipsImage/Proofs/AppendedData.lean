import MipsImage.Proofs.LabelRenaming

/-!
# Data that is appended

Lines that go to the data segment at the end of a source come behind everything else in its image.
Whatever stood there before keeps its place: the blocks are the same, so are the addresses of their
labels, and a word that refers to a label does not change when further labels are declared.
-/
set_option autoImplicit false

namespace MipsImage

/-! ## Segments -/

namespace Segments

/-- Behind a line that opens the data segment the segments of the lines so far are only added to. -/
theorem ofLinesFrom_append_data {line : SourceLine} (opens : line.text = ".data".toText)
    (inData : Bool) (front back : List SourceLine) :
    ofLinesFrom inData (front ++ line :: back) =
      ⟨(ofLinesFrom inData front).text ++ (ofLinesFrom true back).text,
        (ofLinesFrom inData front).data ++ (ofLinesFrom true back).data⟩ := by
  induction front generalizing inData with
  | nil =>
    have plain : ¬isGlobalDeclaration line.text = true := by
      rw [opens]
      decide
    simp only [List.nil_append, ofLinesFrom, if_neg plain, if_pos opens]
  | cons other rest ih =>
    simp only [List.cons_append, ofLinesFrom, ih]
    split
    · rfl
    · split
      · rfl
      · split
        · rfl
        · cases inData <;> rfl

theorem text_ofLinesFrom_true {lines : List SourceLine}
    (stays : ∀ line ∈ lines, line.text ≠ ".text".toText) : (ofLinesFrom true lines).text = [] := by
  induction lines with
  | nil => rfl
  | cons line rest ih =>
    rw [List.forall_mem_cons] at stays
    have later := ih stays.2
    simp only [ofLinesFrom, if_neg stays.1, if_true]
    split
    · exact later
    · split <;> exact later

/-- Lines that stay in the data segment come last. -/
theorem inOrder_append_data {line : SourceLine} (opens : line.text = ".data".toText)
    (front : List SourceLine) {back : List SourceLine}
    (stays : ∀ line ∈ back, line.text ≠ ".text".toText) :
    (ofLines (front ++ line :: back)).inOrder =
      (ofLines front).inOrder ++ (ofLinesFrom true back).data := by
  rw [ofLines, ofLinesFrom_append_data opens, text_ofLinesFrom_true stays, List.append_nil, inOrder,
    inOrder, List.append_assoc]
  rfl

end Segments

/-! ## Blocks and addresses -/

namespace Block

theorem ofLinesFrom_append (limit : Option Int) (address : Int) (front back : List SourceLine) :
    ofLinesFrom limit address (front ++ back) =
      (ofLinesFrom limit address front).bind fun own =>
        (ofLinesFrom limit (endOf address own) back).bind fun more => Outcome.ok (own ++ more) := by
  induction front generalizing address with
  | nil =>
    rw [List.nil_append, ofLinesFrom, Outcome.pure_eq_ok, Outcome.ok_bind, endOf_nil]
    exact (Outcome.bind_ok _).symm
  | cons line rest ih =>
    simp only [List.cons_append, ofLinesFrom_cons, ih, Outcome.bind_assoc, Outcome.ok_bind,
      endOf_append, List.append_assoc]

theorem placements_append (address : Int) (front back : List Block) :
    placements address (front ++ back) =
      placements address front ++ placements (endOf address front) back := by
  induction front generalizing address with
  | nil => rfl
  | cons block rest ih =>
    rw [List.cons_append, placements, placements, ih, List.append_assoc]
    rfl

section Added
variable {limit : Option Int} {front back : List SourceLine} {notes later : List Warning}
  {own blocks : List Block}

theorem proper_of_ofLines (expanded : ofLines limit front = ⟨notes, .ok own⟩) :
    ∀ block ∈ own, block.fragment.Proper := by
  obtain ⟨groups, grouped, rfl⟩ := ofLinesFrom_eq_ok_iff.1 expanded
  exact grouped.proper

/-- The blocks of the lines in front do not depend on the lines behind them. -/
theorem exists_append_of_ofLines (expanded : ofLines limit front = ⟨notes, .ok own⟩)
    (extended : ofLines limit (front ++ back) = ⟨later, .ok blocks⟩) :
    ∃ more, blocks = own ++ more := by
  rw [ofLines, ofLinesFrom_append] at extended
  obtain ⟨first, _, _, hfirst, hrest, -⟩ := Outcome.bind_eq_ok_iff.1 extended
  obtain ⟨more, _, _, -, hblocks, -⟩ := Outcome.bind_eq_ok_iff.1 hrest
  cases (Eq.symm expanded).trans hfirst
  cases hblocks
  exact ⟨more, rfl⟩

end Added

/-- A label stands nowhere before the place from which on the blocks are placed. -/
theorem le_of_mem_placements {start place : Int} {blocks : List Block} {name : Text}
    (proper : ∀ block ∈ blocks, block.fragment.Proper)
    (member : (name, place) ∈ placements start blocks) : start ≤ place := by
  obtain ⟨i, -, -, rfl⟩ := mem_placements_iff.1 member
  exact le_endOf start _ fun block h => proper block (List.mem_of_mem_take h)

end Block

/-- The labels of the blocks in front are found where they were, and all others behind them. -/
theorem SymbolTable.lookup_placements_append {front back : List Block}
    (proper : ∀ block ∈ back, block.fragment.Proper) :
    (∀ name place, (Block.placements 0 front).lookup name = some place →
      (Block.placements 0 (front ++ back)).lookup name = some place) ∧
    ∀ name place, (Block.placements 0 (front ++ back)).lookup name = some place →
      (Block.placements 0 front).lookup name = none → endOf 0 front ≤ place := by
  simp only [Block.placements_append, List.lookup_append]
  constructor
  · intro name place found
    rw [found, Option.some_or]
  · intro name place found none
    rw [none, Option.none_or] at found
    exact Block.le_of_mem_placements proper (mem_of_lookup found)

/-! ## Images -/

theorem Block.relabels_id (blocks : List Block) : List.Forall₂ (Relabels id) blocks blocks := by
  refine List.forall₂_same.2 fun block _ => ⟨rfl, (List.map_id _).symm, ?_⟩
  cases block.fragment with
  | instruction text half =>
    refine .instruction ?_
    rw [Instruction.relabel, List.map_id]
  | data | space | align => exact .filling (by simp)

/-- Blocks that have an image have the same image with a table in which more is found. -/
theorem Image.ofBlocks_of_found {symbols larger : SymbolTable} {blocks : List Block}
    {warnings : List Warning} {image : Bytes}
    (proper : ∀ name address, symbols.lookup name = some address → Label.Proper name)
    (found : ∀ name address, symbols.lookup name = some address →
      larger.lookup name = some address)
    (h : ofBlocks symbols blocks = ⟨warnings, .ok image⟩) :
    ofBlocks larger blocks = ⟨warnings.map (Warning.relabel id), .ok image⟩ := by
  -- a renaming under which every label keeps its name
  have renames : Label.Renames id := fun _ => .inl rfl
  exact ofBlocksFrom_relabel renames ⟨proper, found⟩ (Block.relabels_id blocks) h

theorem Image.prefix_of_ofBlocks_append {symbols : SymbolTable} {front back : List Block}
    {warnings later : List Warning} {image longer : Bytes}
    (h : ofBlocks symbols front = ⟨warnings, .ok image⟩)
    (extended : ofBlocks symbols (front ++ back) = ⟨later, .ok longer⟩) : image <+: longer := by
  rw [ofBlocks, ofBlocksFrom_append] at extended
  obtain ⟨first, _, _, hfirst, hrest, -⟩ := Outcome.bind_eq_ok_iff.1 extended
  obtain ⟨second, _, _, -, hlonger, -⟩ := Outcome.bind_eq_ok_iff.1 hrest
  cases (Eq.symm h).trans hfirst
  cases hlonger
  exact List.prefix_append image second

/-- A source that assembles and still does with lines added to its data segment has its image at
the start of the new one and its labels where they were, and any new label comes behind them. -/
theorem image_prefix_of_appended_data (limit : Option Int) (lines added : List SourceLine)
    (number : Int) (stays : ∀ line ∈ added, line.text ≠ ".text".toText) (image longer : Bytes)
    (assembled : (Assembly.ofLines limit lines).image = .ok image)
    (extended : (Assembly.ofLines limit (lines ++ ⟨".data".toText, number⟩ :: added)).image =
      .ok longer) :
    let symbols := (Assembly.ofLines limit lines).symbols
    let larger := (Assembly.ofLines limit (lines ++ ⟨".data".toText, number⟩ :: added)).symbols
    image <+: longer ∧
    (∀ name address, symbols.lookup name = some address →
      larger.lookup name = some address) ∧
    ∀ name address, larger.lookup name = some address → symbols.lookup name = none →
      (image.length : Int) ≤ address := by
  intro symbols larger
  obtain ⟨_, _, expanded, placed, encoded⟩ := Assembly.blocks_of_image assembled
  obtain ⟨_, _, expanded', placed', encoded'⟩ := Assembly.blocks_of_image extended
  have length := Image.ofBlocks_length (Block.proper_of_ofLines expanded) encoded
  have proper' := Block.proper_of_ofLines expanded'
  have declared := Block.mem_declaredLabels expanded
  obtain ⟨-, hsymbols⟩ := SymbolTable.ofBlocks_eq_ok_iff.1 placed
  obtain ⟨-, hlarger⟩ := SymbolTable.ofBlocks_eq_ok_iff.1 placed'
  rw [Segments.inOrder_append_data rfl lines stays] at expanded'
  obtain ⟨more, hblocks⟩ := Block.exists_append_of_ofLines expanded expanded'
  rw [hblocks] at proper' hlarger encoded'
  obtain ⟨kept, behind⟩ :=
    @SymbolTable.lookup_placements_append (Assembly.ofLines limit lines).blocks more
      fun block member => proper' block (List.mem_append_right _ member)
  rw [← hsymbols, ← hlarger] at kept behind
  rw [length]
  refine ⟨?_, kept, behind⟩
  -- what was encoded with the smaller table is encoded to the same bytes with the larger one
  have labels : ∀ name address, symbols.lookup name = some address → Label.Proper name := by
    intro name address found
    have key : name ∈ (Block.placements 0 (Assembly.ofLines limit lines).blocks).map Prod.fst :=
      hsymbols ▸ List.mem_map_of_mem (SymbolTable.mem_of_lookup found)
    rw [Block.map_fst_placements] at key
    exact proper_of_mem_declaredLabels name (declared name key)
  exact Image.prefix_of_ofBlocks_append (Image.ofBlocks_of_found labels kept encoded) encoded'

/-- Padding, an instruction that refers to an old label and a new label come behind one byte. -/
theorem image_prefix_of_appended_data_padded :
    let lines : List SourceLine :=
      [⟨"main: lw $t0, x".toText, 1⟩, ⟨".data".toText, 2⟩, ⟨"x: .byte 1".toText, 3⟩]
    let added : List SourceLine :=
      [⟨".align 2".toText, 5⟩, ⟨".globl y".toText, 6⟩, ⟨"y: lw $t1, x".toText, 7⟩]
    let image : Bytes := [0x8c, 0x08, 0, 4, 1]
    let longer : Bytes := [0x8c, 0x08, 0, 4, 1, 0, 0, 0, 0x8c, 0x09, 0, 4]
    let after := Assembly.ofLines none (lines ++ ⟨".data".toText, 4⟩ :: added)
    (∀ line ∈ added, line.text ≠ ".text".toText) ∧
    (Assembly.ofLines none lines).image = .ok image ∧ after.image = .ok longer ∧
    image <+: longer ∧
    after.symbols.lookup "x".toText = some 4 ∧
    after.symbols.lookup "y".toText = some 8 ∧ (image.length : Int) ≤ 8 := by
  intro lines added image longer after
  have stays : ∀ line ∈ added, line.text ≠ ".text".toText := by decide
  have assembled : (Assembly.ofLines none lines).image = .ok image := by decide +kernel
  have extended : after.image = .ok longer := by decide +kernel
  have found : after.symbols.lookup "y".toText = some 8 := by decide +kernel
  obtain ⟨opens, kept, behind⟩ :=
    image_prefix_of_appended_data none lines added 4 stays image longer assembled extended
  exact ⟨stays, assembled, extended, opens, kept _ _ (by decide +kernel), found,
    behind _ _ found (by decide +kernel)⟩

end MipsImage
