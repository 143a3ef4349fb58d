import MipsImage.Proofs.LabelRenaming
import MipsImage.Proofs.RespelledLines

/-!
# The spelling does not matter

A source whose lines are spelled in another way, in mnemonics, registers and integers, has the image
that it had and the same symbol table. The warnings are the same but for the spelling of the operand
that they quote.
-/
set_option autoImplicit false

namespace MipsImage

/-- A warning about the same line, with an operand in another spelling. -/
abbrev Warning.Respells : Warning → Warning → Prop := Alike (Truncation.Alike Token.Respells)

/-- Lines in another spelling become the same blocks but for the spelling of operands. -/
theorem Block.ofLines_respells {source : Text} {after : List SourceLine}
    (respelled : List.Forall₂ SourceLine.Respells (SourceLine.ofSource source) after)
    {limit : Option Int} {notes : List Warning} {blocks : List Block}
    (expanded : ofLines limit (Segments.ofLines (SourceLine.ofSource source)).inOrder =
      ⟨notes, .ok blocks⟩)
    (known : ∀ block ∈ blocks, block.fragment.Known) :
    ∃ later others, ofLines limit (Segments.ofLines after).inOrder = ⟨later, .ok others⟩ ∧
      List.Forall₂ (Alike id Token.Respells) blocks others ∧
      List.Forall₂ Warning.Respells notes later := by
  obtain ⟨groups, grouped, rfl⟩ := ofLinesFrom_eq_ok_iff.1 expanded
  -- what stands in a line of the source is known only of lines that are kept together with it
  let P (line new : SourceLine) : Prop :=
    line ∈ SourceLine.ofSource source ∧ line.Respells new
  have related : List.Forall₂ P (SourceLine.ofSource source) after :=
    (List.forall₂_and_left _ _).2 ⟨fun _ => id, respelled⟩
  have inOrder := Segments.forall₂_inOrder (fun _ _ both => both.2.steersAlike) related
  obtain ⟨groups', later, grouped', alike, warned⟩ :=
    grouped.alike (f := id) (fun _ _ both => both.2.number_eq)
      (fun line new names fragments notes both expands _ => by
        obtain ⟨fragments', notes', h, same, noted⟩ := both.2.expands both.1 expands
        exact ⟨fragments', notes', by rwa [List.map_id], same, noted⟩) known inOrder
  exact ⟨later, groups'.flatten, grouped'.ofLinesFrom_eq, alike, warned⟩

/-- A source in another spelling assembles to the image of the source with the same symbol table.
There are the same warnings, which quote the operand as it is spelled. -/
theorem image_of_respelled_lines (limit : Option Int) (source : Text) (after : List SourceLine)
    (respelled : List.Forall₂ SourceLine.Respells (SourceLine.ofSource source) after)
    (image : Bytes)
    (assembled : (Assembly.ofLines limit (SourceLine.ofSource source)).image = .ok image) :
    let before := Assembly.ofLines limit (SourceLine.ofSource source)
    let now := Assembly.ofLines limit after
    now.image = .ok image ∧ now.symbols = before.symbols ∧
      List.Forall₂ Warning.Respells before.warnings now.warnings := by
  intro before now
  obtain ⟨notes, warnings, expanded, placed, encoded⟩ := Assembly.blocks_of_image assembled
  have old : before = _ := Assembly.ofLines_eq_of_phases expanded placed encoded
  have declared := Block.mem_declaredLabels expanded
  obtain ⟨nodup, hsymbols⟩ := SymbolTable.ofBlocks_eq_ok_iff.1 placed
  obtain ⟨later, blocks, expanded', alike, noted⟩ :=
    Block.ofLines_respells respelled expanded (Image.known_of_ofBlocksFrom encoded)
  have places : Block.placements 0 blocks = before.symbols := by
    rw [hsymbols, Block.placements_eq_of_alike alike, Prod.map_id, List.map_id]
  have labels : ∀ name address, before.symbols.lookup name = some address → Label.Proper name := by
    intro name address found
    refine proper_of_mem_declaredLabels name (declared name ?_)
    rw [← Block.map_fst_placements 0, ← hsymbols]
    exact List.mem_map_of_mem (SymbolTable.mem_of_lookup found)
  have placed' : SymbolTable.ofBlocks blocks = .ok before.symbols := by
    refine SymbolTable.ofBlocks_eq_ok_iff.2 ⟨?_, places.symm⟩
    rwa [Block.flatMap_labels_of_alike alike, List.map_id]
  obtain ⟨warnings', _, encoded', warned, rfl⟩ :=
    Image.ofBlocksFrom_refines Token.interchange_respells (SymbolTable.agrees_respells labels) 0
      alike _ _ encoded
  have new : now = _ := Assembly.ofLines_eq_of_phases expanded' placed' encoded'
  refine ⟨by rw [new], by rw [new], ?_⟩
  rw [new, old]
  exact List.rel_append noted warned

/-- A load, a pseudo-instruction and data are spelled in another way. The warning about a byte that
is cut quotes it as it is spelled. -/
theorem image_of_respelled_lines_mixed :
    let source := "main: lw $a0, 4($sp)\nli $v0, 0x1F\n.data\n.byte 300".toText
    let after : List SourceLine :=
      [⟨"main: LW $4, 0x04($29)".toText, 1⟩, ⟨"Li $V0, ٣١".toText, 2⟩, ⟨".data".toText, 3⟩,
       ⟨".byte 0x12c".toText, 4⟩]
    let before := Assembly.ofLines none (SourceLine.ofSource source)
    let now := Assembly.ofLines none after
    List.Forall₂ SourceLine.Respells (SourceLine.ofSource source) after ∧
    (∃ image, before.image = .ok image ∧ now.image = .ok image) ∧
    now.symbols = [("main".toText, 0)] ∧
    List.Forall₂ Warning.Respells before.warnings now.warnings ∧
    before.warnings = [⟨4, ⟨"300".toText, 8⟩⟩] ∧ now.warnings = [⟨4, ⟨"0x12c".toText, 8⟩⟩] := by
  intro source after before now
  have lines : SourceLine.ofSource source =
      [⟨"main: lw $a0, 4($sp)".toText, 1⟩, ⟨"li $v0, 0x1F".toText, 2⟩, ⟨".data".toText, 3⟩,
       ⟨".byte 300".toText, 4⟩] := by decide +kernel
  have written {t : Text} {n : Numeral} (read : Numeral.ofText? t = some n) : Numeral.Written t n :=
    Numeral.ofText?_eq_some_iff.1 read
  have piece {part new old token : Text} (respells : Token.Respells old token)
      (core : Text.trim part = old) (text : new = Text.mapCore (fun _ => token) part) :
      Respelling.Piece part new := ⟨token, core ▸ respells, text⟩
  have spelled {body body' : Text} (word new rest : Text) (parts pieces : List Text)
      (old : body = word ++ .char ' ' :: rest ∧
        body' = new ++ .char ' ' :: Text.join [.char ','] pieces)
      (whole : .char ' ' ∉ word) (respelled : Respelling.Word word new)
      (unquoted : word ≠ Directive.ascii.name ∧ word ≠ Directive.asciiz.name)
      (split : Text.splitOn (.char ',') rest = parts)
      (operands : List.Forall₂ Respelling.Piece parts pieces) : Respelling.Body body body' := by
    rw [old.1, old.2]
    exact .operands whole respelled unquoted (split ▸ operands)
  have load : Respelling.Body "lw $a0, 4($sp)".toText "LW $4, 0x04($29)".toText := by
    have offset : SymbolTable.Offset "4".toText (some ⟨false, .decimal, [4]⟩) :=
      .some (written (by decide +kernel))
    have offset' : SymbolTable.Offset "0x04".toText (some ⟨false, .hexadecimal, [0, 4]⟩) :=
      .some (written (by decide +kernel))
    have first : Token.Respells "$a0".toText "$4".toText :=
      .register (.name (r := 4) (by decide +kernel) (by decide +kernel))
    have role : ∀ c ∈ "sp".toText, Text.isWordChar c = true :=
      List.all_eq_true.1 (by decide +kernel)
    have number : ∀ c ∈ "29".toText, Text.isWordChar c = true :=
      List.all_eq_true.1 (by decide +kernel)
    have second : Token.Respells "4($sp)".toText "0x04($29)".toText :=
      .indexed (.mk offset (by decide) role) (.mk offset' (by decide) number)
        (.some ⟨by decide, by decide⟩) (.name (r := 29) (by decide +kernel) (by decide +kernel))
    exact spelled "lw".toText "LW".toText "$a0, 4($sp)".toText ["$a0".toText, " 4($sp)".toText]
      ["$4".toText, " 0x04($29)".toText]
      (by decide +kernel) (by decide) (.inr (by decide)) (by decide) (by decide +kernel)
      (.cons (piece first (by decide +kernel) (by decide +kernel))
        (.cons (piece second (by decide +kernel) (by decide +kernel)) .nil))
  have immediate : Respelling.Body "li $v0, 0x1F".toText "Li $V0, ٣١".toText := by
    have first : Token.Respells "$v0".toText "$V0".toText :=
      .register (.letters (r := 2) (by decide +kernel) (by decide))
    have second : Token.Respells "0x1F".toText "٣١".toText :=
      .literal (.mk (m := ⟨false, .hexadecimal, [1, 15]⟩) (n := ⟨false, .decimal, [3, 1]⟩)
        (written (by decide +kernel)) (written (by decide +kernel)) ⟨by decide, by decide⟩)
    exact spelled "li".toText "Li".toText "$v0, 0x1F".toText ["$v0".toText, " 0x1F".toText]
      ["$V0".toText, " ٣١".toText]
      (by decide +kernel) (by decide) (.inr (by decide)) (by decide) (by decide +kernel)
      (.cons (piece first (by decide +kernel) (by decide +kernel))
        (.cons (piece second (by decide +kernel) (by decide +kernel)) .nil))
  have byte : Respelling.Body ".byte 300".toText ".byte 0x12c".toText := by
    have only : Token.Respells "300".toText "0x12c".toText :=
      .literal (.mk (m := ⟨false, .decimal, [3, 0, 0]⟩) (n := ⟨false, .hexadecimal, [1, 2, 12]⟩)
        (written (by decide +kernel)) (written (by decide +kernel)) ⟨by decide, by decide⟩)
    exact spelled ".byte".toText ".byte".toText "300".toText ["300".toText] ["0x12c".toText]
      (by decide +kernel) (by decide) (.inl rfl) (by decide) (by decide +kernel)
      (.cons (piece only (by decide +kernel) (by decide +kernel)) .nil)
  have respelled : List.Forall₂ SourceLine.Respells (SourceLine.ofSource source) after := by
    have line {t new body body' : Text} {names : List Text} (n : Int)
        (divided : Label.split t = (names, body)) (text : new = SourceLine.write names body')
        (respelled : Respelling.Body body body') : SourceLine.Respells ⟨t, n⟩ ⟨new, n⟩ := by
      rw [text]
      exact @SourceLine.Respells.body ⟨t, n⟩ names body body' (Label.split_eq_iff.1 divided)
        respelled
    rw [lines]
    refine .cons (line 1 (show _ = (["main".toText], _) by decide +kernel) ?_ load) ?_
    · decide +kernel
    refine .cons (line 2 (show _ = ([], _) by decide +kernel) ?_ immediate) ?_
    · decide +kernel
    refine .cons (.same _) (.cons (line 4 (show _ = ([], _) by decide +kernel) ?_ byte) .nil)
    decide +kernel
  have some : before.image.toOption.isSome = true := by decide +kernel
  cases assembled : before.image with
  | error failure =>
    rw [assembled] at some
    cases some
  | ok image =>
    obtain ⟨same, symbols, warnings⟩ :=
      image_of_respelled_lines none source after respelled image assembled
    refine ⟨respelled, ⟨image, rfl, same⟩, ?_, warnings, by decide +kernel, by decide +kernel⟩
    rw [symbols]
    decide +kernel

end MipsImage
