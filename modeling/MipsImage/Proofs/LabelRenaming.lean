import MipsImage.Proofs.RelabelledImages
import MipsImage.Proofs.SourceLines

/-!
# The names of labels do not matter

A source whose labels are renamed, no two of them to the same label, has the image that it had, with
the addresses and the warnings under the new names. The renaming reaches every header and every
operand of an instruction that is a declared label, and nothing else.
-/
set_option autoImplicit false

namespace MipsImage

variable {f : Text → Text}

/-! ## What is renamed -/

/-- The labels that lines declare. -/
def declaredLabels (lines : List SourceLine) : List Text :=
  lines.flatMap fun line => (Label.split line.text).1

/-- Some names are renamed, and any other text stays. -/
def Label.rename (names : List Text) (f : Text → Text) (t : Text) : Text :=
  if names.contains t then f t else t

theorem mem_declaredLabels_iff {lines : List SourceLine} {name : Text} :
    name ∈ declaredLabels lines ↔ ∃ line ∈ lines, line.Declares name := by
  rw [declaredLabels, List.mem_flatMap]
  simp only [SourceLine.declares_iff]

theorem SourceLine.Declares.proper {line : SourceLine} {name : Text}
    (declares : line.Declares name) : Label.Proper name := by
  obtain ⟨names, body, headers, member⟩ := declares
  exact proper_of_headers headers name member

theorem proper_of_mem_declaredLabels {lines : List SourceLine} :
    ∀ name ∈ declaredLabels lines, Label.Proper name := by
  intro name member
  obtain ⟨line, -, declares⟩ := mem_declaredLabels_iff.1 member
  exact declares.proper

theorem Label.renames_rename {names : List Text} (old : ∀ name ∈ names, Proper name)
    (new : ∀ name ∈ names, Proper (f name)) : Renames (rename names f) := by
  intro t
  unfold rename
  split
  · rename_i named
    have member := List.contains_iff_mem.1 named
    exact .inr ⟨old t member, new t member⟩
  · exact .inl rfl

/-! ## Warnings of expansion -/

theorem Directive.isInteger_of_datum {width : Width} {token : Text} {notes : List Truncation}
    {bytes : Bytes} (h : datum width token = ⟨notes, .ok bytes⟩) :
    ∀ note ∈ notes, isInteger note.token = true := by
  unfold datum at h
  dsimp only at h
  split at h
  · rename_i integer
    obtain ⟨value, _, _, hvalue, hbytes, rfl⟩ := Outcome.bind_eq_ok_iff.1 h
    cases (Outcome.ofExcept_eq_ok_iff.1 hvalue).2
    split at hbytes
    · cases hbytes
      simp
    · cases hbytes
      exact List.forall_mem_singleton.2 integer
  · cases h

theorem Directive.isInteger_of_data {width : Width} {tokens : List Text}
    {notes : List Truncation} {bytes : Bytes} (h : data width tokens = ⟨notes, .ok bytes⟩) :
    ∀ note ∈ notes, isInteger note.token = true := by
  induction tokens generalizing notes bytes with
  | nil =>
    cases h
    simp
  | cons token rest ih =>
    obtain ⟨_, _, _, hdatum, hrest, rfl⟩ := Outcome.bind_eq_ok_iff.1 h
    obtain ⟨_, _, _, hdata, hbytes, rfl⟩ := Outcome.bind_eq_ok_iff.1 hrest
    cases hbytes
    rw [List.append_nil, List.forall_mem_append]
    exact ⟨isInteger_of_datum hdatum, ih hdata⟩

/-- What is cut in expansion is a numeral. -/
theorem isInteger_of_expandLine {limit : Option Int} {t : Text} {notes : List Truncation}
    {fragments : List Fragment} (h : expandLine limit t = ⟨notes, .ok fragments⟩) :
    ∀ note ∈ notes, isInteger note.token = true := by
  unfold expandLine at h
  split at h
  · rename_i directive body _
    obtain ⟨_, _, _, hfragment, hlist, rfl⟩ := Outcome.bind_eq_ok_iff.1 h
    cases hlist
    rw [List.append_nil]
    unfold Directive.expand at hfragment
    cases directive with
    | integers width =>
      obtain ⟨_, _, _, hdata, hbytes, rfl⟩ := Outcome.bind_eq_ok_iff.1 hfragment
      cases hbytes
      rw [List.append_nil]
      exact Directive.isInteger_of_data hdata
    | ascii | asciiz | space | align =>
      obtain ⟨_, _, _, hread, hvalue, rfl⟩ := Outcome.bind_eq_ok_iff.1 hfragment
      cases (Outcome.ofExcept_eq_ok_iff.1 hread).2
      cases hvalue
      simp
  · cases (Outcome.ofExcept_eq_ok_iff.1 h).2
    simp

theorem Block.Grouped.map_relabel_warnings (renames : Label.Renames f) {limit : Option Int}
    {address : Int} {lines : List SourceLine} {groups : List (List Block)}
    {warnings : List Warning} (grouped : Grouped limit address lines groups warnings) :
    warnings.map (Warning.relabel f) = warnings := by
  induction grouped with
  | nil => rfl
  | @cons _ line _ _ _ notes _ _ expands _ _ ih =>
    have integers : ∀ note ∈ notes, isInteger note.token = true := by
      cases expands with
      | labels headers => simp
      | body headers present expanded => exact isInteger_of_expandLine expanded
    rw [List.map_append, ih, List.map_map]
    congr 1
    refine List.map_congr_left fun note member => ?_
    have same := renames.eq_self (not_proper_of_isInteger (integers note member))
    rw [Function.comp_apply, Warning.relabel, Truncation.relabel, same]

/-! ## A whole source -/

theorem Assembly.ofLines_eq_of_phases {limit : Option Int} {lines : List SourceLine}
    {notes warnings : List Warning} {blocks : List Block} {symbols : SymbolTable} {image : Bytes}
    (expanded : Block.ofLines limit (Segments.ofLines lines).inOrder = ⟨notes, .ok blocks⟩)
    (placed : SymbolTable.ofBlocks blocks = .ok symbols)
    (encoded : Image.ofBlocks symbols blocks = ⟨warnings, .ok image⟩) :
    ofLines limit lines = ⟨blocks, symbols, notes ++ warnings, .ok image⟩ := by
  simp only [ofLines, expanded, placed, encoded]

theorem Block.flatMap_labels_of_relabels {blocks after : List Block}
    (relabels : List.Forall₂ (Relabels f) blocks after) :
    after.flatMap Block.labels = (blocks.flatMap Block.labels).map f := by
  rw [← map_fst_placements 0, ← map_fst_placements 0, placements_eq_of_relabels relabels,
    List.map_map, List.map_map]
  rfl

/-- The table of a source and the one of the source under other labels, if these are distinct. -/
theorem SymbolTable.relabels_placements {blocks after : List Block}
    (relabels : List.Forall₂ (Block.Relabels f) blocks after)
    (proper : ∀ name ∈ blocks.flatMap Block.labels, Label.Proper name)
    (distinct : (after.flatMap Block.labels).Nodup) :
    (Block.placements 0 blocks).Relabels f (Block.placements 0 after) := by
  have places := Block.placements_eq_of_relabels relabels 0
  rw [places]
  refine relabels_map ?_ ?_
  · rwa [Block.map_fst_placements]
  · rwa [← places, Block.map_fst_placements]

/-- Expansion commutes with giving other labels, unless there are instructions of no known kind, and
whatever it warns about is no label. -/
theorem Block.ofLines_relabel (renames : Label.Renames f) {limit : Option Int}
    {lines : List SourceLine} {notes : List Warning} {blocks : List Block}
    (expanded : ofLines limit (Segments.ofLines lines).inOrder = ⟨notes, .ok blocks⟩)
    (known : ∀ block ∈ blocks, block.fragment.Known) :
    ∃ after, ofLines limit (Segments.ofLines (lines.map (SourceLine.relabel f))).inOrder =
        ⟨notes, .ok after⟩ ∧
      List.Forall₂ (Relabels f) blocks after ∧ notes.map (Warning.relabel f) = notes := by
  obtain ⟨groups, grouped, rfl⟩ := ofLinesFrom_eq_ok_iff.1 expanded
  have plain : ∀ line ∈ (Segments.ofLines lines).inOrder,
      isGlobalDeclaration line.text = false := by
    intro line member
    rw [Bool.eq_false_iff]
    exact fun global => (Segments.mem_ofLinesFrom_iff.1 member).2 (.inl global)
  obtain ⟨after, grouped', relabels⟩ := grouped.relabel renames plain known
  rw [SourceLine.inOrder_map_relabel renames]
  exact ⟨after.flatten, grouped'.ofLinesFrom_eq, relabels, grouped.map_relabel_warnings renames⟩

theorem Block.mem_declaredLabels {limit : Option Int} {lines : List SourceLine}
    {notes : List Warning} {blocks : List Block}
    (expanded : ofLines limit (Segments.ofLines lines).inOrder = ⟨notes, .ok blocks⟩) :
    ∀ name ∈ blocks.flatMap Block.labels, name ∈ declaredLabels lines := by
  obtain ⟨groups, grouped, rfl⟩ := ofLinesFrom_eq_ok_iff.1 expanded
  intro name member
  obtain ⟨line, hline, declares⟩ := grouped.mem_labels_iff.1 member
  exact mem_declaredLabels_iff.2 ⟨line, (Segments.mem_ofLinesFrom_iff.1 hline).1, declares⟩

/-- A source under other labels assembles to the image of the source. The labels have the same
addresses under their new names, and the warnings are the same with the new names in them. -/
theorem image_of_renamed_labels (limit : Option Int) (lines : List SourceLine) (f : Text → Text)
    (proper : ∀ name ∈ declaredLabels lines, Label.Proper (f name))
    (distinct : ∀ a ∈ declaredLabels lines, ∀ b ∈ declaredLabels lines, f a = f b → a = b)
    (image : Bytes) (assembled : (Assembly.ofLines limit lines).image = .ok image) :
    let rename := Label.rename (declaredLabels lines) f
    let before := Assembly.ofLines limit lines
    let after := Assembly.ofLines limit (lines.map (SourceLine.relabel rename))
    after.image = .ok image ∧
      after.symbols = before.symbols.map (fun (name, address) => (f name, address)) ∧
      after.warnings = before.warnings.map (Warning.relabel rename) := by
  intro rename before after
  have renames : Label.Renames rename := Label.renames_rename proper_of_mem_declaredLabels proper
  have renamed : ∀ name ∈ declaredLabels lines, rename name = f name := fun name member =>
    if_pos (List.contains_iff_mem.2 member)
  obtain ⟨notes, warnings, expanded, placed, encoded⟩ := Assembly.blocks_of_image assembled
  have old : before = _ := Assembly.ofLines_eq_of_phases expanded placed encoded
  have declared := Block.mem_declaredLabels expanded
  obtain ⟨nodup, hsymbols⟩ := SymbolTable.ofBlocks_eq_ok_iff.1 placed
  -- expansion, then addresses, then words
  obtain ⟨blocks, expanded', relabels, noted⟩ :=
    Block.ofLines_relabel renames expanded (Image.known_of_ofBlocksFrom encoded)
  have nodup' : (blocks.flatMap Block.labels).Nodup := by
    rw [Block.flatMap_labels_of_relabels relabels]
    refine nodup.map_on fun a ha b hb same => distinct a (declared a ha) b (declared b hb) ?_
    rwa [renamed a (declared a ha), renamed b (declared b hb)] at same
  have table := SymbolTable.relabels_placements relabels
    (fun name member => proper_of_mem_declaredLabels name (declared name member)) nodup'
  rw [← hsymbols] at table
  have new : after = _ := Assembly.ofLines_eq_of_phases expanded'
    (SymbolTable.ofBlocks_eq_ok_iff.2 ⟨nodup', rfl⟩)
    (Image.ofBlocksFrom_relabel renames table relabels encoded)
  refine ⟨by rw [new], ?_, ?_⟩
  · rw [new, old, hsymbols]
    refine (Block.placements_eq_of_relabels relabels 0).trans (List.map_congr_left ?_)
    rintro ⟨name, address⟩ member
    have key : name ∈ before.blocks.flatMap Block.labels := by
      rw [← Block.map_fst_placements 0]
      exact List.mem_map_of_mem member
    rw [Prod.map_apply, renamed name (declared name key)]
    rfl
  · rw [new, old, List.map_append, noted]

/-- Two labels change their names. One of them is an operand that does not fit, so the warning about
it has the other name. -/
theorem image_of_renamed_labels_swapped :
    let lines : List SourceLine :=
      [⟨"main: lw $t0, far".toText, 1⟩, ⟨"bge $t0, $t1, main".toText, 2⟩,
       ⟨"la $t1, far".toText, 3⟩, ⟨"j main".toText, 4⟩, ⟨".data".toText, 5⟩,
       ⟨".space 16".toText, 6⟩, ⟨"far: .byte 300".toText, 7⟩]
    let swap := fun name : Text =>
      if name = "main".toText then "far".toText
      else if name = "far".toText then "main".toText else name
    let rename := Label.rename (declaredLabels lines) swap
    let after := Assembly.ofLines none (lines.map (SourceLine.relabel rename))
    lines.map (SourceLine.relabel rename) =
      [⟨"far: lw $t0, main".toText, 1⟩, ⟨"bge $t0, $t1, far".toText, 2⟩,
       ⟨"la $t1, main".toText, 3⟩, ⟨"j far".toText, 4⟩, ⟨".data".toText, 5⟩,
       ⟨".space 16".toText, 6⟩, ⟨"main: .byte 300".toText, 7⟩] ∧
    (∃ image, (Assembly.ofLines none lines).image = .ok image ∧ after.image = .ok image) ∧
    after.symbols = [("far".toText, 0), ("main".toText, 65560)] ∧
    after.warnings = [⟨7, ⟨"300".toText, 8⟩⟩, ⟨1, ⟨"main".toText, 16⟩⟩] := by
  intro lines swap rename after
  have some : (Assembly.ofLines none lines).image.toOption.isSome = true := by decide +kernel
  cases assembled : (Assembly.ofLines none lines).image with
  | error failure =>
    rw [assembled] at some
    cases some
  | ok image =>
    obtain ⟨same, symbols, warnings⟩ := image_of_renamed_labels none lines swap
      (by decide +kernel) (by decide +kernel) image assembled
    refine ⟨by decide +kernel, ⟨image, rfl, same⟩, ?_, ?_⟩
    · rw [symbols]
      decide +kernel
    · rw [warnings]
      decide +kernel

end MipsImage
