import MipsImage.Proofs.LineBlocks
import MipsImage.Proofs.SizeLimit

/-!
# Where labels are bound

Expansion keeps the lines apart: every line becomes a group of blocks of its own, the first of which
carries all labels of the line. So a label names the address at which its line begins, which is
where the lines before it end, and the symbol table has the labels of the source and no others.
-/
set_option autoImplicit false

namespace MipsImage

/-! ## Groups -/

/-- A line whose headers name this label. -/
def SourceLine.Declares (line : SourceLine) (name : Text) : Prop :=
  ∃ names body, Label.Headers line.text names body ∧ name ∈ names

theorem SourceLine.declares_iff {line : SourceLine} {name : Text} :
    line.Declares name ↔ name ∈ (Label.split line.text).1 := by
  constructor
  · rintro ⟨names, body, headers, member⟩
    rw [Label.split_eq_iff.2 headers]
    exact member
  · intro member
    exact ⟨_, _, Label.headers_split line.text, member⟩

namespace Block

/-- The blocks of one line. They stand for its body, or for no bytes at all if it has none, and the
first of them carries its labels. -/
structure GroupOf (limit : Option Int) (line : SourceLine) (first : Block) (others : List Block) :
    Prop where
  number : ∀ block ∈ first :: others, block.line = line.number
  labels : ∃ body, Label.Headers line.text first.labels body ∧
    (body = [] → first.fragment = .data [] ∧ others = []) ∧
    (body ≠ [] → ∃ notes,
      expandLine limit body = ⟨notes, .ok ((first :: others).map Block.fragment)⟩)
  unlabelled : ∀ block ∈ others, block.labels = []

end Block

theorem expandLine_ne_nil {limit : Option Int} {t : Text} {notes : List Truncation}
    {fragments : List Fragment} (h : expandLine limit t = ⟨notes, .ok fragments⟩) :
    fragments ≠ [] := by
  unfold expandLine at h
  split at h
  · obtain ⟨fragment, _, _, -, hlist, -⟩ := Outcome.bind_eq_ok_iff.1 h
    cases hlist
    exact List.cons_ne_nil _ _
  · exact (expandInstruction_becomes (Outcome.ofExcept_eq_ok_iff.1 h).1).ne_nil

theorem SourceLine.Expands.fragments_ne_nil {limit : Option Int} {line : SourceLine}
    {names : List Text} {fragments : List Fragment} {notes : List Truncation}
    (expands : line.Expands limit names fragments notes) : fragments ≠ [] := by
  cases expands with
  | labels _ => exact List.cons_ne_nil _ _
  | body _ _ expanded => exact expandLine_ne_nil expanded

namespace Block

theorem groupOf_of_expands {limit : Option Int} {line : SourceLine} {names : List Text}
    {fragments : List Fragment} {notes : List Truncation}
    (expands : line.Expands limit names fragments notes) :
    ∃ first others, ofFragments line.number names fragments = first :: others ∧
      first.labels = names ∧ GroupOf limit line first others := by
  have whole := map_fragment_ofFragments line.number names fragments
  cases fragments with
  | nil => exact absurd rfl expands.fragments_ne_nil
  | cons fragment rest =>
    refine ⟨_, _, rfl, rfl, ?_, ?_, ?_⟩
    · intro block member
      rcases List.mem_cons.1 member with rfl | member
      · rfl
      · obtain ⟨_, -, rfl⟩ := List.mem_map.1 member
        rfl
    · cases expands with
      | labels headers => exact ⟨[], headers, fun _ => ⟨rfl, rfl⟩, fun h => absurd rfl h⟩
      | body headers present expanded =>
        refine ⟨_, headers, fun h => absurd h present, fun _ => ⟨notes, ?_⟩⟩
        rw [expanded]
        exact congrArg (fun fragments => (⟨notes, .ok fragments⟩ : Encoding _)) whole.symm
    · intro block member
      obtain ⟨_, -, rfl⟩ := List.mem_map.1 member
      rfl

/-! ## Groups of a run -/

section Run
variable {limit : Option Int} {address : Int} {lines : List SourceLine}
  {groups : List (List Block)} {warnings : List Warning}

theorem Grouped.forall₂_groupOf (grouped : Grouped limit address lines groups warnings) :
    List.Forall₂ (fun line group =>
      ∃ first others, group = first :: others ∧ GroupOf limit line first others) lines groups := by
  induction grouped with
  | nil => exact .nil
  | cons expands _ _ ih =>
    obtain ⟨first, others, hgroup, -, hgroupOf⟩ := groupOf_of_expands expands
    exact .cons ⟨first, others, hgroup, hgroupOf⟩ ih

theorem Grouped.proper (grouped : Grouped limit address lines groups warnings) :
    ∀ block ∈ groups.flatten, block.fragment.Proper := by
  induction grouped with
  | nil =>
    intro block member
    cases member
  | cons expands _ _ ih =>
    intro block member
    rcases List.mem_append.1 member with own | later
    · exact ofLine_proper (ofLine_eq_ok_iff.2 ⟨_, _, _, expands, rfl, rfl⟩) block own
    · exact ih block later

theorem Grouped.mem_labels_iff (grouped : Grouped limit address lines groups warnings)
    {name : Text} :
    name ∈ groups.flatten.flatMap Block.labels ↔ ∃ line ∈ lines, line.Declares name := by
  induction grouped with
  | nil => simp
  | @cons _ line rest names _ _ _ _ expands _ _ ih =>
    obtain ⟨first, others, hgroup, rfl, hgroupOf⟩ := groupOf_of_expands expands
    obtain ⟨body, headers, -, -⟩ := hgroupOf.labels
    have own : line.Declares name ↔ name ∈ first.labels := by
      rw [SourceLine.declares_iff, Label.split_eq_iff.2 headers]
    have bare : others.flatMap Block.labels = [] := List.flatMap_eq_nil_iff.2 hgroupOf.unlabelled
    rw [hgroup, List.flatten_cons, List.flatMap_append, List.flatMap_cons, bare, List.append_nil,
      List.mem_append, ih, ← own]
    simp

/-- The group of a line stands after those of the lines before it. -/
theorem Grouped.split {before after : List SourceLine} {line : SourceLine}
    (grouped : Grouped limit address (before ++ line :: after) groups warnings) :
    ∃ front names fragments notes back first,
      groups = front ++ ofFragments line.number names fragments :: back ∧
      Grouped limit address before front first ∧ line.Expands limit names fragments notes := by
  induction before generalizing address groups warnings with
  | nil =>
    cases grouped with
    | cons expands fits more => exact ⟨[], _, _, _, _, [], rfl, .nil, expands⟩
  | cons other before ih =>
    cases grouped with
    | cons expands fits more =>
      obtain ⟨front, names, fragments, notes, back, first, rfl, earlier, own⟩ := ih more
      exact ⟨_ :: front, names, fragments, notes, back, _, rfl, .cons expands fits earlier, own⟩

/-- A label that is declared once has the address at which the lines before its own end. -/
theorem Grouped.lookup_placements {before after : List SourceLine} {line : SourceLine}
    {name : Text} (grouped : Grouped limit 0 (before ++ line :: after) groups warnings)
    (distinct : (groups.flatten.flatMap Block.labels).Nodup) (declares : line.Declares name) :
    ∃ front first, Grouped limit 0 before front first ∧
      (placements 0 groups.flatten).lookup name = some (endOf 0 front.flatten) ∧
      0 ≤ endOf 0 front.flatten ∧ endOf 0 front.flatten ≤ endOf 0 groups.flatten := by
  have proper := grouped.proper
  obtain ⟨front, names, fragments, notes, back, first, rfl, earlier, expands⟩ := grouped.split
  obtain ⟨block, others, hgroup, rfl, hgroupOf⟩ := groupOf_of_expands expands
  obtain ⟨body, headers, -, -⟩ := hgroupOf.labels
  have carried : name ∈ block.labels := by
    rw [SourceLine.declares_iff, Label.split_eq_iff.2 headers] at declares
    exact declares
  -- the block with the labels stands right behind the groups in front
  rw [hgroup, List.flatten_append, List.flatten_cons, List.cons_append] at distinct proper ⊢
  refine ⟨front, first, earlier, ?_, le_endOf 0 _ earlier.proper, ?_⟩
  · rw [← map_fst_placements 0] at distinct
    apply SymbolTable.lookup_eq_some_of_mem distinct
    refine mem_placements_iff.2 ⟨front.flatten.length, by simp, ?_, ?_⟩
    · rw [List.getElem_append_right (le_refl _)]
      simpa using carried
    · rw [List.take_left]
  · rw [endOf_append]
    exact le_endOf _ _ fun other member => proper other (List.mem_append_right _ member)

end Run

end Block

/-! ## Segments -/

/-- A line that only steers the division into segments. -/
def SourceLine.Steers (line : SourceLine) : Prop :=
  isGlobalDeclaration line.text = true ∨ line.text = ".data".toText ∨ line.text = ".text".toText

theorem Segments.mem_ofLinesFrom_iff {inData : Bool} {lines : List SourceLine} {line : SourceLine} :
    line ∈ (ofLinesFrom inData lines).inOrder ↔ line ∈ lines ∧ ¬line.Steers := by
  have steered {other : SourceLine} (h : other.Steers) {rest : List SourceLine} :
      line ∈ other :: rest ∧ ¬line.Steers ↔ line ∈ rest ∧ ¬line.Steers := by
    rw [List.mem_cons, or_and_right, or_iff_right]
    rintro ⟨rfl, free⟩
    exact free h
  induction lines generalizing inData with
  | nil => simp [ofLinesFrom, inOrder]
  | cons other rest ih =>
    rw [ofLinesFrom]
    split
    · rename_i global
      exact ih.trans (steered (.inl global)).symm
    · rename_i global
      split
      · rename_i data
        exact ih.trans (steered (.inr (.inl data))).symm
      · rename_i data
        split
        · rename_i text
          exact ih.trans (steered (.inr (.inr text))).symm
        · rename_i text
          have free : ¬other.Steers := by
            rintro (h | h | h)
            · exact global h
            · exact data h
            · exact text h
          have here : line = other → ¬line.Steers := fun h => h ▸ free
          have later := @ih inData
          unfold inOrder at later ⊢
          cases inData <;>
            simp only [if_true, if_false, Bool.false_eq_true, List.cons_append, List.mem_cons,
              List.mem_append] at later ⊢ <;>
            tauto

/-- A directive begins with a point and so declares nothing. -/
theorem SourceLine.Steers.not_declares {line : SourceLine} (steers : line.Steers) (name : Text) :
    ¬line.Declares name := by
  have point : ∃ rest, line.text = .char '.' :: rest := by
    rcases steers with global | data | text
    · unfold isGlobalDeclaration at global
      rw [Bool.or_eq_true, List.isPrefixOf_iff_prefix, List.isPrefixOf_iff_prefix] at global
      rcases global with ⟨rest, h⟩ | ⟨rest, h⟩
      · exact ⟨_, h.symm⟩
      · exact ⟨_, h.symm⟩
    · exact ⟨_, data⟩
    · exact ⟨_, text⟩
  obtain ⟨rest, htext⟩ := point
  have none : Label.header? line.text = none := by
    rw [htext, Label.header?, Label.scan?, if_neg (by decide)]
  rintro ⟨names, body, headers, member⟩
  cases headers with
  | body _ => cases member
  | header first _ =>
    rw [Label.header?_eq_some_iff.2 first] at none
    cases none

/-! ## A whole source -/

theorem SymbolTable.exists_lookup_iff {symbols : SymbolTable}
    (distinct : (symbols.map Prod.fst).Nodup) {name : Text} :
    (∃ place, symbols.lookup name = some place) ↔ name ∈ symbols.map Prod.fst := by
  constructor
  · rintro ⟨place, h⟩
    exact List.mem_map_of_mem (mem_of_lookup h)
  · intro h
    obtain ⟨⟨_, place⟩, member, rfl⟩ := List.mem_map.1 h
    exact ⟨place, lookup_eq_some_of_mem distinct member⟩

theorem Assembly.grouped_of_image {limit : Option Int} {lines : List SourceLine} {image : Bytes}
    (h : (ofLines limit lines).image = .ok image) :
    ∃ groups warnings, Block.Grouped limit 0 (Segments.ofLines lines).inOrder groups warnings ∧
      (groups.flatten.flatMap Block.labels).Nodup ∧
      (ofLines limit lines).symbols = Block.placements 0 groups.flatten ∧
      (image.length : Int) = endOf 0 groups.flatten := by
  obtain ⟨_, _, expanded, placed, encoded⟩ := blocks_of_image h
  obtain ⟨groups, grouped, hblocks⟩ := Block.ofLinesFrom_eq_ok_iff.1 expanded
  rw [hblocks] at placed encoded
  obtain ⟨distinct, hsymbols⟩ := SymbolTable.ofBlocks_eq_ok_iff.1 placed
  exact ⟨groups, _, grouped, distinct, hsymbols, Image.ofBlocks_length grouped.proper encoded⟩

/-- Expansion neither loses, repeats nor moves labels, and in the image of a source they stand where
the lines before their own end. -/
theorem labels_bound (limit : Option Int) (lines : List SourceLine) :
    (∀ warnings blocks, Block.ofLines limit lines = ⟨warnings, .ok blocks⟩ →
      ∃ groups : List (List Block), blocks = groups.flatten ∧
        List.Forall₂ (fun line group => ∃ first others, group = first :: others ∧
          Block.GroupOf limit line first others) lines groups) ∧
    ∀ image, (Assembly.ofLines limit lines).image = .ok image →
      let symbols := (Assembly.ofLines limit lines).symbols
      (symbols.map Prod.fst).Nodup ∧
      (∀ name, (∃ place, symbols.lookup name = some place) ↔
        ∃ line ∈ lines, line.Declares name) ∧
      ∀ before line after name, (Segments.ofLines lines).inOrder = before ++ line :: after →
        line.Declares name →
        ∃ blocks warnings, Block.ofLines limit before = ⟨warnings, .ok blocks⟩ ∧
          symbols.lookup name = some (endOf 0 blocks) ∧
          0 ≤ endOf 0 blocks ∧ endOf 0 blocks ≤ image.length := by
  constructor
  · intro warnings blocks expanded
    obtain ⟨groups, grouped, rfl⟩ := Block.ofLinesFrom_eq_ok_iff.1 expanded
    exact ⟨groups, rfl, grouped.forall₂_groupOf⟩
  · intro image assembled symbols
    obtain ⟨groups, _, grouped, distinct, hsymbols, length⟩ := Assembly.grouped_of_image assembled
    have table : symbols = Block.placements 0 groups.flatten := hsymbols
    have keys : symbols.map Prod.fst = groups.flatten.flatMap Block.labels := by
      rw [table, Block.map_fst_placements]
    refine ⟨by rwa [keys], ?_, ?_⟩
    · intro name
      rw [SymbolTable.exists_lookup_iff (by rwa [keys]), keys, grouped.mem_labels_iff]
      -- lines that steer the division into segments are left out, but they declare nothing
      constructor
      · rintro ⟨line, member, declares⟩
        exact ⟨line, (Segments.mem_ofLinesFrom_iff.1 member).1, declares⟩
      · rintro ⟨line, member, declares⟩
        exact ⟨line, Segments.mem_ofLinesFrom_iff.2
          ⟨member, fun steers => steers.not_declares name declares⟩, declares⟩
    · intro before line after name order declares
      rw [order] at grouped
      obtain ⟨front, first, earlier, found, lower, upper⟩ :=
        grouped.lookup_placements distinct declares
      rw [← table] at found
      exact ⟨front.flatten, first, earlier.ofLinesFrom_eq, found, lower, upper.trans length.ge⟩

/-- The data segment is written first, `li` takes two words and one label stands on no bytes. -/
theorem labels_bound_data_first :
    let lines : List SourceLine :=
      [⟨".data".toText, 1⟩, ⟨"value: .byte 5".toText, 2⟩, ⟨".text".toText, 3⟩,
       ⟨"start: main: li $t0, 1".toText, 4⟩, ⟨"stop:".toText, 5⟩]
    let order := (Segments.ofLines lines).inOrder
    let image : Bytes := [0x3c, 0x01, 0, 0, 0x34, 0x28, 0, 1, 5]
    let symbols := (Assembly.ofLines none lines).symbols
    (Assembly.ofLines none lines).image = .ok image ∧
    (∃ groups : List (List Block), (Assembly.ofLines none lines).blocks = groups.flatten ∧
      List.Forall₂ (fun line group => ∃ first others, group = first :: others ∧
        Block.GroupOf none line first others) order groups) ∧
    ((∃ place, symbols.lookup "main".toText = some place) ↔
      ∃ line ∈ lines, line.Declares "main".toText) ∧
    ∃ blocks warnings,
      Block.ofLines none [⟨"start: main: li $t0, 1".toText, 4⟩, ⟨"stop:".toText, 5⟩] =
        ⟨warnings, .ok blocks⟩ ∧
      symbols.lookup "value".toText = some (endOf 0 blocks) ∧ endOf 0 blocks = 8 := by
  intro lines order image symbols
  have assembled : (Assembly.ofLines none lines).image = .ok image := by decide +kernel
  obtain ⟨_, _, expanded, -, -⟩ := Assembly.blocks_of_image assembled
  obtain ⟨-, keys, addresses⟩ := (labels_bound none lines).2 image assembled
  have declares : SourceLine.Declares ⟨"value: .byte 5".toText, 2⟩ "value".toText :=
    SourceLine.declares_iff.2 (by decide +kernel)
  obtain ⟨blocks, warnings, before, found, -, -⟩ :=
    addresses [⟨"start: main: li $t0, 1".toText, 4⟩, ⟨"stop:".toText, 5⟩] _ [] _
      (by decide +kernel) declares
  have address : symbols.lookup "value".toText = some 8 := by decide +kernel
  refine ⟨assembled, (labels_bound none order).1 _ _ expanded, keys _, blocks, warnings, before,
    found, ?_⟩
  exact Option.some.inj (found.symm.trans address)

end MipsImage
