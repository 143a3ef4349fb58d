import Mathlib.Data.List.Sort
import MipsImage.Assembler
import MipsImage.Proofs.LabelBinding
import MipsImage.Proofs.Numerals

/-!
# What stops a source

A source is stopped by the first line that cannot be expanded where it stands; or, if there is
none, by the first label that is declared again; or, if all labels differ, by the first instruction
that cannot be encoded. What was warned about before is kept.
-/
set_option autoImplicit false

namespace MipsImage

/-! ## Encoding block by block -/

namespace Image

variable {symbols : SymbolTable}

/-- These blocks can be encoded, with these warnings. -/
inductive Encoded (symbols : SymbolTable) : List Block → List Warning → Prop
  | nil : Encoded symbols [] []
  | word {block : Block} {rest : List Block} {text : Text} {half : Option Half}
    {notes : List Truncation} {word : Word} {warnings : List Warning}
    (instruction : block.fragment = .instruction text half)
    (encoded : encode symbols half text = ⟨notes, .ok word⟩)
    (more : Encoded symbols rest warnings) :
    Encoded symbols (block :: rest) (notes.map (Warning.mk block.line) ++ warnings)
  | filling {block : Block} {rest : List Block} {warnings : List Warning}
    (still : ∀ text half, block.fragment ≠ .instruction text half)
    (more : Encoded symbols rest warnings) : Encoded symbols (block :: rest) warnings

theorem piece_of_instruction {emitted : Nat} {block : Block} {text : Text} {half : Option Half}
    (instruction : block.fragment = .instruction text half) :
    piece symbols emitted block =
      (Outcome.atLine block.line (encode symbols half text)).bind fun word =>
        Outcome.ok (Bytes.bigEndian 4 word.toNat) := by
  rw [piece, instruction]

theorem piece_of_filling {emitted : Nat} {block : Block}
    (still : ∀ text half, block.fragment ≠ .instruction text half) :
    piece symbols emitted block =
      Outcome.ok (filling (addedSize emitted block.fragment) block.fragment) := by
  unfold piece
  split
  · rename_i text half instruction
    exact absurd instruction (still text half)
  · rfl

theorem Encoded.ofBlocksFrom_eq {blocks : List Block} {warnings : List Warning}
    (encoded : Encoded symbols blocks warnings) (emitted : Nat) :
    ∃ image, ofBlocksFrom symbols emitted blocks = ⟨warnings, .ok image⟩ := by
  induction encoded generalizing emitted with
  | nil => exact ⟨[], rfl⟩
  | @word block _ _ _ _ _ _ instruction encoded _ ih =>
    obtain ⟨image, more⟩ := ih (emitted + addedSize emitted block.fragment)
    rw [ofBlocksFrom_cons, piece_of_instruction instruction, encoded, more, Outcome.atLine_ok]
    simp [Outcome.bind, Outcome.ok]
  | @filling block _ _ still _ ih =>
    obtain ⟨image, more⟩ := ih (emitted + addedSize emitted block.fragment)
    rw [ofBlocksFrom_cons, piece_of_filling still, more, Outcome.ok_bind]
    simp [Outcome.bind, Outcome.ok]

theorem ofBlocksFrom_cons_of_failed {emitted : Nat} {block : Block} {text : Text}
    {half : Option Half} {notes : List Truncation} {cause : Failure Fault}
    (instruction : block.fragment = .instruction text half)
    (failed : encode symbols half text = ⟨notes, .error cause⟩) (rest : List Block) :
    ofBlocksFrom symbols emitted (block :: rest) =
      ⟨notes.map (Warning.mk block.line), .error (cause.map (LocatedFault.mk block.line))⟩ := by
  rw [ofBlocksFrom_cons, piece_of_instruction instruction, failed]
  rfl

/-- Blocks can be encoded, or one of them is the first that cannot. -/
theorem encoded_or_failed (symbols : SymbolTable) (blocks : List Block) :
    (∃ warnings, Encoded symbols blocks warnings) ∨
      ∃ before block after warnings text half notes cause, blocks = before ++ block :: after ∧
        Encoded symbols before warnings ∧ block.fragment = .instruction text half ∧
        encode symbols half text = ⟨notes, .error cause⟩ := by
  induction blocks with
  | nil => exact .inl ⟨[], .nil⟩
  | cons block rest ih =>
    by_cases still : ∀ text half, block.fragment ≠ .instruction text half
    · rcases ih with ⟨warnings, encoded⟩ |
        ⟨before, other, after, warnings, text, half, notes, cause, rfl, encoded, failed⟩
      · exact .inl ⟨warnings, .filling still encoded⟩
      · exact .inr ⟨block :: before, other, after, warnings, text, half, notes, cause, rfl,
          .filling still encoded, failed⟩
    · push Not at still
      obtain ⟨text, half, instruction⟩ := still
      rcases h : encode symbols half text with ⟨notes, result⟩
      cases result with
      | error cause =>
        exact .inr ⟨[], block, rest, [], text, half, notes, cause, rfl, .nil, instruction, h⟩
      | ok word =>
        rcases ih with ⟨warnings, encoded⟩ |
          ⟨before, other, after, warnings, _, _, later, cause, rfl, encoded, failed⟩
        · exact .inl ⟨_, .word instruction h encoded⟩
        · exact .inr ⟨block :: before, other, after, _, _, _, later, cause, rfl,
            .word instruction h encoded, failed⟩

/-- Encoding fails exactly with the first instruction that cannot be encoded. -/
theorem ofBlocks_eq_error_iff {blocks : List Block} {warnings : List Warning}
    {failure : Failure LocatedFault} :
    ofBlocks symbols blocks = ⟨warnings, .error failure⟩ ↔
      ∃ before block after first text half notes cause, blocks = before ++ block :: after ∧
        Encoded symbols before first ∧ block.fragment = .instruction text half ∧
        encode symbols half text = ⟨notes, .error cause⟩ ∧
        warnings = first ++ notes.map (Warning.mk block.line) ∧
        failure = cause.map (LocatedFault.mk block.line) := by
  have stops {before after : List Block} {block : Block} {first : List Warning} {text : Text}
      {half : Option Half} {notes : List Truncation} {cause : Failure Fault}
      (encoded : Encoded symbols before first)
      (instruction : block.fragment = .instruction text half)
      (failed : encode symbols half text = ⟨notes, .error cause⟩) :
      ofBlocks symbols (before ++ block :: after) =
        ⟨first ++ notes.map (Warning.mk block.line),
          .error (cause.map (LocatedFault.mk block.line))⟩ := by
    obtain ⟨image, start⟩ := encoded.ofBlocksFrom_eq 0
    rw [ofBlocks, ofBlocksFrom_append, start, ofBlocksFrom_cons_of_failed instruction failed]
    rfl
  constructor
  · intro h
    rcases encoded_or_failed symbols blocks with ⟨first, encoded⟩ |
      ⟨before, block, after, first, text, half, notes, cause, rfl, encoded, instruction, failed⟩
    · obtain ⟨image, whole⟩ := encoded.ofBlocksFrom_eq 0
      rw [ofBlocks, whole] at h
      cases h
    · rw [stops encoded instruction failed] at h
      cases h
      exact ⟨before, block, after, first, text, half, notes, cause, rfl, encoded, instruction,
        failed, rfl, rfl⟩
  · rintro ⟨before, block, after, first, text, half, notes, cause, rfl, encoded, instruction,
      failed, rfl, rfl⟩
    exact stops encoded instruction failed

end Image

/-! ## Declarations -/

/-- Every label that lines declare with the number of its line. -/
def SourceLine.declarations (lines : List SourceLine) : List (Text × Int) :=
  lines.flatMap fun line => (Label.split line.text).1.map (·, line.number)

namespace Block

theorem declarations_append (front back : List Block) :
    declarations (front ++ back) = declarations front ++ declarations back :=
  List.flatMap_append

theorem map_fst_declarations (blocks : List Block) :
    (declarations blocks).map Prod.fst = blocks.flatMap Block.labels := by
  induction blocks with
  | nil => rfl
  | cons block rest ih =>
    rw [declarations, List.flatMap_cons, List.map_append, List.map_map, List.flatMap_cons]
    exact congrArg₂ (· ++ ·) (List.map_id block.labels) ih

theorem declarations_ofFragments {line : Int} {names : List Text} {fragments : List Fragment}
    (some : fragments ≠ []) : declarations (ofFragments line names fragments) =
      names.map (·, line) := by
  cases fragments with
  | nil => exact absurd rfl some
  | cons first rest =>
    have bare : declarations (rest.map fun fragment => ⟨line, [], fragment⟩) = [] := by
      simp [declarations]
    unfold declarations at bare ⊢
    rw [ofFragments, List.flatMap_cons, bare, List.append_nil]

/-- Expansion keeps the declarations of the lines. -/
theorem Grouped.declarations_eq {limit : Option Int} {address : Int} {lines : List SourceLine}
    {groups : List (List Block)} {warnings : List Warning}
    (grouped : Grouped limit address lines groups warnings) :
    declarations groups.flatten = SourceLine.declarations lines := by
  induction grouped with
  | nil => rfl
  | @cons _ line _ names _ _ _ _ expands _ _ ih =>
    have headers : (Label.split line.text).1 = names := by
      cases expands with
      | labels headers | body headers _ _ => rw [Label.split_eq_iff.2 headers]
    rw [List.flatten_cons, declarations_append, ih,
      declarations_ofFragments expands.fragments_ne_nil, SourceLine.declarations,
      SourceLine.declarations, List.flatMap_cons, headers]

theorem declaredLines_eq_iff {blocks : List Block} {name : Text} {numbers : List Int} :
    declaredLines blocks name = numbers ↔ numbers.Pairwise (· ≤ ·) ∧
      numbers.Perm (((declarations blocks).filter (·.1 = name)).map Prod.snd) := by
  have sorted : (declaredLines blocks name).Pairwise (· ≤ ·) :=
    List.pairwise_mergeSort' (· ≤ ·) _
  have same : (declaredLines blocks name).Perm
      (((declarations blocks).filter (·.1 = name)).map Prod.snd) := List.mergeSort_perm _ _
  constructor
  · rintro rfl
    exact ⟨sorted, same⟩
  · rintro ⟨ascending, perm⟩
    exact (same.trans perm.symm).eq_of_pairwise (fun _ _ _ _ => Int.le_antisymm) sorted ascending

end Block

/-- The label that is the first to be declared again, and the lines of all its declarations. -/
structure Repeated (declarations : List (Text × Int)) (name : Text) (numbers : List Int) :
    Prop where
  again : ∃ front number back, declarations = front ++ (name, number) :: back ∧
    (front.map Prod.fst).Nodup ∧ name ∈ front.map Prod.fst
  ascending : numbers.Pairwise (· ≤ ·)
  all : numbers.Perm ((declarations.filter (·.1 = name)).map Prod.snd)

/-- A label that is declared again has two lines at least. -/
theorem Repeated.exists_cons {declarations : List (Text × Int)} {name : Text} {numbers : List Int}
    (repeated : Repeated declarations name numbers) :
    ∃ first second more, numbers = first :: second :: more := by
  obtain ⟨front, number, back, rfl, -, member⟩ := repeated.again
  have length := repeated.all.length_eq
  obtain ⟨entry, hentry, hname⟩ := List.mem_map.1 member
  have positive : 0 < (front.filter (·.1 = name)).length :=
    List.length_pos_of_mem (List.mem_filter.2 ⟨hentry, decide_eq_true hname⟩)
  rw [List.length_map, List.filter_append, List.length_append,
    List.filter_cons_of_pos (by simp), List.length_cons] at length
  match numbers with
  | [] | [_] =>
    simp only [List.length_nil, List.length_singleton] at length
    omega
  | first :: second :: more => exact ⟨first, second, more, rfl⟩

theorem SymbolTable.ofBlocks_eq_error_iff_repeated {blocks : List Block}
    {failure : Failure LocatedFault} :
    ofBlocks blocks = .error failure ↔
      ∃ name first second more,
        Repeated (Block.declarations blocks) name (first :: second :: more) ∧
        failure = .fault ⟨second, .duplicateLabel name (first :: second :: more)⟩ := by
  rw [ofBlocks_eq_error_iff]
  simp only [firstRepeat?_eq_some_iff, firstRepeat?_eq_none_iff, ← Block.map_fst_declarations]
  constructor
  · rintro ⟨name, ⟨front, back, names, ⟨distinct, -⟩, member⟩, rfl⟩
    obtain ⟨entries, later, heq, rfl, hlater⟩ := List.map_eq_append_iff.1 names
    obtain ⟨⟨_, number⟩, after, rfl, rfl, rfl⟩ := List.map_eq_cons_iff.1 hlater
    have seen := member.resolve_right List.not_mem_nil
    obtain ⟨ascending, all⟩ :=
      Block.declaredLines_eq_iff.1 (Eq.refl (Block.declaredLines blocks _))
    have repeated : Repeated (Block.declarations blocks) _ _ :=
      ⟨⟨entries, number, after, heq, distinct, seen⟩, ascending, all⟩
    obtain ⟨first, second, more, hnumbers⟩ := repeated.exists_cons
    rw [hnumbers] at repeated ⊢
    exact ⟨_, first, second, more, repeated, rfl⟩
  · rintro ⟨name, first, second, more, repeated, rfl⟩
    obtain ⟨front, number, back, heq, distinct, member⟩ := repeated.again
    have fresh : ∀ other ∈ front.map Prod.fst, other ∉ [] := fun _ _ => List.not_mem_nil
    refine ⟨name, ⟨front.map Prod.fst, back.map Prod.fst, ?_, ⟨distinct, fresh⟩, .inl member⟩, ?_⟩
    · rw [heq, List.map_append, List.map_cons]
    · rw [Block.declaredLines_eq_iff.2 ⟨repeated.ascending, repeated.all⟩]
      rfl

/-! ## A whole source -/

/-- What stops lines that are in the order of the image, with all warnings up to there. -/
inductive Assembly.Stops (limit : Option Int) (order : List SourceLine) :
    List Warning → Failure LocatedFault → Prop
  | line {before after : List SourceLine} {line : SourceLine} {groups : List (List Block)}
    {first : List Warning} {notes : List Truncation} {cause : Failure Fault}
    (lines : order = before ++ line :: after)
    (grouped : Block.Grouped limit 0 before groups first)
    (refused : line.Refused limit (endOf 0 groups.flatten) notes cause) :
    Stops limit order (first ++ notes.map (Warning.mk line.number))
      (cause.map (LocatedFault.mk line.number))
  | label {groups : List (List Block)} {warnings : List Warning} {name : Text}
    {first second : Int} {more : List Int} (grouped : Block.Grouped limit 0 order groups warnings)
    (repeated : Repeated (SourceLine.declarations order) name (first :: second :: more)) :
    Stops limit order warnings (.fault ⟨second, .duplicateLabel name (first :: second :: more)⟩)
  | instruction {groups : List (List Block)} {warnings later : List Warning}
    {before after : List Block} {block : Block} {text : Text} {half : Option Half}
    {notes : List Truncation} {cause : Failure Fault}
    (grouped : Block.Grouped limit 0 order groups warnings)
    (distinct : ((SourceLine.declarations order).map Prod.fst).Nodup)
    (blocks : groups.flatten = before ++ block :: after)
    (encoded : Image.Encoded (Block.placements 0 groups.flatten) before later)
    (instruction : block.fragment = .instruction text half)
    (failed : encode (Block.placements 0 groups.flatten) half text = ⟨notes, .error cause⟩) :
    Stops limit order (warnings ++ (later ++ notes.map (Warning.mk block.line)))
      (cause.map (LocatedFault.mk block.line))

namespace Block

variable {limit : Option Int} {address : Int} {lines : List SourceLine}
  {groups : List (List Block)} {warnings : List Warning}

theorem Grouped.exists_line (grouped : Grouped limit address lines groups warnings) {block : Block}
    (member : block ∈ groups.flatten) :
    ∃ line ∈ lines, block.line = line.number ∧
      ∃ names fragments notes, line.Expands limit names fragments notes ∧
        block.fragment ∈ fragments := by
  induction grouped with
  | nil => cases member
  | @cons _ line _ names fragments notes _ _ expands _ _ ih =>
    rcases List.mem_append.1 member with own | later
    · obtain ⟨first, others, hgroup, -, hgroupOf⟩ := groupOf_of_expands expands
      have mapped := map_fragment_ofFragments line.number names fragments
      refine ⟨line, List.mem_cons_self .., hgroupOf.number block (hgroup ▸ own), names, fragments,
        notes, expands, ?_⟩
      rw [← mapped]
      exact List.mem_map_of_mem own
    · obtain ⟨other, member, rest⟩ := ih later
      exact ⟨other, List.mem_cons_of_mem line member, rest⟩

/-- The instructions of lines without long numerals have none either. -/
theorem Grouped.short (grouped : Grouped limit address lines groups warnings)
    (short : ∀ line ∈ lines, Numeral.AllShort line.numerals) {block : Block}
    (member : block ∈ groups.flatten) {text : Text} {half : Option Half}
    (instruction : block.fragment = .instruction text half) :
    Numeral.AllShort (Instruction.ofText text).numerals := by
  obtain ⟨line, hline, -, names, fragments, notes, expands, hfragment⟩ :=
    grouped.exists_line member
  rw [instruction] at hfragment
  exact expands.short (short line hline) text half hfragment

end Block

namespace Assembly

variable {limit : Option Int} {lines : List SourceLine} {warnings : List Warning}
  {failure : Failure LocatedFault}

theorem stops_iff : Stops limit (Segments.ofLines lines).inOrder warnings failure ↔
    (ofLines limit lines).warnings = warnings ∧ (ofLines limit lines).image = .error failure := by
  constructor
  · intro stops
    unfold ofLines
    cases stops with
    | line order grouped refused =>
      rw [order, Block.ofLines, grouped.ofLinesFrom_append_refused refused]
      exact ⟨rfl, rfl⟩
    | label grouped repeated =>
      rw [← grouped.declarations_eq] at repeated
      have failed := SymbolTable.ofBlocks_eq_error_iff_repeated.2 ⟨_, _, _, _, repeated, rfl⟩
      simp only [Block.ofLines, grouped.ofLinesFrom_eq, failed, and_self]
    | @instruction groups _ _ _ _ _ _ _ _ _ grouped distinct blocks encoded instruction failed =>
      rw [← grouped.declarations_eq, Block.map_fst_declarations] at distinct
      have placed := SymbolTable.ofBlocks_eq_ok_iff.2 ⟨distinct, rfl⟩
      have stopped := Image.ofBlocks_eq_error_iff.2
        ⟨_, _, _, _, _, _, _, _, blocks, encoded, instruction, failed, rfl, rfl⟩
      simp only [Block.ofLines, grouped.ofLinesFrom_eq, placed, stopped, and_self]
  · rintro ⟨rfl, h⟩
    -- the first of the three steps that fails decides
    unfold ofLines at h ⊢
    rcases hblocks : Block.ofLines limit (Segments.ofLines lines).inOrder with ⟨notes, result⟩
    cases result with
    | error cause =>
      simp only [hblocks] at h ⊢
      cases h
      obtain ⟨_, _, _, _, _, _, _, order, grouped, refused, rfl, rfl⟩ :=
        Block.ofLinesFrom_eq_error_iff.1 hblocks
      exact .line order grouped refused
    | ok blocks =>
      obtain ⟨groups, grouped, rfl⟩ := Block.ofLinesFrom_eq_ok_iff.1 hblocks
      cases hsymbols : SymbolTable.ofBlocks groups.flatten with
      | error cause =>
        simp only [hblocks, hsymbols] at h ⊢
        cases h
        obtain ⟨_, _, _, _, repeated, rfl⟩ :=
          SymbolTable.ofBlocks_eq_error_iff_repeated.1 hsymbols
        rw [grouped.declarations_eq] at repeated
        exact .label grouped repeated
      | ok symbols =>
        obtain ⟨distinct, rfl⟩ := SymbolTable.ofBlocks_eq_ok_iff.1 hsymbols
        rw [← Block.map_fst_declarations, grouped.declarations_eq] at distinct
        rcases himage : Image.ofBlocks (Block.placements 0 groups.flatten) groups.flatten with
          ⟨later, result⟩
        simp only [hblocks, hsymbols, himage] at h ⊢
        subst h
        obtain ⟨_, _, _, _, _, _, _, _, hblocks, encoded, instruction, failed, rfl, rfl⟩ :=
          Image.ofBlocks_eq_error_iff.1 himage
        exact .instruction grouped distinct hblocks encoded instruction failed

/-- Whatever stops a source lies in one of its lines. -/
theorem Stops.exists_line {order : List SourceLine} {fault : LocatedFault}
    (stops : Stops limit order warnings (.fault fault)) :
    ∃ line ∈ order, fault.line = line.number := by
  generalize hfailure : Failure.fault fault = failure at stops
  cases stops with
  | @line before after line _ _ _ cause order grouped refused =>
    cases cause with
    | conversion cause => cases hfailure
    | fault cause =>
      cases hfailure
      exact ⟨line, by simp [order], rfl⟩
  | @label _ _ name first second more grouped repeated =>
    cases hfailure
    -- the line that is named is the second one that declares the label
    have member : second ∈ first :: second :: more :=
      List.mem_cons_of_mem first (List.mem_cons_self ..)
    obtain ⟨entry, hentry, rfl⟩ := List.mem_map.1 (repeated.all.mem_iff.1 member)
    obtain ⟨line, hline, declared⟩ := List.mem_flatMap.1 (List.mem_of_mem_filter hentry)
    obtain ⟨_, -, rfl⟩ := List.mem_map.1 declared
    exact ⟨line, hline, rfl⟩
  | @instruction groups _ _ before after block _ _ _ cause grouped _ blocks _ _ _ =>
    cases cause with
    | conversion cause => cases hfailure
    | fault cause =>
      cases hfailure
      have member : block ∈ groups.flatten := by simp [blocks]
      obtain ⟨line, hline, number, -⟩ := grouped.exists_line member
      exact ⟨line, hline, number⟩

/-- These lone surrogates are what the first refused line stumbles on. -/
inductive StopsAtString (limit : Option Int) (order : List SourceLine) (run : SurrogateRun) : Prop
  | intro {before after : List SourceLine} {line : SourceLine} {groups : List (List Block)}
    {first : List Warning} (lines : order = before ++ line :: after)
    (grouped : Block.Grouped limit 0 before groups first) (string : line.Unencodable run)

/-- Lines without long numerals are stopped by a fault or by a string. -/
theorem Stops.stopsAtString {order : List SourceLine} {cause : Unconvertible}
    (stops : Stops limit order warnings (.conversion cause))
    (short : ∀ line ∈ order, Numeral.AllShort line.numerals) :
    ∃ run, cause = .surrogates run ∧ StopsAtString limit order run := by
  generalize hfailure : Failure.conversion cause = failure at stops
  cases stops with
  | @line before after line _ _ notes reason order grouped refused =>
    cases refused with
    | size => cases hfailure
    | body headers present failed =>
      cases reason with
      | fault reason => cases hfailure
      | conversion reason =>
        cases hfailure
        obtain ⟨run, string, rfl⟩ := expandLine_conversion headers
          (short line (by simp [order])) (congrArg Outcome.result failed)
        exact ⟨run, rfl, .intro order grouped string⟩
  | label grouped repeated => cases hfailure
  | @instruction groups _ _ before after block text half _ reason grouped _ blocks _ instruction
      failed =>
    cases reason with
    | fault reason => cases hfailure
    | conversion reason =>
      have member : block ∈ groups.flatten := by simp [blocks]
      have own := grouped.short short member instruction
      have convertible := encode_convertible own (Block.placements 0 groups.flatten) half
      exact absurd (by rw [failed]) (convertible reason)

end Assembly

/-- Lines whose numerals can all be converted are assembled unless something stops them, and a fault
is reported in its line and under the name of the file, after the warnings up to there. A string
with a lone surrogate stops them as well, in the order of the image like any other line, but then
nothing tells the line. -/
theorem errors_in_phase_order (a : Assembler) (lines : List SourceLine) (file : Text)
    (short : ∀ line ∈ lines, Numeral.AllShort line.numerals) :
    let run := a.assembleLines lines file
    let order := (Segments.ofLines lines).inOrder
    (∀ failure, run.2 = .error failure ↔
      ∃ warnings, Assembly.Stops a.limit order warnings failure) ∧
    (∀ warnings failure, Assembly.Stops a.limit order warnings failure →
      run.1.warnings = warnings.map (·.report (some file))) ∧
    (∀ warnings fault, Assembly.Stops a.limit order warnings (.fault fault) →
      (∃ line ∈ lines, fault.line = line.number) ∧
      ∃ report, (Assembly.ofLines a.limit lines).report (some file) = .ok report ∧
        report.errors = [⟨some file, some fault.line, fault.fault.message⟩] ∧
        report.warnings = run.1.warnings) ∧
    ∀ warnings cause, Assembly.Stops a.limit order warnings (.conversion cause) →
      (∃ surrogates, cause = .surrogates surrogates ∧
        Assembly.StopsAtString a.limit order surrogates) ∧
      (Assembly.ofLines a.limit lines).report (some file) = .error cause := by
  intro run order
  have ordered : ∀ line ∈ order, line ∈ lines := fun line member =>
    (Segments.mem_ofLinesFrom_iff.1 member).1
  refine ⟨fun failure => ⟨fun failed => ⟨_, Assembly.stops_iff.2 ⟨rfl, failed⟩⟩, ?_⟩,
    fun warnings failure stops => ?_, fun warnings fault stops => ?_,
    fun warnings cause stops => ?_⟩
  · rintro ⟨warnings, stops⟩
    exact (Assembly.stops_iff.1 stops).2
  · rw [← (Assembly.stops_iff.1 stops).1]
    rfl
  · obtain ⟨line, member, number⟩ := stops.exists_line
    refine ⟨⟨line, ordered line member, number⟩, ?_⟩
    unfold Assembly.report
    rw [(Assembly.stops_iff.1 stops).2]
    exact ⟨_, rfl, rfl, rfl⟩
  · refine ⟨stops.stopsAtString fun line member => short line (ordered line member), ?_⟩
    unfold Assembly.report
    rw [(Assembly.stops_iff.1 stops).2]

/-- A lone surrogate in a string stops a line, and what is raised is no fault with a line. -/
theorem errors_in_phase_order_lone_surrogate :
    let line : SourceLine := ⟨".ascii \"".toText ++ [.surrogate 0] ++ "\"".toText, 1⟩
    let run := (Assembler.new none).assembleLines [line] "p.s".toText
    Numeral.AllShort line.numerals ∧ (∃ failure, run.2 = .error failure) ∧
      ∀ fault, run.2 ≠ .error (.fault fault) := by
  intro line run
  have short : ∀ n ∈ line.numerals, n.isOverlong = false := by decide +kernel
  have failed : (Assembly.ofLines none [line]).image =
      .error (.conversion (.surrogates ⟨0, 0, 1⟩)) := by
    decide +kernel
  refine ⟨short, ⟨_, failed⟩, fun fault h => ?_⟩
  cases failed.symm.trans h

/-- A line of the data segment, which comes first in the source, is cut when it is expanded, one of
the text segment when it is encoded, and then a label is missing. -/
theorem errors_in_phase_order_missing_label :
    let lines : List SourceLine :=
      [⟨".data".toText, 1⟩, ⟨"value: .byte 300".toText, 2⟩, ⟨".text".toText, 3⟩,
       ⟨"addi $t0, $0, 70000".toText, 4⟩, ⟨"j nowhere".toText, 5⟩]
    let run := (Assembler.new none).assembleLines lines "p.s".toText
    let fault : LocatedFault := ⟨5, .unknownLabel "nowhere".toText⟩
    let warnings : List Warning := [⟨2, "300".toText, 8⟩, ⟨4, "70000".toText, 16⟩]
    (∀ line ∈ lines, Numeral.AllShort line.numerals) ∧
    run.2 = .error (.fault fault) ∧
    Assembly.Stops none (Segments.ofLines lines).inOrder warnings (.fault fault) ∧
    run.1.warnings = warnings.map (·.report (some "p.s".toText)) ∧
    ∃ line ∈ lines, fault.line = line.number := by
  intro lines run fault warnings
  have short : ∀ line ∈ lines, ∀ n ∈ line.numerals, n.isOverlong = false := by decide +kernel
  have failed : (Assembly.ofLines none lines).image = .error (.fault fault) := by decide +kernel
  have warned : (Assembly.ofLines none lines).warnings = warnings := by decide +kernel
  have stops := Assembly.stops_iff.2 ⟨warned, failed⟩
  obtain ⟨raised, kept, located, -⟩ :=
    errors_in_phase_order (Assembler.new none) lines "p.s".toText short
  exact ⟨short, (raised _).2 ⟨warnings, stops⟩, stops, kept _ _ stops,
    (located warnings fault stops).1⟩

end MipsImage
