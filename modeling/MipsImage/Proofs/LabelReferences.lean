import MipsImage.Proofs.HeaderAgreement
import MipsImage.Proofs.LabelRenaming
import MipsImage.Proofs.Loads
import MipsImage.Proofs.Respelling

/-!
# References to labels

A name that a header can declare is read wherever it stands as an operand, and it is neither a
number nor an offset with a register. So it stands for its own entry of a symbol table, and it is an
unknown label if the table has none. A number is a target of its own and not looked up. Alone as a
memory operand it says nothing and is looked up like a word, but no header can declare it.
-/
set_option autoImplicit false

namespace MipsImage

/-! ## Operands where they stand -/

namespace Text

theorem comma_not_mem_of_blank {blanks : Text} (h : ∀ c ∈ blanks, isBlank c = true) :
    .char ',' ∉ blanks := fun member => absurd (h _ member) (by decide)

/-- Blanks behind a text are no part of its tokens. -/
theorem map_trim_splitOn_append {blanks : Text} (h : ∀ c ∈ blanks, isBlank c = true) (t : Text) :
    (splitOn ',' (t ++ blanks)).map trim = (splitOn ',' t).map trim := by
  obtain ⟨front, last, parts, more⟩ := splitOn_append (t := t) (comma_not_mem_of_blank h)
  rw [more, parts, List.map_append, List.map_append, List.map_singleton, List.map_singleton,
    trim_append_blanks h]

theorem exists_blanks (t : Text) : ∃ left right, (∀ c ∈ left, isBlank c = true) ∧
    (∀ c ∈ right, isBlank c = true) ∧ t = left ++ (trim t ++ right) := by
  refine ⟨t.takeWhile isBlank, (t.dropWhile isBlank).rtakeWhile isBlank,
    fun c member => List.mem_takeWhile_imp member,
    fun c member => List.mem_rtakeWhile_imp member, ?_⟩
  rw [← List.append_assoc, blanks_append_trim]

end Text

theorem SourceLine.beginsBlank_trim (t : Text) : beginsBlank (Text.trim t) = false := by
  rw [← (Text.trim_eq_self_iff.1 (Text.trim_trim t)).1]
  exact beginsBlank_trimStart _

namespace Instruction

/-- A text in which a token stands as the operand at a place: behind the first word and as many
commas, with any blanks around it. -/
inductive WrittenAt (token : Text) : Nat → Text → Prop
  | intro {lead word left right : Text} {before after : List Text}
    (start : ∀ c ∈ lead, Text.isBlank c = true) (present : word ≠ [])
    (solid : SourceLine.beginsBlank word = false) (whole : .char ' ' ∉ word)
    (single : ∀ piece ∈ before ++ after, .char ',' ∉ piece)
    (front : ∀ c ∈ left, Text.isBlank c = true) (back : ∀ c ∈ right, Text.isBlank c = true) :
    WrittenAt token before.length
      (lead ++ (word ++
        .char ' ' :: Text.join [.char ','] (before ++ (left ++ (token ++ right)) :: after)))

theorem ofText_blanks_append {lead : Text} (h : ∀ c ∈ lead, Text.isBlank c = true) (t : Text) :
    ofText (lead ++ t) = ofText t := by
  rw [← ofText_trim, Text.trim_blanks_append h, ofText_trim]

section Place
variable {token t : Text} {place : Nat}

/-- An operand is read where it stands. -/
theorem WrittenAt.getElem?_operands (written : WrittenAt token place t) (own : Text.IsToken token)
    (shown : token ≠ []) : (ofText t).operands[place]? = some token := by
  obtain ⟨start, present, solid, whole, single, front, back⟩ := written
  rename_i lead word left right before after
  have begins : (word ++ [CodePoint.char ' ']).dropWhile Text.isBlank = word ++ [.char ' '] := by
    obtain ⟨c, more, rfl⟩ := List.exists_cons_of_ne_nil present
    exact SourceLine.dropWhile_of_beginsBlank solid
  have middle : .char ',' ∉ left ++ (token ++ right) := by
    rw [List.mem_append, List.mem_append, not_or, not_or]
    exact ⟨Text.comma_not_mem_of_blank front, own.single, Text.comma_not_mem_of_blank back⟩
  have pieces : ∀ piece ∈ before ++ (left ++ (token ++ right)) :: after, .char ',' ∉ piece := by
    rw [List.forall_mem_append] at single ⊢
    exact ⟨single.1, List.forall_mem_cons.2 ⟨middle, single.2⟩⟩
  have read : (before ++ (left ++ (token ++ right)) :: after).map Text.trim =
      before.map Text.trim ++ token :: after.map Text.trim := by
    rw [List.map_append, List.map_cons, Text.trim_blanks_append front, Text.trim_append_blanks back,
      own.trimmed]
  have full : before.map Text.trim ++ token :: after.map Text.trim ≠ [[]] := by
    intro empty
    have member : token ∈ [([] : Text)] := empty ▸ List.mem_append_right _ (List.mem_cons_self ..)
    exact shown (List.mem_singleton.1 member)
  rw [ofText_blanks_append start, ofText_join whole begins (by simp) pieces (by rwa [read]), read,
    List.getElem?_append_right (by simp)]
  simp

/-- A text with operands has them behind its first word. -/
theorem exists_word_of_operands (h : (ofText t).operands ≠ []) :
    ∃ lead word rest, (∀ c ∈ lead, Text.isBlank c = true) ∧ word ≠ [] ∧
      SourceLine.beginsBlank word = false ∧ .char ' ' ∉ word ∧
      t = lead ++ (word ++ .char ' ' :: rest) ∧
      (ofText t).operands = (Text.splitOn (.char ',') rest).map Text.trim := by
  unfold ofText at h ⊢
  split at h
  · exact absurd rfl h
  · rename_i word rest cut
    obtain ⟨core, whole⟩ := Text.of_cut_eq_some cut
    have begins := SourceLine.beginsBlank_trim t
    obtain ⟨lead, trail, start, stop, text⟩ := Text.exists_blanks t
    rw [core] at begins text
    obtain ⟨present, solid⟩ : word ≠ [] ∧ SourceLine.beginsBlank word = false := by
      cases word with
      | nil => cases begins
      | cons c more => exact ⟨List.cons_ne_nil _ _, begins⟩
    -- the blanks at the end of the text belong to its last operand
    refine ⟨lead, word, rest ++ trail, start, present, solid, whole, ?_, ?_⟩
    · rw [text, List.append_assoc, List.cons_append]
    · exact (Text.map_trim_splitOn_append stop rest).symm

/-- What is read as an operand stands there. -/
theorem writtenAt_of_getElem? (h : (ofText t).operands[place]? = some token) :
    WrittenAt token place t := by
  obtain ⟨lead, word, rest, start, present, solid, whole, rfl, operands⟩ :=
    exists_word_of_operands (List.ne_nil_of_mem (List.mem_of_getElem? h))
  rw [operands, List.getElem?_map] at h
  obtain ⟨piece, found, rfl⟩ := Option.map_eq_some_iff.1 h
  have pieces : Text.join [','] (Text.splitOn ',' rest) = rest := Text.join_splitOn rest
  have single : ∀ piece ∈ Text.splitOn (.char ',') rest, .char ',' ∉ piece :=
    fun piece member => Text.not_mem_of_mem_splitOn member
  obtain ⟨within, own⟩ := List.getElem?_eq_some_iff.1 found
  obtain ⟨before, after, parts, rfl, -⟩ := @List.exists_of_set _ place [] _ within
  obtain ⟨left, right, front, back, around⟩ := Text.exists_blanks piece
  rw [own] at parts
  rw [parts] at pieces single
  rw [List.forall_mem_append, List.forall_mem_cons] at single
  have others := List.forall_mem_append.2 ⟨single.1, single.2.2⟩
  rw [← pieces]
  conv in piece :: after => rw [around]
  exact .intro start present solid whole others front back

end Place

end Instruction

/-! ## Names that can be declared -/

namespace Label

/-- A name that a header declares, in a raw line or in a line that is assembled. -/
def Declarable (name : Text) : Prop :=
  (∃ raw, name ∈ (SourceLine.parts (SourceLine.uncomment raw)).1) ∨ ∃ line, name ∈ (split line).1

variable {name : Text}

theorem exists_mem_parts_iff :
    (∃ raw, name ∈ (SourceLine.parts (SourceLine.uncomment raw)).1) ↔ Proper name := by
  constructor
  · rintro ⟨raw, member⟩
    exact (SourceLine.isNormal_parts_uncomment raw).proper name member
  · intro proper
    refine ⟨name ++ ([] ++ .char ':' :: []), ?_⟩
    rw [SourceLine.uncomment_header proper (List.forall_mem_nil _),
      SourceLine.parts_header proper (List.forall_mem_nil _)]
    exact List.mem_cons_self ..

theorem exists_mem_split_iff : (∃ line, name ∈ (split line).1) ↔ Proper name := by
  constructor
  · rintro ⟨line, member⟩
    exact SourceLine.proper_of_headers (headers_split line) name member
  · intro proper
    obtain ⟨raw, member⟩ := exists_mem_parts_iff.2 proper
    rw [← SourceLine.split_normalise] at member
    exact ⟨SourceLine.normalise raw, member⟩

/-- Both readers of headers accept the same names. -/
theorem declarable_iff : Declarable name ↔ Proper name := by
  rw [Declarable, exists_mem_parts_iff, exists_mem_split_iff, or_self]

theorem Proper.isName (proper : Proper name) : isName name = true := by
  have scanned := @scan?_append name [] proper (by simp)
  rw [List.append_nil] at scanned
  rw [Label.isName, scanned]
  rfl

theorem Proper.isInteger_eq_false (proper : Proper name) : isInteger name = false := by
  rw [isInteger, proper.ofToken?_eq_none]
  rfl

theorem Proper.resolveTarget_eq_error {symbols : SymbolTable} (proper : Proper name)
    (missing : symbols.lookup name = none) :
    symbols.resolveTarget name = .error (.fault (.unknownLabel name)) := by
  rw [SymbolTable.resolveTarget, proper.isInteger_eq_false, missing, proper.isName]
  rfl

end Label

/-! ## Words in a symbol table -/

namespace SymbolTable

section Bare
variable {symbols : SymbolTable} {token : Text} (bare : indexed? token = none)
include bare

/-- A memory operand without a register is what the table has under it. -/
theorem resolveMemory_of_lookup {address : Int} (found : symbols.lookup token = some address) :
    symbols.resolveMemory token = .ok (Register.zero, address) := by
  rw [resolveMemory, bare, found]

theorem resolveMemory_of_lookup_none (missing : symbols.lookup token = none) :
    symbols.resolveMemory token = .error (.fault (.invalidMemoryOperand token)) := by
  rw [resolveMemory, bare, missing]

end Bare

theorem indexed?_eq_none_of_isInteger {token : Text} (integer : isInteger token = true) :
    indexed? token = none :=
  indexed?_eq_none_of_plain (not_mem_of_isInteger integer (by decide) (by decide))

/-- No number has an entry in a table of names that can be declared. -/
theorem lookup_eq_none_of_isInteger {symbols : SymbolTable} {token : Text}
    (names : ∀ entry ∈ symbols, Label.Declarable entry.1) (integer : isInteger token = true) :
    symbols.lookup token = none := by
  rw [Option.eq_none_iff_forall_ne_some]
  intro address found
  have declarable := names _ (mem_of_lookup found)
  exact not_proper_of_isInteger integer (Label.declarable_iff.1 declarable)

end SymbolTable

/-- The symbol table of a source has no names but those that its headers declare. -/
theorem Assembly.declarable_of_mem_symbols {limit : Option Int} {lines : List SourceLine} :
    ∀ entry ∈ (ofLines limit lines).symbols, Label.Declarable entry.1 := by
  intro entry member
  unfold ofLines at member
  rcases expanded : Block.ofLines limit (Segments.ofLines lines).inOrder with ⟨notes, result⟩
  cases result with
  | error failure =>
    simp only [expanded] at member
    cases member
  | ok blocks =>
    cases placed : SymbolTable.ofBlocks blocks with
    | error failure =>
      simp only [expanded, placed] at member
      cases member
    | ok symbols =>
      simp only [expanded, placed] at member
      obtain ⟨-, rfl⟩ := SymbolTable.ofBlocks_eq_ok_iff.1 placed
      have carried := List.mem_map_of_mem (f := Prod.fst) member
      rw [Block.map_fst_placements] at carried
      have declared := Block.mem_declaredLabels expanded _ carried
      exact Label.declarable_iff.2 (proper_of_mem_declaredLabels _ declared)

/-! ## References -/

/-- Whatever a header can declare is an operand where it stands as one, and stands for its entry of
the symbol table; without an entry it is an unknown label, and it is no memory operand. A number is
never looked up as a target. As a memory operand it is looked up, but it has no entry in any table
of names that can be declared, as the tables of all sources are. -/
theorem labels_referenced (symbols : SymbolTable) :
    (∀ name, Label.Declarable name →
      (∀ (place : Nat) t, (Instruction.ofText t).operands[place]? = some name ↔
        Instruction.WrittenAt name place t) ∧
      isInteger name = false ∧ SymbolTable.indexed? name = none ∧
      (∀ address, symbols.lookup name = some address →
        symbols.resolveTarget name = .ok address ∧
        symbols.resolveMemory name = .ok (Register.zero, address)) ∧
      (symbols.lookup name = none →
        symbols.resolveTarget name = .error (.fault (.unknownLabel name)) ∧
        symbols.resolveMemory name = .error (.fault (.invalidMemoryOperand name)))) ∧
    (∀ token, isInteger token = true →
      symbols.resolveTarget token = readInteger token ∧
      (∀ address, symbols.lookup token = some address →
        symbols.resolveMemory token = .ok (Register.zero, address)) ∧
      (symbols.lookup token = none →
        symbols.resolveMemory token = .error (.fault (.invalidMemoryOperand token))) ∧
      ((∀ entry ∈ symbols, Label.Declarable entry.1) → symbols.lookup token = none)) ∧
    ∀ limit lines, ∀ entry ∈ (Assembly.ofLines limit lines).symbols,
      Label.Declarable entry.1 := by
  refine ⟨fun name declarable => ?_, fun token integer => ?_,
    fun _ _ => Assembly.declarable_of_mem_symbols⟩
  · have proper := Label.declarable_iff.1 declarable
    have bare := proper.indexed?_eq_none
    refine ⟨fun place t => ⟨Instruction.writtenAt_of_getElem?, ?_⟩, proper.isInteger_eq_false,
      bare, ?_, ?_⟩
    · intro written
      exact written.getElem?_operands proper.isToken proper.ne_nil
    · intro address found
      exact ⟨proper.resolveTarget_eq found, SymbolTable.resolveMemory_of_lookup bare found⟩
    · intro missing
      exact ⟨proper.resolveTarget_eq_error missing,
        SymbolTable.resolveMemory_of_lookup_none bare missing⟩
  · have bare := SymbolTable.indexed?_eq_none_of_isInteger integer
    exact ⟨SymbolTable.resolveTarget_of_isInteger integer,
      fun address => SymbolTable.resolveMemory_of_lookup bare,
      SymbolTable.resolveMemory_of_lookup_none bare,
      fun names => SymbolTable.lookup_eq_none_of_isInteger names integer⟩

/-- A name with letters and digits beyond ASCII from a raw line, which is a branch target and a
memory operand; in the same table a number is refused as a memory operand. -/
theorem labels_referenced_accented :
    let name := "_é.٣".toText
    let branch := " BNE $t0 ,$zero,\t_é.٣ ".toText
    let symbols : SymbolTable := [("main".toText, 0), (name, 64)]
    let number := " -0x1F".toText
    Label.Declarable name ∧ Instruction.WrittenAt name 2 branch ∧
    symbols.lookup name = some 64 ∧
    symbols.resolveTarget name = .ok 64 ∧
    symbols.resolveMemory name = .ok (Register.zero, 64) ∧
    ([] : SymbolTable).lookup name = none ∧
    SymbolTable.resolveTarget [] name = .error (.fault (.unknownLabel name)) ∧
    SymbolTable.resolveMemory [] name = .error (.fault (.invalidMemoryOperand name)) ∧
    isInteger number = true ∧ (∀ entry ∈ symbols, Label.Declarable entry.1) ∧
    symbols.resolveTarget number = .ok (-31) ∧
    symbols.resolveMemory number = .error (.fault (.invalidMemoryOperand number)) := by
  intro name branch symbols number
  have declarable : Label.Declarable name := .inl ⟨"_é.٣ : # here".toText, by decide +kernel⟩
  have main : Label.Declarable "main".toText := .inr ⟨"main: nop".toText, by decide +kernel⟩
  have names : ∀ entry ∈ symbols, Label.Declarable entry.1 := by
    rw [List.forall_mem_cons, List.forall_mem_singleton]
    exact ⟨main, declarable⟩
  have found : symbols.lookup name = some 64 := by decide +kernel
  have integer : isInteger number = true := by decide +kernel
  obtain ⟨labels, numbers, -⟩ := labels_referenced symbols
  obtain ⟨operands, -, -, bound, -⟩ := labels name declarable
  obtain ⟨target, memory⟩ := bound 64 found
  obtain ⟨-, -, -, -, free⟩ := (labels_referenced []).1 name declarable
  obtain ⟨unknown, refused⟩ := free rfl
  obtain ⟨value, -, missing, none⟩ := numbers number integer
  exact ⟨declarable, (operands 2 branch).1 (by decide +kernel), found, target, memory, rfl, unknown,
    refused, integer, names, value.trans (by decide +kernel), missing (none names)⟩

/-- A number is looked up as a memory operand, and an entry under it is found in a table that has
one. As a target it is the number. -/
theorem number_looked_up :
    let number := "5".toText
    isInteger number = true ∧
    SymbolTable.resolveMemory [(number, 999)] number = .ok (Register.zero, 999) ∧
    SymbolTable.resolveMemory [] number = .error (.fault (.invalidMemoryOperand number)) ∧
    SymbolTable.resolveTarget [(number, 999)] number = .ok 5 := by
  intro number
  exact ⟨by decide +kernel, by rfl, by rfl, by rfl⟩

end MipsImage
