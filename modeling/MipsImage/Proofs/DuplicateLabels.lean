import MipsImage.Proofs.PhaseOrder

/-!
# Labels that are declared twice

Labels get addresses unless one of them stands twice among all labels of the blocks. Then that label
is reported which is the first to stand again in the order of the image, and with it the lines of
all its declarations in the order of the source: there are two of them at least, and the second one
is blamed.
-/
set_option autoImplicit false

namespace MipsImage

/-! ## Repetitions -/

/-- A name stands at two places, and nothing is repeated before the later one of them. -/
def RepeatsFirst (names : List Text) (name : Text) : Prop :=
  ∃ first second : Nat, first < second ∧ names[first]? = some name ∧ names[second]? = some name ∧
    ∀ (other : Text) (earlier later : Nat), earlier < later → names[earlier]? = some other →
      names[later]? = some other → second ≤ later

theorem repeatsFirst_iff {names : List Text} {name : Text} :
    RepeatsFirst names name ↔
      ∃ front back, names = front ++ name :: back ∧ front.Nodup ∧ name ∈ front := by
  constructor
  · rintro ⟨first, second, before, hfirst, hsecond, least⟩
    obtain ⟨within, own⟩ := List.getElem?_eq_some_iff.1 hsecond
    refine ⟨names.take second, names.drop (second + 1), ?_, ?_, ?_⟩
    · rw [← own, ← List.drop_eq_getElem_cons within, List.take_append_drop]
    · rw [List.nodup_iff_getElem?_ne_getElem?]
      intro earlier later order short same
      rw [List.length_take] at short
      have inside : later < second := by omega
      rw [List.getElem?_take_of_lt (by omega), List.getElem?_take_of_lt inside] at same
      have found : names[later]? = some names[later] := List.getElem?_eq_getElem (by omega)
      have late := least _ earlier later order (same.trans found) found
      omega
    · exact List.mem_of_getElem? ((List.getElem?_take_of_lt before).trans hfirst)
  · rintro ⟨front, back, rfl, distinct, member⟩
    obtain ⟨first, within, own⟩ := List.getElem_of_mem member
    refine ⟨first, front.length, within, ?_, ?_, ?_⟩
    · rw [List.getElem?_append_left within, List.getElem?_eq_getElem within, own]
    · rw [List.getElem?_append_right (Nat.le_refl _), Nat.sub_self, List.getElem?_cons_zero]
    · intro other earlier later order hearlier hlater
      by_contra early
      rw [List.getElem?_append_left (by omega)] at hearlier hlater
      exact List.nodup_iff_getElem?_ne_getElem?.1 distinct earlier later order (by omega)
        (hearlier.trans hlater.symm)

theorem firstRepeat?_eq_some_iff_repeatsFirst {names : List Text} {name : Text} :
    firstRepeat? [] names = some name ↔ RepeatsFirst names name := by
  rw [firstRepeat?_eq_some_iff, repeatsFirst_iff]
  simp only [firstRepeat?_eq_none_iff, List.not_mem_nil, not_false_eq_true, implies_true, and_true,
    or_false]

theorem nodup_iff_count_le {names : List Text} :
    ¬names.Nodup ↔ ∃ name, 2 ≤ names.count name := by
  rw [List.nodup_iff_count_le_one, not_forall]
  exact exists_congr fun name => Nat.not_le

/-! ## Lines of declarations -/

namespace Block

/-- How often a line declares a label. -/
def timesDeclared (blocks : List Block) (name : Text) (number : Int) : Nat :=
  ((blocks.filter (·.line = number)).map (·.labels.count name)).sum

theorem timesDeclared_cons (block : Block) (rest : List Block) (name : Text) (number : Int) :
    timesDeclared (block :: rest) name number =
      (if block.line = number then block.labels.count name else 0) +
        timesDeclared rest name number := by
  unfold timesDeclared
  by_cases own : block.line = number
  · rw [List.filter_cons_of_pos (by simpa using own), if_pos own, List.map_cons, List.sum_cons]
  · rw [List.filter_cons_of_neg (by simpa using own), if_neg own, Nat.zero_add]

theorem count_labels (labels : List Text) (line : Int) (name : Text) (number : Int) :
    (((labels.map (·, line)).filter (·.1 = name)).map Prod.snd).count number =
      if line = number then labels.count name else 0 := by
  induction labels with
  | nil => simp
  | cons label rest ih =>
    by_cases same : label = name
    · subst same
      rw [List.map_cons, List.filter_cons_of_pos (by simp), List.map_cons, List.count_cons, ih,
        List.count_cons_self]
      split_ifs <;> simp_all
    · rw [List.map_cons, List.filter_cons_of_neg (by simpa using same), ih,
        List.count_cons_of_ne same]

theorem count_declarations (blocks : List Block) (name : Text) (number : Int) :
    (((declarations blocks).filter (·.1 = name)).map Prod.snd).count number =
      timesDeclared blocks name number := by
  induction blocks with
  | nil => rfl
  | cons block rest ih =>
    rw [timesDeclared_cons, ← ih, ← count_labels, ← List.count_append, ← List.map_append,
      ← List.filter_append]
    rfl

theorem declaredLines_eq_iff_count {blocks : List Block} {name : Text} {numbers : List Int} :
    declaredLines blocks name = numbers ↔ numbers.Pairwise (· ≤ ·) ∧
      ∀ number, numbers.count number = timesDeclared blocks name number := by
  rw [declaredLines_eq_iff, List.perm_iff_count]
  simp only [count_declarations]

/-- A label is reported with the lines of all its declarations, the second of which is blamed. -/
structure Duplicate (blocks : List Block) (name : Text) (numbers : List Int) (line : Int) :
    Prop where
  again : RepeatsFirst (blocks.flatMap labels) name
  ascending : numbers.Pairwise (· ≤ ·)
  all : ∀ number, numbers.count number = timesDeclared blocks name number
  several : 2 ≤ numbers.length
  second : numbers[1]? = some line

end Block

/-! ## Reports -/

theorem SymbolTable.ofBlocks_eq_error_iff_duplicate {blocks : List Block}
    {failure : Failure LocatedFault} :
    ofBlocks blocks = .error failure ↔ ∃ name numbers line,
      Block.Duplicate blocks name numbers line ∧
        failure = .fault ⟨line, .duplicateLabel name numbers⟩ := by
  constructor
  · intro h
    obtain ⟨name, first, second, more, repeated, rfl⟩ := ofBlocks_eq_error_iff_repeated.1 h
    obtain ⟨front, number, back, heq, distinct, member⟩ := repeated.again
    have names := congrArg (List.map Prod.fst) heq
    rw [Block.map_fst_declarations, List.map_append, List.map_cons] at names
    have all := Block.declaredLines_eq_iff.2 ⟨repeated.ascending, repeated.all⟩
    obtain ⟨ascending, count⟩ := Block.declaredLines_eq_iff_count.1 all
    refine ⟨name, first :: second :: more, second, ⟨?_, ascending, count, ?_, rfl⟩, rfl⟩
    · exact repeatsFirst_iff.2 ⟨_, _, names, distinct, member⟩
    · exact Nat.le_add_left 2 more.length
  · rintro ⟨name, numbers, line, duplicate, rfl⟩
    rw [ofBlocks_eq_error_iff]
    refine ⟨name, firstRepeat?_eq_some_iff_repeatsFirst.2 duplicate.again, ?_⟩
    rw [Block.declaredLines_eq_iff_count.2 ⟨duplicate.ascending, duplicate.all⟩,
      duplicate.second]
    rfl

theorem SymbolTable.exists_error_iff {blocks : List Block} :
    (∃ failure, ofBlocks blocks = .error failure) ↔
      ∃ name, 2 ≤ (blocks.flatMap Block.labels).count name := by
  rw [← nodup_iff_count_le]
  constructor
  · rintro ⟨failure, h⟩ distinct
    rw [ofBlocks_eq_ok_iff.2 ⟨distinct, rfl⟩] at h
    cases h
  · intro repeated
    cases h : ofBlocks blocks with
    | error failure => exact ⟨failure, rfl⟩
    | ok table => exact absurd (ofBlocks_eq_ok_iff.1 h).1 repeated

/-- Blocks are refused exactly if a label stands twice among them, with the label that is the first
to stand again and the lines of all its declarations; otherwise each label that stands anywhere has
an entry of its own, with the address of its block. -/
theorem duplicate_labels_reported (blocks : List Block) :
    ((∃ failure, SymbolTable.ofBlocks blocks = .error failure) ↔
      ∃ name, 2 ≤ (blocks.flatMap Block.labels).count name) ∧
    (∀ failure, SymbolTable.ofBlocks blocks = .error failure ↔ ∃ name numbers line,
      Block.Duplicate blocks name numbers line ∧
        failure = .fault ⟨line, .duplicateLabel name numbers⟩) ∧
    ∀ table, SymbolTable.ofBlocks blocks = .ok table →
      table.map Prod.fst = blocks.flatMap Block.labels ∧
      ∀ i (h : i < blocks.length), ∀ name ∈ blocks[i].labels,
        table.lookup name = some (Block.address blocks i) := by
  refine ⟨SymbolTable.exists_error_iff,
    fun _ => SymbolTable.ofBlocks_eq_error_iff_duplicate, ?_⟩
  intro table placed
  obtain ⟨distinct, rfl⟩ := SymbolTable.ofBlocks_eq_ok_iff.1 placed
  refine ⟨Block.map_fst_placements 0 blocks, fun i h name member => ?_⟩
  rw [← Block.map_fst_placements 0 blocks] at distinct
  exact SymbolTable.lookup_eq_some_of_mem distinct
    (Block.mem_placements_iff.2 ⟨i, h, member, rfl⟩)

/-- The data segment is written first, and one line declares the label twice. -/
theorem duplicate_labels_reported_data_first :
    let distinct : List Block :=
      [⟨7, ["b".toText, "a".toText], .data [1]⟩, ⟨9, ["c".toText], .align 4⟩]
    let blocks : List Block := distinct ++
      [⟨9, ["a".toText], .data []⟩, ⟨2, ["b".toText, "a".toText, "a".toText], .data [5]⟩]
    let table : SymbolTable := [("b".toText, 0), ("a".toText, 0), ("c".toText, 1)]
    Block.Duplicate blocks "a".toText [2, 2, 7, 9] 2 ∧
      2 ≤ (blocks.flatMap Block.labels).count "a".toText ∧
      SymbolTable.ofBlocks distinct = .ok table ∧
      table.lookup "c".toText = some (Block.address distinct 1) := by
  intro distinct blocks table
  have lines : Block.declaredLines blocks "a".toText = [2, 2, 7, 9] :=
    Block.declaredLines_eq_iff.2 ⟨by decide, by decide⟩
  have failed : SymbolTable.ofBlocks blocks =
      .error (.fault ⟨2, .duplicateLabel "a".toText [2, 2, 7, 9]⟩) := by
    refine SymbolTable.ofBlocks_eq_error_iff.2 ⟨"a".toText, by decide, ?_⟩
    rw [lines]
    rfl
  have placed : SymbolTable.ofBlocks distinct = .ok table := by rfl
  obtain ⟨_, _, _, duplicate, same⟩ := ((duplicate_labels_reported blocks).2.1 _).1 failed
  cases same
  obtain ⟨-, found⟩ := (duplicate_labels_reported distinct).2.2 table placed
  exact ⟨duplicate, by decide, placed, found 1 (by decide) _ (List.mem_singleton_self _)⟩

end MipsImage
