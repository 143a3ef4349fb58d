import MipsImage.Assembler
import MipsImage.Proofs.LineLimit

/-!
# The size limit

The limit only filters: a source is assembled as without a limit, or it is refused in the first line
that asks for too much or after which the image is too large. Addresses never decrease, so the image
is too large after some line exactly if it is too large in the end.
-/
set_option autoImplicit false

namespace MipsImage

namespace Block

/-! ## Lines one after another -/

/-- These blocks, placed from `address` on, end above `most`, or a directive asks for more. -/
def Outgrow (most : Nat) (address : Int) (blocks : List Block) : Prop :=
  Asks most blocks ∨ most < endOf address blocks

instance (most : Nat) (address : Int) (blocks : List Block) :
    Decidable (Outgrow most address blocks) :=
  inferInstanceAs (Decidable (Asks most blocks ∨ most < endOf address blocks))

theorem ofLinesFrom_none_cons (address : Int) (line : SourceLine) (rest : List SourceLine) :
    ofLinesFrom none address (line :: rest) =
      (ofLine none line).bind fun own =>
        (ofLinesFrom none (endOf address own) rest).bind fun more => Outcome.ok (own ++ more) := by
  simp only [ofLinesFrom, checkLimit, Outcome.bind_eq, Outcome.pure_eq_ok, Outcome.ok_bind]

theorem ofLinesFrom_none_cons_eq_ok_iff {address : Int} {line : SourceLine}
    {rest : List SourceLine} {warnings : List Warning} {blocks : List Block} :
    ofLinesFrom none address (line :: rest) = ⟨warnings, .ok blocks⟩ ↔
      ∃ own more first second, ofLine none line = ⟨first, .ok own⟩ ∧
        ofLinesFrom none (endOf address own) rest = ⟨second, .ok more⟩ ∧
        blocks = own ++ more ∧ warnings = first ++ second := by
  rw [ofLinesFrom_none_cons, Outcome.bind_eq_ok_iff]
  constructor
  · rintro ⟨own, first, _, hown, hrest, rfl⟩
    obtain ⟨more, second, _, hmore, happend, rfl⟩ := Outcome.bind_eq_ok_iff.1 hrest
    cases happend
    exact ⟨own, more, first, second, hown, hmore, rfl, by rw [List.append_nil]⟩
  · rintro ⟨own, more, first, second, hown, hmore, rfl, rfl⟩
    refine ⟨own, first, second, hown, ?_, rfl⟩
    exact Outcome.bind_eq_ok_iff.2 ⟨more, second, [], hmore, rfl, (List.append_nil _).symm⟩

/-- With a limit the run stops in a line that outgrows it and goes on as before after any other. -/
theorem ofLinesFrom_some_cons (most : Nat) (address : Int) (line : SourceLine)
    (rest : List SourceLine) :
    ofLinesFrom (some most) address (line :: rest) =
      (ofLine none line).bind fun own =>
        if Outgrow most address own then
          Outcome.fail (.fault ⟨line.number, .imageTooLarge most⟩)
        else
          (ofLinesFrom (some most) (endOf address own) rest).bind fun more =>
            Outcome.ok (own ++ more) := by
  simp only [ofLinesFrom, checkLimit, ofLine_some, Outcome.bind_eq, Outcome.pure_eq_ok,
    Outcome.bind_assoc]
  congr 1
  funext own
  by_cases asks : Asks most own
  · simp only [asks, Outgrow, if_true, true_or, Outcome.fail_bind]
  · by_cases above : (most : Int) < endOf address own
    · simp only [asks, above, Outgrow, if_true, if_false, or_true, Outcome.ok_bind,
        Outcome.fail_bind]
    · simp only [asks, above, Outgrow, if_false, or_self, Outcome.ok_bind]

/-- The line with this index outgrows the limit, and there is nothing wrong with it or the lines
before it. -/
def Outgrown (most : Nat) (address : Int) (lines : List SourceLine) (i : Nat) (line : SourceLine) :
    Prop :=
  lines[i]? = some line ∧ ∃ before own first second,
    ofLinesFrom none address (lines.take i) = ⟨first, .ok before⟩ ∧
    ofLine none line = ⟨second, .ok own⟩ ∧ Outgrow most (endOf address before) own

section Outgrown
variable {most : Nat} {address : Int} {line : SourceLine} {rest : List SourceLine}

theorem not_outgrown_of_error {warnings : List Warning} {failure : Failure LocatedFault}
    (h : ofLine none line = ⟨warnings, .error failure⟩) (i : Nat) (other : SourceLine) :
    ¬Outgrown most address (line :: rest) i other := by
  rintro ⟨hi, before, own, first, second, hbefore, hown, -⟩
  cases i with
  | zero =>
    cases hi
    rw [h] at hown
    cases hown
  | succ i =>
    rw [List.take_succ_cons, ofLinesFrom_none_cons, h] at hbefore
    cases hbefore

theorem outgrown_zero_iff {warnings : List Warning} {own : List Block}
    (h : ofLine none line = ⟨warnings, .ok own⟩) (other : SourceLine) :
    Outgrown most address (line :: rest) 0 other ↔ other = line ∧ Outgrow most address own := by
  constructor
  · rintro ⟨hi, before, blocks, _, _, hbefore, hblocks, outgrow⟩
    cases hi
    cases hbefore
    rw [h] at hblocks
    cases hblocks
    exact ⟨rfl, outgrow⟩
  · rintro ⟨rfl, outgrow⟩
    exact ⟨rfl, [], own, [], warnings, rfl, h, outgrow⟩

theorem outgrown_succ_iff {warnings : List Warning} {own : List Block}
    (h : ofLine none line = ⟨warnings, .ok own⟩) (i : Nat) (other : SourceLine) :
    Outgrown most address (line :: rest) (i + 1) other ↔
      Outgrown most (endOf address own) rest i other := by
  have start (more : List Block) : endOf (endOf address own) more = endOf address (own ++ more) :=
    (endOf_append address own more).symm
  unfold Outgrown
  rw [List.getElem?_cons_succ, List.take_succ_cons]
  constructor
  · rintro ⟨hi, before, blocks, _, second, hbefore, hblocks, outgrow⟩
    obtain ⟨first, more, _, _, hown, hmore, rfl, -⟩ := ofLinesFrom_none_cons_eq_ok_iff.1 hbefore
    rw [h] at hown
    cases hown
    exact ⟨hi, more, blocks, _, second, hmore, hblocks, by rw [start]; exact outgrow⟩
  · rintro ⟨hi, more, blocks, first, second, hmore, hblocks, outgrow⟩
    rw [start] at outgrow
    exact ⟨hi, own ++ more, blocks, warnings ++ first, second,
      ofLinesFrom_none_cons_eq_ok_iff.2 ⟨own, more, warnings, first, h, hmore, rfl, rfl⟩,
      hblocks, outgrow⟩

/-- Without a line that outgrows the limit a run is as without a limit, and otherwise it stops in
the first such line. -/
theorem ofLinesFrom_some (most : Nat) (address : Int) (lines : List SourceLine) :
    (∀ i line, ¬Outgrown most address lines i line) ∧
        ofLinesFrom (some most) address lines = ofLinesFrom none address lines ∨
      ∃ i line, Outgrown most address lines i line ∧
        (∀ j < i, ∀ other, ¬Outgrown most address lines j other) ∧
        (ofLinesFrom (some most) address lines).result =
          .error (.fault ⟨line.number, .imageTooLarge most⟩) := by
  induction lines generalizing address with
  | nil =>
    left
    refine ⟨?_, rfl⟩
    rintro i line ⟨hi, -⟩
    cases hi
  | cons line rest ih =>
    rcases h : ofLine none line with ⟨warnings, result⟩
    rw [ofLinesFrom_some_cons, ofLinesFrom_none_cons, h]
    cases result with
    | error failure => exact .inl ⟨not_outgrown_of_error h, rfl⟩
    | ok own =>
      by_cases outgrow : Outgrow most address own
      · right
        refine ⟨0, line, (outgrown_zero_iff h line).2 ⟨rfl, outgrow⟩, ?_, ?_⟩
        · intro j hj
          exact absurd hj (Nat.not_lt_zero j)
        · simp only [Outcome.bind, outgrow, if_true]
          rfl
      · have later : ∀ other, ¬Outgrown most address (line :: rest) 0 other :=
          fun other h0 => outgrow ((outgrown_zero_iff h other).1 h0).2
        rcases ih (endOf address own) with ⟨none, same⟩ | ⟨i, found, hfound, first, hresult⟩
        · left
          constructor
          · intro i other
            cases i with
            | zero => exact later other
            | succ i => exact fun hi => none i other ((outgrown_succ_iff h i other).1 hi)
          · simp only [Outcome.bind, outgrow, if_false, same]
        · right
          refine ⟨i + 1, found, (outgrown_succ_iff h i found).2 hfound, ?_, ?_⟩
          · intro j hj other
            cases j with
            | zero => exact later other
            | succ j =>
              exact fun hj' => first j (Nat.lt_of_succ_lt_succ hj) other
                ((outgrown_succ_iff h j other).1 hj')
          · simp only [Outcome.bind, outgrow, if_false, hresult]

end Outgrown

/-! ## The whole image -/

theorem ofLinesFrom_proper {address : Int} {lines : List SourceLine} {warnings : List Warning}
    {blocks : List Block} (h : ofLinesFrom none address lines = ⟨warnings, .ok blocks⟩) :
    ∀ block ∈ blocks, block.fragment.Proper := by
  induction lines generalizing address warnings blocks with
  | nil =>
    cases h
    intro block member
    cases member
  | cons line rest ih =>
    obtain ⟨own, more, _, _, hown, hmore, rfl, -⟩ := ofLinesFrom_none_cons_eq_ok_iff.1 h
    intro block member
    rcases List.mem_append.1 member with member | member
    · exact ofLine_proper hown block member
    · exact ih hmore block member

theorem asks_append_iff {most : Nat} {front back : List Block} :
    Asks most (front ++ back) ↔ Asks most front ∨ Asks most back := by
  unfold Asks
  constructor
  · rintro ⟨block, member, above⟩
    rcases List.mem_append.1 member with member | member
    · exact .inl ⟨block, member, above⟩
    · exact .inr ⟨block, member, above⟩
  · rintro (⟨block, member, above⟩ | ⟨block, member, above⟩)
    · exact ⟨block, List.mem_append_left _ member, above⟩
    · exact ⟨block, List.mem_append_right _ member, above⟩

theorem endOf_le_of_not_outgrow {most : Nat} {address : Int} {blocks : List Block}
    (h : ¬Outgrow most address blocks) : endOf address blocks ≤ most :=
  Int.not_lt.1 fun above => h (.inr above)

/-- Blocks that are too large stay so, whatever follows them. -/
theorem not_outgrow_append_iff {most : Nat} {address : Int} {front back : List Block}
    (proper : ∀ block ∈ back, block.fragment.Proper) :
    ¬Outgrow most address (front ++ back) ↔
      ¬Outgrow most address front ∧ ¬Outgrow most (endOf address front) back := by
  have grows : endOf address front ≤ endOf (endOf address front) back := le_endOf _ back proper
  simp only [Outgrow, asks_append_iff, endOf_append, not_or, Int.not_lt]
  constructor
  · rintro ⟨⟨hfront, hback⟩, below⟩
    exact ⟨⟨hfront, grows.trans below⟩, hback, below⟩
  · rintro ⟨⟨hfront, -⟩, hback, below⟩
    exact ⟨⟨hfront, hback⟩, below⟩

/-- No line outgrows the limit exactly if the whole image does not. -/
theorem not_outgrown_iff {most : Nat} {address : Int} {lines : List SourceLine}
    {warnings : List Warning} {blocks : List Block} (start : address ≤ most)
    (h : ofLinesFrom none address lines = ⟨warnings, .ok blocks⟩) :
    (∀ i line, ¬Outgrown most address lines i line) ↔ ¬Outgrow most address blocks := by
  induction lines generalizing address warnings blocks with
  | nil =>
    cases h
    constructor
    · rintro - (⟨block, member, -⟩ | above)
      · cases member
      · exact absurd start (Int.not_le.2 above)
    · rintro - i line ⟨hi, -⟩
      cases hi
  | cons line rest ih =>
    obtain ⟨own, more, _, _, hown, hmore, rfl, -⟩ := ofLinesFrom_none_cons_eq_ok_iff.1 h
    rw [not_outgrow_append_iff (ofLinesFrom_proper hmore)]
    constructor
    · intro none
      have first : ¬Outgrow most address own := fun outgrow =>
        none 0 line ((outgrown_zero_iff hown line).2 ⟨rfl, outgrow⟩)
      refine ⟨first, (ih (endOf_le_of_not_outgrow first) hmore).1 ?_⟩
      intro i other hi
      exact none (i + 1) other ((outgrown_succ_iff hown i other).2 hi)
    · rintro ⟨first, later⟩ i other hi
      cases i with
      | zero => exact first ((outgrown_zero_iff hown other).1 hi).2
      | succ i =>
        have none := (ih (endOf_le_of_not_outgrow first) hmore).2 later
        exact none i other ((outgrown_succ_iff hown i other).1 hi)

theorem count_le_endOf {blocks : List Block} (proper : ∀ block ∈ blocks, block.fragment.Proper)
    {block : Block} (member : block ∈ blocks) {count : Nat} (h : block.fragment = .space count) :
    (count : Int) ≤ endOf 0 blocks := by
  obtain ⟨before, after, rfl⟩ := List.append_of_mem member
  have start := le_endOf 0 before fun other hb => proper other (List.mem_append_left _ hb)
  have rest := le_endOf (block.fragment.endFrom (endOf 0 before)) after
    fun other ha => proper other (List.mem_append_right _ (List.mem_cons_of_mem block ha))
  rw [endOf_append, endOf_cons]
  rw [h, Fragment.endFrom] at rest
  rw [h, Fragment.endFrom]
  omega

/-- Only a boundary can be above the limit when the image is not. -/
theorem not_outgrow_iff {most : Nat} {blocks : List Block}
    (proper : ∀ block ∈ blocks, block.fragment.Proper) :
    ¬Outgrow most 0 blocks ↔
      endOf 0 blocks ≤ most ∧
        ∀ block ∈ blocks, ∀ boundary, block.fragment = .align boundary → boundary ≤ most := by
  constructor
  · intro h
    refine ⟨endOf_le_of_not_outgrow h, ?_⟩
    intro block member boundary halign
    apply Nat.not_lt.1
    intro above
    exact h (.inl ⟨block, member, by rw [halign]; exact above⟩)
  · rintro ⟨below, bounded⟩ (⟨block, member, above⟩ | above)
    · cases h : block.fragment with
      | instruction text half =>
        rw [h] at above
        exact Nat.not_lt_zero most above
      | data bytes =>
        rw [h] at above
        exact Nat.not_lt_zero most above
      | space count =>
        have room := count_le_endOf proper member h
        rw [h, Fragment.request] at above
        omega
      | align boundary =>
        rw [h] at above
        exact absurd (bounded block member boundary h) (Nat.not_le.2 above)
    · exact absurd below (Int.not_le.2 above)

end Block

/-! ## A whole source -/

namespace Assembly

theorem ofLines_eq_of_blocks {limit other : Option Int} {lines : List SourceLine}
    (h : Block.ofLines limit (Segments.ofLines lines).inOrder =
      Block.ofLines other (Segments.ofLines lines).inOrder) :
    ofLines limit lines = ofLines other lines := by
  unfold ofLines
  rw [h]

theorem image_of_blocks_error {limit : Option Int} {lines : List SourceLine}
    {failure : Failure LocatedFault}
    (h : (Block.ofLines limit (Segments.ofLines lines).inOrder).result = .error failure) :
    (ofLines limit lines).image = .error failure := by
  simp only [ofLines, h]

theorem blocks_of_image {limit : Option Int} {lines : List SourceLine} {image : Bytes}
    (h : (ofLines limit lines).image = .ok image) :
    ∃ notes warnings, Block.ofLines limit (Segments.ofLines lines).inOrder =
        ⟨notes, .ok (ofLines limit lines).blocks⟩ ∧
      SymbolTable.ofBlocks (ofLines limit lines).blocks = .ok (ofLines limit lines).symbols ∧
      Image.ofBlocks (ofLines limit lines).symbols (ofLines limit lines).blocks =
        ⟨warnings, .ok image⟩ := by
  unfold ofLines at h ⊢
  rcases hblocks : Block.ofLines limit (Segments.ofLines lines).inOrder with ⟨notes, result⟩
  cases result with
  | error failure =>
    simp only [hblocks] at h
    cases h
  | ok blocks =>
    cases hsymbols : SymbolTable.ofBlocks blocks with
    | error failure =>
      simp only [hblocks, hsymbols] at h
      cases h
    | ok symbols =>
      simp only [hblocks, hsymbols] at h ⊢
      exact ⟨notes, (Image.ofBlocks symbols blocks).notes, rfl, trivial, by rw [← h]⟩

/-- A limit has no effect or refuses the source in the first line that outgrows it. -/
theorem ofLines_some (most : Nat) (lines : List SourceLine) :
    (∀ i line, ¬Block.Outgrown most 0 (Segments.ofLines lines).inOrder i line) ∧
        ofLines (some most) lines = ofLines none lines ∨
      ∃ i line, Block.Outgrown most 0 (Segments.ofLines lines).inOrder i line ∧
        (∀ j < i, ∀ other, ¬Block.Outgrown most 0 (Segments.ofLines lines).inOrder j other) ∧
        (ofLines (some most) lines).image = .error (.fault ⟨line.number, .imageTooLarge most⟩) := by
  rcases Block.ofLinesFrom_some most 0 (Segments.ofLines lines).inOrder with
    ⟨none, same⟩ | ⟨i, line, outgrown, first, hresult⟩
  · exact .inl ⟨none, ofLines_eq_of_blocks same⟩
  · exact .inr ⟨i, line, outgrown, first, image_of_blocks_error hresult⟩

/-- Without a limit the source has this image, which is within the limit, and so is every
boundary. -/
structure Within (most : Nat) (lines : List SourceLine) (image : Bytes) : Prop where
  assembled : (ofLines none lines).image = .ok image
  size : image.length ≤ most
  boundaries : ∀ block ∈ (ofLines none lines).blocks, ∀ boundary,
    block.fragment = .align boundary → boundary ≤ most

variable {most : Nat} {lines : List SourceLine} {image : Bytes}

theorem Within.mono {larger : Nat} (within : Within most lines image) (h : most ≤ larger) :
    Within larger lines image :=
  ⟨within.assembled, within.size.trans h,
    fun block member boundary halign => (within.boundaries block member boundary halign).trans h⟩

theorem within_iff (h : (ofLines none lines).image = .ok image) :
    Within most lines image ↔
      ∀ i line, ¬Block.Outgrown most 0 (Segments.ofLines lines).inOrder i line := by
  obtain ⟨notes, warnings, hblocks, -, himage⟩ := blocks_of_image h
  have proper := Block.ofLinesFrom_proper hblocks
  have length := Image.ofBlocks_length proper himage
  rw [Block.not_outgrown_iff (Int.natCast_nonneg most) hblocks, Block.not_outgrow_iff proper,
    ← length, Int.ofNat_le]
  constructor
  · intro within
    exact ⟨within.size, within.boundaries⟩
  · rintro ⟨size, boundaries⟩
    exact ⟨h, size, boundaries⟩

theorem Within.eq (within : Within most lines image) :
    ofLines (some most) lines = ofLines none lines := by
  have none := (within_iff within.assembled).1 within
  rcases ofLines_some most lines with ⟨-, same⟩ | ⟨i, line, outgrown, -⟩
  · exact same
  · exact absurd outgrown (none i line)

theorem within_of_image (h : (ofLines (some most) lines).image = .ok image) :
    Within most lines image := by
  rcases ofLines_some most lines with ⟨none, same⟩ | ⟨i, line, -, -, refused⟩
  · rw [same] at h
    exact (within_iff h).2 none
  · rw [h] at refused
    cases refused

end Assembly

/-- A limit filters: within it a source is assembled as without one, a source that only outgrows it
is refused in the first line that does, and any other fault of a source is still one. -/
theorem size_limit_filters (a : Assembler) (lines : List SourceLine) (file : Text) (most : Nat) :
    let order := (Segments.ofLines lines).inOrder
    let free := (a.withLimit none).assembleLines lines file
    let limited := (a.withLimit (some most)).assembleLines lines file
    ((∃ image, limited.2 = .ok image) ↔
      ∃ image, free.2 = .ok image ∧ image.length ≤ most ∧
        ∀ block ∈ free.1.blocks, ∀ boundary,
          block.fragment = .align boundary → boundary ≤ most) ∧
    (∀ image, limited.2 = .ok image → free = (limited.1.withLimit none, .ok image)) ∧
    (∀ image failure, free.2 = .ok image → limited.2 = .error failure →
      ∃ i line, Block.Outgrown most 0 order i line ∧
        (∀ j < i, ∀ other, ¬Block.Outgrown most 0 order j other) ∧
        failure = .fault ⟨line.number, .imageTooLarge most⟩) ∧
    (∀ failure, free.2 = .error failure → limited.2 = .error failure ∨
      ∃ line, limited.2 = .error (.fault ⟨line, .imageTooLarge most⟩)) ∧
    ∀ larger : Nat, most ≤ larger → ∀ image, limited.2 = .ok image →
      (a.withLimit (some larger)).assembleLines lines file =
        (limited.1.withLimit (some larger), .ok image) := by
  intro order free limited
  have reuse {limit other : Option Int} {image : Bytes}
      (same : Assembly.ofLines limit lines = Assembly.ofLines other lines)
      (h : (Assembly.ofLines other lines).image = .ok image) :
      (a.withLimit limit).assembleLines lines file =
        (((a.withLimit other).assembleLines lines file).1.withLimit limit, .ok image) := by
    simp only [Assembler.assembleLines, Assembler.withLimit, Assembler.record, same, h]
  refine ⟨⟨?_, ?_⟩, ?_, ?_, ?_, ?_⟩
  · rintro ⟨image, h⟩
    have within := Assembly.within_of_image h
    exact ⟨image, within.assembled, within.size, within.boundaries⟩
  · rintro ⟨image, h, size, boundaries⟩
    have within : Assembly.Within most lines image := ⟨h, size, boundaries⟩
    exact ⟨image, (congrArg Assembly.image within.eq).trans h⟩
  · intro image h
    exact reuse (Assembly.within_of_image h).eq.symm h
  · intro image failure h refused
    rcases Assembly.ofLines_some most lines with ⟨-, same⟩ | ⟨i, line, outgrown, first, hresult⟩
    · rw [show limited.2 = free.2 from congrArg Assembly.image same, h] at refused
      cases refused
    · refine ⟨i, line, outgrown, first, ?_⟩
      exact Except.error.inj (refused.symm.trans hresult)
  · intro failure h
    rcases Assembly.ofLines_some most lines with ⟨-, same⟩ | ⟨i, line, -, -, hresult⟩
    · exact .inl ((congrArg Assembly.image same).trans h)
    · exact .inr ⟨line.number, hresult⟩
  · intro larger h image himage
    have within := Assembly.within_of_image himage
    exact reuse ((within.mono h).eq.trans within.eq.symm) himage

/-- Sixteen reserved bytes are too many in line 5, after one word in line 3. -/
theorem size_limit_filters_reserved_bytes :
    let lines : List SourceLine := [⟨".word 1".toText, 3⟩, ⟨".space 4".toText, 5⟩]
    let order := (Segments.ofLines lines).inOrder
    let image (limit : Option Int) :=
      (((Assembler.new none).withLimit limit).assembleLines lines "a.s".toText).2
    image none = .ok ([0, 0, 0, 1] ++ Bytes.zeros 16) ∧
    image (some 8) = .error (.fault ⟨5, .imageTooLarge 8⟩) ∧
    ∃ i line, Block.Outgrown 8 0 order i line ∧
      (∀ j < i, ∀ other, ¬Block.Outgrown 8 0 order j other) ∧ line.number = 5 := by
  intro lines order image
  have free : image none = .ok ([0, 0, 0, 1] ++ Bytes.zeros 16) := by decide +kernel
  have limited : image (some 8) = .error (.fault ⟨5, .imageTooLarge 8⟩) := by decide +kernel
  obtain ⟨-, -, refused, -⟩ := size_limit_filters (Assembler.new none) lines "a.s".toText 8
  obtain ⟨i, line, outgrown, first, h⟩ := refused _ _ free limited
  have number : (5 : Int) = line.number :=
    congrArg LocatedFault.line (Failure.fault.inj h)
  exact ⟨free, limited, i, line, outgrown, first, number.symm⟩

end MipsImage
