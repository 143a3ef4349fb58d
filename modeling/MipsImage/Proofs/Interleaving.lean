import MipsImage.Assembler
import MipsImage.Proofs.AppendedData

/-!
# Interleaved segments

Which segment a line belongs to is decided by what stands before it: the last line that switches
the segment. How often the segments take turns has no influence on anything else, so each source is
assembled like the one that has all its text lines first and then all its data lines.
-/
set_option autoImplicit false

namespace MipsImage

/-! ## Segments line by line -/

namespace SourceLine

instance (line : SourceLine) : Decidable line.Steers :=
  inferInstanceAs (Decidable (_ ∨ _ ∨ _))

/-- A line that switches the segment. -/
def Switches (line : SourceLine) : Prop :=
  line.text = ".text".toText ∨ line.text = ".data".toText

instance (line : SourceLine) : Decidable line.Switches :=
  inferInstanceAs (Decidable (_ ∨ _))

theorem Switches.steers {line : SourceLine} (switches : line.Switches) : line.Steers :=
  .inr switches.symm

theorem not_switches_of_global {line : SourceLine}
    (global : isGlobalDeclaration line.text = true) : ¬line.Switches := by
  rintro (text | data)
  · rw [text] at global
    exact absurd global (by decide)
  · rw [data] at global
    exact absurd global (by decide)

end SourceLine

/-- The last line that switches the segment, if there is one, is `.data`. -/
def endsInData (lines : List SourceLine) : Bool :=
  (lines.filter (·.Switches)).getLast?.any (·.text = ".data".toText)

theorem endsInData_concat_of_switches {line : SourceLine} (switches : line.Switches)
    (before : List SourceLine) :
    endsInData (before ++ [line]) = decide (line.text = ".data".toText) := by
  simp [endsInData, List.filter_append, switches]

theorem endsInData_concat_of_not_switches {line : SourceLine} (stays : ¬line.Switches)
    (before : List SourceLine) : endsInData (before ++ [line]) = endsInData before := by
  simp [endsInData, List.filter_append, stays]

/-- The lines of the data segment or those of the text segment. Each is chosen by the lines before
it. -/
def segmentLines (data : Bool) (lines : List SourceLine) : List SourceLine :=
  (lines.zipIdx.filter fun entry =>
    ¬entry.1.Steers ∧ endsInData (lines.take entry.2) = data).map Prod.fst

/-- The lines of a segment among those that come after others. -/
def segmentLinesAfter (before : List SourceLine) (data : Bool) (lines : List SourceLine) :
    List SourceLine :=
  ((lines.zipIdx before.length).filter fun entry =>
    ¬entry.1.Steers ∧ endsInData ((before ++ lines).take entry.2) = data).map Prod.fst

theorem segmentLinesAfter_cons (before : List SourceLine) (data : Bool) (line : SourceLine)
    (rest : List SourceLine) :
    segmentLinesAfter before data (line :: rest) =
      (if ¬line.Steers ∧ endsInData before = data then [line] else []) ++
        segmentLinesAfter (before ++ [line]) data rest := by
  have more : before ++ line :: rest = before ++ [line] ++ rest := by simp
  have here : (before ++ [line] ++ rest).take before.length = before := by simp
  simp only [segmentLinesAfter, List.zipIdx_cons, List.filter_cons, more, here,
    List.length_append, List.length_singleton, decide_eq_true_eq]
  split <;> rfl

theorem segmentLines_sublist (data : Bool) (lines : List SourceLine) :
    (segmentLines data lines).Sublist lines := by
  have chosen := (List.filter_sublist (p := fun entry =>
    ¬entry.1.Steers ∧ endsInData (lines.take entry.2) = data) (l := lines.zipIdx)).map Prod.fst
  rwa [List.zipIdx_map_fst] at chosen

/-- Every line that does not steer belongs to one of the segments. -/
theorem segmentLines_perm (lines : List SourceLine) :
    (segmentLines false lines ++ segmentLines true lines).Perm
      (lines.filter fun line => ¬line.Steers) := by
  let free := lines.zipIdx.filter fun entry => ¬entry.1.Steers
  have text : segmentLines false lines =
      (free.filter fun entry => !endsInData (lines.take entry.2)).map Prod.fst := by
    simp [segmentLines, free, List.filter_filter, Bool.and_comm]
  have data : segmentLines true lines =
      (free.filter fun entry => endsInData (lines.take entry.2)).map Prod.fst := by
    simp [segmentLines, free, List.filter_filter, Bool.and_comm]
  have both : free.map Prod.fst = lines.filter fun line => ¬line.Steers := by
    conv_rhs => rw [← List.zipIdx_map_fst 0 lines, List.filter_map]
    rfl
  rw [text, data, ← List.map_append, ← both]
  refine List.Perm.map _ (List.perm_append_comm.trans ?_)
  exact List.filter_append_perm _ free

namespace Segments

variable {line : SourceLine}

/-- A line that steers is dropped, and the rest is read from behind it. -/
theorem ofLinesFrom_cons_of_steers (steers : line.Steers) (before rest : List SourceLine) :
    ofLinesFrom (endsInData before) (line :: rest) =
      ofLinesFrom (endsInData (before ++ [line])) rest := by
  rw [ofLinesFrom]
  split
  · rename_i global
    rw [endsInData_concat_of_not_switches (SourceLine.not_switches_of_global global)]
  · rename_i global
    split
    · rename_i data
      rw [endsInData_concat_of_switches (.inr data), decide_eq_true data]
    · rename_i data
      have text : line.text = ".text".toText := (steers.resolve_left global).resolve_left data
      rw [if_pos text, endsInData_concat_of_switches (.inl text), decide_eq_false data]

/-- Any other line goes to the segment in which it stands. -/
theorem ofLinesFrom_cons_of_free (free : ¬line.Steers) (inData : Bool) (rest : List SourceLine) :
    ofLinesFrom inData (line :: rest) =
      if inData then ⟨(ofLinesFrom inData rest).text, line :: (ofLinesFrom inData rest).data⟩
      else ⟨line :: (ofLinesFrom inData rest).text, (ofLinesFrom inData rest).data⟩ := by
  obtain ⟨global, data, text⟩ : _ ∧ _ ∧ _ := by simpa only [SourceLine.Steers, not_or] using free
  rw [ofLinesFrom, if_neg global, if_neg data, if_neg text]

theorem ofLinesFrom_eq (before lines : List SourceLine) :
    ofLinesFrom (endsInData before) lines =
      ⟨segmentLinesAfter before false lines, segmentLinesAfter before true lines⟩ := by
  induction lines generalizing before with
  | nil => rfl
  | cons line rest ih =>
    have next := ih (before ++ [line])
    rw [segmentLinesAfter_cons, segmentLinesAfter_cons]
    by_cases steers : line.Steers
    · rw [ofLinesFrom_cons_of_steers steers, next]
      simp [steers]
    · have stays : ¬line.Switches := fun switches => steers switches.steers
      rw [endsInData_concat_of_not_switches stays] at next
      rw [ofLinesFrom_cons_of_free steers, next]
      cases endsInData before <;> simp [steers]

/-- Every line that does not steer goes to the segment of its place. -/
theorem ofLines_eq (lines : List SourceLine) :
    ofLines lines = ⟨segmentLines false lines, segmentLines true lines⟩ :=
  ofLinesFrom_eq [] lines

/-- Lines that do not steer stay together. -/
theorem ofLinesFrom_of_free (inData : Bool) {lines : List SourceLine}
    (free : ∀ line ∈ lines, ¬line.Steers) :
    ofLinesFrom inData lines = if inData then ⟨[], lines⟩ else ⟨lines, []⟩ := by
  induction lines with
  | nil => cases inData <;> rfl
  | cons line rest ih =>
    rw [List.forall_mem_cons] at free
    rw [ofLinesFrom_cons_of_free free.1, ih free.2]
    cases inData <;> rfl

end Segments

/-- Lines of the text segment, then lines of the data segment. -/
def inTwoSegments (textNumber dataNumber : Int) (segments : Segments) : List SourceLine :=
  ⟨".text".toText, textNumber⟩ :: segments.text ++ ⟨".data".toText, dataNumber⟩ :: segments.data

theorem Segments.ofLines_inTwoSegments (textNumber dataNumber : Int) (lines : List SourceLine) :
    ofLines (inTwoSegments textNumber dataNumber (ofLines lines)) = ofLines lines := by
  have free : ∀ line ∈ (ofLines lines).inOrder, ¬line.Steers := fun line member =>
    (mem_ofLinesFrom_iff.1 member).2
  have text := ofLinesFrom_of_free false
    fun line member => free line (List.mem_append_left _ member)
  have data := ofLinesFrom_of_free true
    fun line member => free line (List.mem_append_right _ member)
  rw [ofLines, inTwoSegments, ofLinesFrom_append_data rfl, data]
  have opened : ofLinesFrom false (⟨".text".toText, textNumber⟩ :: (ofLines lines).text) =
    ofLinesFrom false (ofLines lines).text := rfl
  rw [opened, text]
  simp

/-! ## Assembling -/

/-- All of an assembly is decided by the segments. -/
theorem Assembler.assembleLines_eq_of_segments {lines other : List SourceLine}
    (same : Segments.ofLines other = Segments.ofLines lines) (a : Assembler) (file : Text) :
    a.assembleLines other file = a.assembleLines lines file := by
  simp only [assembleLines, Assembly.ofLines, same]

/-- A line that does not steer goes to one segment, to the data segment if the last switch before it
is `.data`; and sources with the same lines in both segments, as is the one that has all text lines
first, are assembled alike, down to the faults. -/
theorem segments_interleave_freely (lines : List SourceLine) :
    Segments.ofLines lines = ⟨segmentLines false lines, segmentLines true lines⟩ ∧
    (segmentLines false lines ++ segmentLines true lines).Perm
      (lines.filter fun line => ¬line.Steers) ∧
    (∀ data, (segmentLines data lines).Sublist lines) ∧
    (∀ other, (∀ data, segmentLines data other = segmentLines data lines) →
      ∀ (a : Assembler) (file : Text),
        a.assembleLines other file = a.assembleLines lines file) ∧
    ∀ textNumber dataNumber,
      let normal := inTwoSegments textNumber dataNumber (Segments.ofLines lines)
      (∀ data, segmentLines data normal = segmentLines data lines) ∧
      ∀ (a : Assembler) (file : Text),
        a.assembleLines normal file = a.assembleLines lines file := by
  refine ⟨Segments.ofLines_eq lines, segmentLines_perm lines,
    fun data => segmentLines_sublist data lines, fun other same a file => ?_,
    fun textNumber dataNumber => ?_⟩
  · apply Assembler.assembleLines_eq_of_segments
    rw [Segments.ofLines_eq, Segments.ofLines_eq, same, same]
  · intro normal
    have same : Segments.ofLines normal = Segments.ofLines lines :=
      Segments.ofLines_inTwoSegments textNumber dataNumber lines
    refine ⟨fun data => ?_, Assembler.assembleLines_eq_of_segments same⟩
    rw [Segments.ofLines_eq, Segments.ofLines_eq, Segments.mk.injEq] at same
    cases data with
    | false => exact same.1
    | true => exact same.2

/-- The segments take turns, or each comes once; a label is declared in both. -/
theorem segments_interleave_freely_duplicate :
    let lines : List SourceLine :=
      [⟨".data".toText, 1⟩, ⟨"a: .byte 300".toText, 2⟩, ⟨".text".toText, 3⟩,
       ⟨".globl a".toText, 4⟩, ⟨"nop".toText, 5⟩, ⟨".data".toText, 6⟩, ⟨".word 7".toText, 7⟩,
       ⟨".text".toText, 8⟩, ⟨"a: jr $ra".toText, 9⟩]
    let other : List SourceLine :=
      [⟨"nop".toText, 5⟩, ⟨"a: jr $ra".toText, 9⟩, ⟨".data".toText, 10⟩, ⟨".data".toText, 20⟩,
       ⟨"a: .byte 300".toText, 2⟩, ⟨".word 7".toText, 7⟩]
    (∀ data, segmentLines data other = segmentLines data lines) ∧
    (Assembler.new none).assembleLines other "a.s".toText =
      (Assembler.new none).assembleLines lines "a.s".toText ∧
    ((Assembler.new none).assembleLines other "a.s".toText).2.toOption = none := by
  intro lines other
  obtain ⟨-, -, -, alike, -⟩ := segments_interleave_freely lines
  have same : ∀ data, segmentLines data other = segmentLines data lines := by decide +kernel
  exact ⟨same, alike other same _ _, by decide +kernel⟩

end MipsImage
