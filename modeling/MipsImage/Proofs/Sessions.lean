import MipsImage.Assembler
import MipsImage.Proofs.Address

/-!
# Sessions

An assembler is asked for one thing after another: whole files, single steps, another limit. A run
of a whole file empties the assembler before its first step and then keeps what each step gives, so
that the symbols always are those of the blocks, and nothing of an earlier request is left.
-/
set_option autoImplicit false

namespace MipsImage

/-! ## Requests -/

/-- What an assembler can be asked for. -/
inductive Request where
  | assemble (source file : Text)
  | assembleLines (lines : List SourceLine) (file : Text)
  | split (lines : List SourceLine)
  | expand (lines : List SourceLine)
  | place (blocks : List Block)
  | encode (symbols : SymbolTable) (blocks : List Block)
  | limit (most : Option Int)

/-- What the caller gets. -/
inductive Answer where
  | report (result : Except Unconvertible (Report Text))
  | image (result : Except (Failure LocatedFault) Bytes)
  | segments (segments : Segments)
  | blocks (result : Except (Failure LocatedFault) (List Block))
  | symbols (result : Except (Failure LocatedFault) SymbolTable)
  | done

namespace Request

/-- The lines of a request that is for a whole file. -/
def lines? : Request → Option (List SourceLine)
  | assemble source _ => some (SourceLine.ofSource source)
  | assembleLines lines _ => some lines
  | _ => none

/-- The limit that is in force after a request. -/
def limitAfter (before : Option Int) : Request → Option Int
  | limit most => most
  | _ => before

end Request

/-- The limit that is in force after these requests. -/
def limitAfter (limit : Option Int) (history : List Request) : Option Int :=
  history.foldl Request.limitAfter limit

/-- The lines of the last whole file that was asked for, with the limit that was then in force. -/
def lastRun? (limit : Option Int) : List Request → Option (Option Int × List SourceLine)
  | [] => none
  | request :: rest =>
    (lastRun? (request.limitAfter limit) rest).or (request.lines?.map (limit, ·))

namespace Assembler

/-- The assembler after a request, and the answer. Lines are divided into segments and blocks are
placed without a look at what the assembler keeps. -/
def serve (a : Assembler) : Request → Assembler × Answer
  | .assemble source file =>
    let (next, result) := a.assemble source file
    (next, .report result)
  | .assembleLines lines file =>
    let (next, result) := a.assembleLines lines file
    (next, .image result)
  | .split lines => (a, .segments (Segments.ofLines lines))
  | .expand lines =>
    let (next, result) := a.expand lines
    (next, .blocks result)
  | .place blocks => (a, .symbols (SymbolTable.ofBlocks blocks))
  | .encode symbols blocks =>
    let (next, result) := a.encode symbols blocks
    (next, .image result)
  | .limit most => (a.withLimit most, .done)

/-- The assembler after these requests, whatever came of them. -/
def after (a : Assembler) (history : List Request) : Assembler :=
  history.foldl (fun a request => (a.serve request).1) a

/-! ## A run in its steps -/

/-- The assembler at the start of a run. -/
def clear (a : Assembler) (file : Text) : Assembler where
  limit := a.limit
  file := some file
  symbols := []
  blocks := []
  warnings := []

/-- A run in the steps that can also be asked for one by one: what a step gives is kept before the
next one begins, and a step that fails ends the run. -/
def run (a : Assembler) (lines : List SourceLine) (file : Text) :
    Assembler × Except (Failure LocatedFault) Bytes :=
  let (a, expanded) := (a.clear file).expand (Segments.ofLines lines).inOrder
  match expanded with
  | .error failure => (a, .error failure)
  | .ok blocks =>
    let a := { a with blocks := blocks }
    match SymbolTable.ofBlocks blocks with
    | .error failure => (a, .error failure)
    | .ok symbols => { a with symbols := symbols }.encode symbols blocks

variable {a b : Assembler} {lines : List SourceLine} {file : Text}

/-- A file is assembled by a run. -/
theorem assembleLines_eq_run (a : Assembler) (lines : List SourceLine) (file : Text) :
    a.assembleLines lines file = a.run lines file := by
  simp only [assembleLines, record, Assembly.ofLines, run, expand, encode, warn, clear]
  rcases expanded : Block.ofLines a.limit (Segments.ofLines lines).inOrder with ⟨notes, result⟩
  cases result with
  | error failure => rfl
  | ok blocks =>
    cases placed : SymbolTable.ofBlocks blocks with
    | error failure => simp [placed]
    | ok symbols => simp [placed]

theorem assemble_eq_run (a : Assembler) (source file : Text) :
    (a.assemble source file).1 = (a.run (SourceLine.ofSource source) file).1 := by
  rw [← assembleLines_eq_run]
  rfl

/-- A run fails in its expansion, or keeps all blocks and then finds a label declared again, or
keeps the symbols too. -/
theorem run_cases (a : Assembler) (lines : List SourceLine) (file : Text) :
    let expansion := Block.ofLines a.limit (Segments.ofLines lines).inOrder
    let expanded := (a.clear file).warn expansion.notes
    (∃ failure, expansion.result = .error failure ∧
      a.run lines file = (expanded, .error failure)) ∨
    ∃ blocks, expansion.result = .ok blocks ∧
      let kept := { expanded with blocks := blocks }
      (∃ failure, SymbolTable.ofBlocks blocks = .error failure ∧
        a.run lines file = (kept, .error failure)) ∨
      ∃ symbols, SymbolTable.ofBlocks blocks = .ok symbols ∧
        a.run lines file = { kept with symbols := symbols }.encode symbols blocks := by
  intro expansion expanded
  have start : (a.clear file).expand (Segments.ofLines lines).inOrder =
    (expanded, expansion.result) := rfl
  unfold run
  rw [start]
  cases expansion.result with
  | error failure => exact .inl ⟨failure, rfl, rfl⟩
  | ok blocks =>
    refine .inr ⟨blocks, rfl, ?_⟩
    cases placed : SymbolTable.ofBlocks blocks with
    | error failure => exact .inl ⟨failure, rfl, by simp [placed]⟩
    | ok symbols => exact .inr ⟨symbols, rfl, by simp [placed]⟩

/-! ## What is kept -/

/-- What fits together in an assembler after the last file had these lines and was assembled under
this limit. -/
structure Consistent (last : Option (Option Int × List SourceLine)) (a : Assembler) : Prop where
  symbols : ∀ table, SymbolTable.ofBlocks a.blocks = .ok table → a.symbols = table
  repeated : ∀ failure, SymbolTable.ofBlocks a.blocks = .error failure → a.symbols = []
  blocks : a.blocks = [] ∨ ∃ limit lines notes, last = some (limit, lines) ∧
    Block.ofLines limit (Segments.ofLines lines).inOrder = ⟨notes, .ok a.blocks⟩
  named : ∀ warning ∈ a.warnings, warning.file = a.file

variable {last : Option (Option Int × List SourceLine)}

theorem consistent_new (limit : Option Int) : (new limit).Consistent none where
  symbols table placed := by
    cases placed
    rfl
  repeated failure failed := rfl
  blocks := .inl rfl
  named warning member := by cases member

theorem consistent_clear (a : Assembler) (file : Text) : (a.clear file).Consistent last where
  symbols table placed := by
    cases placed
    rfl
  repeated failure failed := rfl
  blocks := .inl rfl
  named warning member := by cases member

theorem Consistent.withLimit (consistent : a.Consistent last) (limit : Option Int) :
    (a.withLimit limit).Consistent last :=
  ⟨consistent.symbols, consistent.repeated, consistent.blocks, consistent.named⟩

theorem named_of_mem_report {warnings : List Warning} {file : Option Text}
    {warning : Diagnostic Text} (member : warning ∈ warnings.map (·.report file)) :
    warning.file = file := by
  obtain ⟨_, -, rfl⟩ := List.mem_map.1 member
  rfl

/-- Warnings of a single step are added under the name of the last file. -/
theorem Consistent.warn (consistent : a.Consistent last) (warnings : List Warning) :
    (a.warn warnings).Consistent last where
  symbols := consistent.symbols
  repeated := consistent.repeated
  blocks := consistent.blocks
  named warning member := by
    rcases List.mem_append.1 member with old | new
    · exact consistent.named warning old
    · exact named_of_mem_report new

/-- Wherever a run ends, it leaves the assembler consistent. -/
theorem consistent_run (a : Assembler) (lines : List SourceLine) (file : Text) :
    (a.run lines file).1.Consistent (some (a.limit, lines)) := by
  have expanded : ((a.clear file).warn
      (Block.ofLines a.limit (Segments.ofLines lines).inOrder).notes).Consistent
      (some (a.limit, lines)) := (consistent_clear a file).warn _
  rcases run_cases a lines file with ⟨failure, -, run⟩ | ⟨blocks, complete, run⟩
  · rw [run]
    exact expanded
  · have own : blocks = [] ∨ ∃ limit source notes, some (a.limit, lines) = some (limit, source) ∧
        Block.ofLines limit (Segments.ofLines source).inOrder = ⟨notes, .ok blocks⟩ :=
      .inr ⟨a.limit, lines, _, rfl, by rw [← complete]⟩
    rcases run with ⟨failure, failed, run⟩ | ⟨symbols, placed, run⟩
    · rw [run]
      exact
        { symbols := fun table placed => by simp [failed] at placed
          repeated := fun _ _ => rfl
          blocks := own
          named := expanded.named }
    · rw [run]
      refine Consistent.warn ?_ _
      exact
        { symbols := fun table again => by simpa [placed] using again
          repeated := fun failure failed => by simp [placed] at failed
          blocks := own
          named := expanded.named }

/-- Every request keeps an assembler consistent, and a whole file is the last one from then on. -/
theorem Consistent.serve (consistent : a.Consistent last) (request : Request) :
    (a.serve request).1.Consistent ((request.lines?.map (a.limit, ·)).or last) := by
  cases request with
  | assemble source file =>
    have run := consistent_run a (SourceLine.ofSource source) file
    rw [← assemble_eq_run] at run
    exact run
  | assembleLines lines file =>
    have run := consistent_run a lines file
    rw [← assembleLines_eq_run] at run
    exact run
  | split lines => exact consistent
  | expand lines => exact consistent.warn _
  | place blocks => exact consistent
  | encode symbols blocks => exact consistent.warn _
  | limit most => exact consistent.withLimit most

theorem limit_serve (a : Assembler) (request : Request) :
    (a.serve request).1.limit = request.limitAfter a.limit := by
  cases request <;> rfl

theorem limit_after (a : Assembler) (history : List Request) :
    (a.after history).limit = limitAfter a.limit history := by
  induction history generalizing a with
  | nil => rfl
  | cons request rest ih =>
    have next := ih (a.serve request).1
    rw [limit_serve] at next
    exact next

/-- An assembler stays consistent over any number of requests. -/
theorem Consistent.after (consistent : a.Consistent last) (history : List Request) :
    (a.after history).Consistent ((lastRun? a.limit history).or last) := by
  induction history generalizing a last with
  | nil => exact consistent
  | cons request rest ih =>
    have next := ih (consistent.serve request)
    rw [limit_serve, ← Option.or_assoc] at next
    exact next

/-- A request for less than a whole file leaves all but the warnings as they are. -/
theorem serve_of_single {request : Request} (single : request.lines? = none) (a : Assembler) :
    let next := (a.serve request).1
    next.file = a.file ∧ next.blocks = a.blocks ∧ next.symbols = a.symbols ∧
    ∃ added, next.warnings = a.warnings ++ added ∧ ∀ warning ∈ added, warning.file = a.file := by
  cases request with
  | assemble source file => cases single
  | assembleLines lines file => cases single
  | split lines => exact ⟨rfl, rfl, rfl, [], by simp [serve], by simp⟩
  | expand lines => exact ⟨rfl, rfl, rfl, _, rfl, fun _ => named_of_mem_report⟩
  | place blocks => exact ⟨rfl, rfl, rfl, [], by simp [serve], by simp⟩
  | encode symbols blocks => exact ⟨rfl, rfl, rfl, _, rfl, fun _ => named_of_mem_report⟩
  | limit most => exact ⟨rfl, rfl, rfl, [], by simp [serve, withLimit], by simp⟩

/-! ## What is not kept -/

/-- A run depends on nothing but the limit of the assembler, because all else is emptied first. -/
theorem run_eq_of_limit_eq (same : a.limit = b.limit) (lines : List SourceLine) (file : Text) :
    a.run lines file = b.run lines file := by
  have start : a.clear file = b.clear file := by rw [clear, clear, same]
  simp only [run, start]

theorem assemble_eq_of_limit_eq (same : a.limit = b.limit) (source file : Text) :
    a.assemble source file = b.assemble source file := by
  apply Prod.ext
  · rw [assemble_eq_run, assemble_eq_run, run_eq_of_limit_eq same]
  · simp only [assemble, same]

/-- Blocks and symbols that a run came to are kept, also if it then fails. -/
theorem kept_of_run (a : Assembler) (lines : List SourceLine) (file : Text) {blocks : List Block}
    (complete : (Block.ofLines a.limit (Segments.ofLines lines).inOrder).result = .ok blocks) :
    (a.run lines file).1.blocks = blocks ∧
    ∀ table, SymbolTable.ofBlocks blocks = .ok table → (a.run lines file).1.symbols = table := by
  have kept : (a.run lines file).1.blocks = blocks := by
    rcases run_cases a lines file with ⟨failure, failed, -⟩ | ⟨_, again, run⟩
    · rw [complete] at failed
      cases failed
    · rw [complete] at again
      cases again
      rcases run with ⟨failure, -, run⟩ | ⟨symbols, -, run⟩ <;> rw [run]
      rfl
  exact ⟨kept, fun table placed => (consistent_run a lines file).symbols table (by rwa [kept])⟩

end Assembler

/-- The report on a source that failed shows neither an image nor symbols. -/
theorem Assembly.hidden_of_errors {φ : Type} {assembly : Assembly} {file : Option φ}
    {report : Report φ} (reported : assembly.report file = .ok report)
    (failed : report.errors ≠ []) : report.image = [] ∧ report.symbols = [] := by
  unfold Assembly.report at reported
  split at reported
  · cases reported
    exact absurd rfl failed
  · cases reported
    exact ⟨rfl, rfl⟩
  · cases reported

/-! ## Whole sessions -/

/-- However an assembler came to where it is, its symbols are those of its blocks, or none if these
declare a label again; the blocks are none or all those of the last file; all warnings are under the
name of that file, and a request for less than a whole file at most adds such warnings. -/
theorem session_consistent (limit : Option Int) (history : List Request) :
    let a := (Assembler.new limit).after history
    (∀ table, SymbolTable.ofBlocks a.blocks = .ok table → a.symbols = table) ∧
    (∀ failure, SymbolTable.ofBlocks a.blocks = .error failure →
      (∃ line name declared, failure = .fault ⟨line, .duplicateLabel name declared⟩) ∧
      a.symbols = []) ∧
    (a.blocks = [] ∨ ∃ most lines notes, lastRun? limit history = some (most, lines) ∧
      Block.ofLines most (Segments.ofLines lines).inOrder = ⟨notes, .ok a.blocks⟩) ∧
    (∀ warning ∈ a.warnings, warning.file = a.file) ∧
    ∀ request : Request, request.lines? = none →
      let next := (a.serve request).1
      next.file = a.file ∧ next.blocks = a.blocks ∧ next.symbols = a.symbols ∧
      ∃ added, next.warnings = a.warnings ++ added ∧
        ∀ warning ∈ added, warning.file = a.file := by
  intro a
  have consistent : a.Consistent (lastRun? limit history) := by
    have kept := (Assembler.consistent_new limit).after history
    rwa [Option.or_none] at kept
  refine ⟨consistent.symbols, fun failure failed => ⟨?_, consistent.repeated failure failed⟩,
    consistent.blocks, consistent.named, fun request single => Assembler.serve_of_single single a⟩
  obtain ⟨name, -, rfl⟩ := SymbolTable.ofBlocks_eq_error_iff.1 failed
  exact ⟨_, name, _, rfl⟩

/-- A file declares a label twice, so that the assembler keeps its blocks and no symbols; then lines
are expanded under a smaller limit. -/
theorem session_consistent_duplicate :
    let lines : List SourceLine := [⟨"a: nop".toText, 1⟩, ⟨"a: .byte 256".toText, 2⟩]
    let history : List Request :=
      [.assembleLines [⟨"main: jr $ra".toText, 1⟩] "first.s".toText,
       .assembleLines lines "second.s".toText, .limit (some 0),
       .expand [⟨".byte -129".toText, 7⟩]]
    let a := (Assembler.new none).after history
    let request := Request.encode [] [⟨9, [], .instruction "addi $1, $1, 65536".toText none⟩]
    lastRun? none history = some (none, lines) ∧
    a.symbols = [] ∧
    (∃ notes, Block.ofLines none (Segments.ofLines lines).inOrder = ⟨notes, .ok a.blocks⟩) ∧
    (a.serve request).1.blocks = a.blocks ∧
    ∃ added, (a.serve request).1.warnings = a.warnings ++ added ∧ added ≠ [] ∧
      ∀ warning ∈ added, warning.file = some "second.s".toText := by
  intro lines history a request
  obtain ⟨-, repeated, blocks, -, single⟩ := session_consistent none history
  have some : lastRun? none history = some (none, lines) := by decide +kernel
  have twice : (SymbolTable.ofBlocks a.blocks).toOption = none := by decide +kernel
  have present : a.blocks ≠ [] := by decide +kernel
  have more : a.warnings.length < (a.serve request).1.warnings.length := by decide +kernel
  obtain ⟨-, kept, -, added, warnings, named⟩ := single request rfl
  refine ⟨some, ?_, ?_, kept, added, warnings, ?_, named⟩
  · cases h : SymbolTable.ofBlocks a.blocks with
    | error failure => exact (repeated failure h).2
    | ok table =>
      rw [h] at twice
      cases twice
  · obtain empty | ⟨most, own, notes, last, complete⟩ := blocks
    · exact absurd empty present
    · rw [some] at last
      cases last
      exact ⟨notes, complete⟩
  · rintro rfl
    rw [warnings, List.append_nil] at more
    exact absurd more (Nat.lt_irrefl _)

/-- A file is assembled as by a new assembler with the limit of the moment, down to what is kept
afterwards; if it fails, the report hides what the assembler keeps. -/
theorem earlier_requests_leave_no_trace (limit : Option Int) (history : List Request)
    (source : Text) (lines : List SourceLine) (file : Text) :
    let a := (Assembler.new limit).after history
    let fresh := Assembler.new (limitAfter limit history)
    a.assemble source file = fresh.assemble source file ∧
    a.assembleLines lines file = fresh.assembleLines lines file ∧
    let run := a.assemble source file
    (∀ report, run.2 = .ok report → report.errors ≠ [] →
      report.image = [] ∧ report.symbols = []) ∧
    ∀ blocks, (Block.ofLines a.limit (Segments.ofLines
        (SourceLine.ofSource source)).inOrder).result = .ok blocks →
      run.1.blocks = blocks ∧
      ∀ table, SymbolTable.ofBlocks blocks = .ok table → run.1.symbols = table := by
  intro a fresh
  have same : a.limit = fresh.limit := Assembler.limit_after _ history
  refine ⟨Assembler.assemble_eq_of_limit_eq same source file, ?_,
    fun report reported failed => Assembly.hidden_of_errors reported failed,
    fun blocks complete => ?_⟩
  · rw [Assembler.assembleLines_eq_run, Assembler.assembleLines_eq_run,
      Assembler.run_eq_of_limit_eq same]
  · rw [Assembler.assemble_eq_run]
    exact Assembler.kept_of_run a _ file complete

/-- The second file fails at its last instruction: the report is empty, the assembler keeps both
labels. -/
theorem earlier_requests_leave_no_trace_unknown_label :
    let source := "main: nop\nend: j nowhere\n".toText
    let history : List Request :=
      [.assemble "a: .byte 999\na: nop".toText "first.s".toText, .limit (some 8),
       .expand [⟨".byte -129".toText, 7⟩]]
    let a := (Assembler.new none).after history
    let run := a.assemble source "second.s".toText
    run = (Assembler.new (some 8)).assemble source "second.s".toText ∧
    (∃ report, run.2 = .ok report ∧ report.errors ≠ [] ∧ report.image = [] ∧
      report.symbols = []) ∧
    run.1.symbols = [("main".toText, 0), ("end".toText, 4)] := by
  intro source history a run
  obtain ⟨same, -, hidden, kept⟩ :=
    earlier_requests_leave_no_trace none history source [] "second.s".toText
  refine ⟨same, ?_, ?_⟩
  · have failed : run.2.toOption.map (·.errors.length) = some 1 := by decide +kernel
    cases answer : run.2 with
    | error digits =>
      rw [answer] at failed
      cases failed
    | ok report =>
      rw [answer] at failed
      have present : report.errors ≠ [] := by
        intro empty
        simp [Except.toOption, empty] at failed
      exact ⟨report, rfl, present, hidden report answer present⟩
  · have complete : (Block.ofLines a.limit (Segments.ofLines
        (SourceLine.ofSource source)).inOrder).result =
        .ok [⟨1, ["main".toText], .instruction "sll $0, $0, 0".toText none⟩,
          ⟨2, ["end".toText], .instruction "j nowhere".toText none⟩] := by
      decide +kernel
    exact (kept _ complete).2 _ (by decide +kernel)

end MipsImage
