import MipsImage.Proofs.InstructionExpansion
import MipsImage.Proofs.LineBlocks

/-!
# What is converted

A conversion that cannot be made is the one failure without a line. It only arises from a decimal
numeral with too many digits that stands in the line as an operand, as the offset of one or as an
item or exponent of a directive, or from lone surrogates in the string of a directive: the numerals
that expansion writes itself are short.
-/
set_option autoImplicit false

namespace MipsImage

namespace Outcome

variable {ω ε α β : Type}

/-- Whatever the outcome is, it is not that a conversion could not be made. -/
def Convertible (x : Outcome ω (Failure ε) α) : Prop :=
  ∀ cause, x.result ≠ .error (.conversion cause)

theorem convertible_ok (value : α) : (ok value : Outcome ω (Failure ε) α).Convertible :=
  nofun

theorem convertible_fault (cause : ε) :
    (fail (.fault cause) : Outcome ω (Failure ε) α).Convertible :=
  nofun

theorem Convertible.bind {x : Outcome ω (Failure ε) α} {f : α → Outcome ω (Failure ε) β}
    (hx : x.Convertible) (hf : ∀ value, (f value).Convertible) : (x.bind f).Convertible := by
  intro cause h
  obtain ⟨notes, result⟩ := x
  cases result with
  | error failure =>
    cases h
    exact hx cause rfl
  | ok value => exact hf value cause h

theorem convertible_ofExcept {x : Except (Failure ε) α}
    (h : ∀ cause, x ≠ .error (.conversion cause)) :
    (ofExcept x : Outcome ω (Failure ε) α).Convertible := h

end Outcome

namespace Instruction

/-- The numerals as which an operand can be read, in whole or as the offset before a register. -/
def operandNumerals (token : Text) : List Numeral :=
  (Numeral.ofToken? token).toList ++ ((SymbolTable.indexed? token).bind Prod.fst).toList

def numerals (i : Instruction) : List Numeral := i.operands.flatMap operandNumerals

end Instruction

/-- The numerals in the body of a directive. -/
def Directive.numerals (body : Text) : Directive → List Numeral
  | ascii | asciiz => []
  | integers _ => ((Text.splitOn ',' body).map Text.trim).filterMap Numeral.ofToken?
  | space | align => (Numeral.ofToken? body).toList

/-- The body of the string that a directive lays out. -/
def Directive.string? (body : Text) : Directive → Option Text
  | ascii | asciiz => Quoted.body? body
  | integers _ | space | align => none

/-- These lone surrogates keep the body from becoming bytes. -/
def StringBody.Unencodable (body : Text) (run : SurrogateRun) : Prop :=
  bytes body = .error (.conversion (.surrogates run))

/-- The body of the string that a line lays out. -/
def SourceLine.string? (line : SourceLine) : Option Text :=
  (Directive.ofText? (Label.split line.text).2).bind fun (directive, body) => directive.string? body

/-- These lone surrogates keep the string of a line from becoming bytes. -/
def SourceLine.Unencodable (line : SourceLine) (run : SurrogateRun) : Prop :=
  ∃ body, line.string? = some body ∧ StringBody.Unencodable body run

/-- The numerals that a line holds, each of which may have to be converted. -/
def SourceLine.numerals (line : SourceLine) : List Numeral :=
  let body := (Label.split line.text).2
  match Directive.ofText? body with
  | some (directive, body) => directive.numerals body
  | none => (Instruction.ofText body).numerals

/-- None of these numerals is too long to be converted. -/
def Numeral.AllShort (numerals : List Numeral) : Prop := ∀ n ∈ numerals, n.isOverlong = false

section Tokens
variable {token : Text}

theorem readInteger_convertible (short : Numeral.AllShort (Numeral.ofToken? token).toList)
    (cause : Unconvertible) : readInteger token ≠ .error (.conversion cause) := by
  unfold readInteger
  cases h : Numeral.ofToken? token with
  | none => exact nofun
  | some n =>
    have hn := short n (by rw [h]; exact List.mem_singleton.2 rfl)
    simp [Numeral.convert, hn]

theorem Register.parse_convertible (cause : Unconvertible) :
    parse token ≠ .error (.conversion cause) := by
  intro failed
  cases (parse_eq_error_iff.1 failed).2

variable (short : Numeral.AllShort (Instruction.operandNumerals token))
include short

theorem readInteger_operand_convertible (cause : Unconvertible) :
    readInteger token ≠ .error (.conversion cause) :=
  readInteger_convertible (fun n h => short n (List.mem_append_left _ h)) cause

theorem resolveTarget_convertible (symbols : SymbolTable) (cause : Unconvertible) :
    symbols.resolveTarget token ≠ .error (.conversion cause) := by
  unfold SymbolTable.resolveTarget
  split
  · exact readInteger_operand_convertible short cause
  · split
    · exact nofun
    · split <;> exact nofun

theorem resolveMemory_convertible (symbols : SymbolTable) (cause : Unconvertible) :
    symbols.resolveMemory token ≠ .error (.conversion cause) := by
  unfold SymbolTable.resolveMemory
  split
  · rename_i offset name h
    cases hbase : Register.parse name with
    | error failure =>
      intro heq
      cases heq
      exact Register.parse_convertible cause hbase
    | ok base =>
      cases offset with
      | none => simp [bind, Except.bind, pure, Except.pure]
      | some n =>
        have hn := short n (List.mem_append_right _ (by rw [h]; exact List.mem_singleton.2 rfl))
        simp [bind, Except.bind, Numeral.convert, hn, pure, Except.pure]
  · split <;> simp

theorem place_convertible (format : Format) (symbols : SymbolTable) (fields : Fields)
    (slot : Slot) : (place format symbols fields slot token).Convertible := by
  have fitted (value : Int) (bits : Nat) : (fit value bits token).Convertible := by
    rw [fit]
    split <;> exact nofun
  have read {α : Type} {x : Except (Failure Fault) α} (h : ∀ cause, x ≠ .error (.conversion cause))
      {f : α → Encoding Fields} (hf : ∀ value, (f value).Convertible) :
      ((Outcome.ofExcept x).bind f).Convertible :=
    (Outcome.convertible_ofExcept h).bind hf
  cases slot with
  | rd | rs | rt => exact read Register.parse_convertible fun _ => Outcome.convertible_ok _
  | shiftAmount | immediate =>
    exact read (readInteger_operand_convertible short) fun value =>
      (fitted value _).bind fun _ => Outcome.convertible_ok _
  | target =>
    refine read (resolveTarget_convertible short symbols) fun value => ?_
    split
    · exact Outcome.convertible_ok _
    · exact (fitted value _).bind fun _ => Outcome.convertible_ok _
  | memory =>
    exact read (resolveMemory_convertible short symbols) fun operand =>
      (fitted operand.2 _).bind fun _ => Outcome.convertible_ok _

end Tokens

theorem placeAll_convertible {format : Format} {symbols : SymbolTable}
    {operands : List (Slot × Text)}
    (short : ∀ operand ∈ operands, Numeral.AllShort (Instruction.operandNumerals operand.2))
    (fields : Fields) : (placeAll format symbols fields operands).Convertible := by
  induction operands generalizing fields with
  | nil => exact Outcome.convertible_ok _
  | cons operand rest ih =>
    exact (place_convertible (short operand (List.mem_cons_self ..)) format symbols fields _).bind
      fun next => ih (fun other member => short other (List.mem_cons_of_mem operand member)) next

theorem resolve_convertible {i : Instruction} (short : Numeral.AllShort i.numerals)
    (symbols : SymbolTable) : (resolve symbols i).Convertible := by
  unfold resolve
  split
  · exact Outcome.convertible_fault _
  · split
    · exact Outcome.convertible_fault _
    · refine (placeAll_convertible ?_ _).bind fun _ => Outcome.convertible_ok _
      intro operand member n hn
      exact short n (List.mem_flatMap.2 ⟨operand.2, (List.of_mem_zip member).2, hn⟩)

theorem encode_convertible {text : Text}
    (short : Numeral.AllShort (Instruction.ofText text).numerals)
    (symbols : SymbolTable) (half : Option Half) : (encode symbols half text).Convertible := by
  simp only [encode]
  split
  · exact Outcome.convertible_fault _
  · exact (resolve_convertible short symbols).bind fun _ => Outcome.convertible_ok _
  · exact (resolve_convertible short symbols).bind fun _ => Outcome.convertible_ok _

/-! ## What expansion writes -/

namespace Instruction

variable {token : Text}

theorem operandNumerals_nil : operandNumerals [] = [] := by
  decide

/-- A text without a parenthesis is no operand `offset($name)`. -/
theorem operandNumerals_of_plain (h : .char '(' ∉ token) :
    operandNumerals token = (Numeral.ofToken? token).toList := by
  have whole : (Text.cut '(' token).2 = none := by
    induction token with
    | nil => rfl
    | cons c rest ih =>
      rw [List.mem_cons, not_or] at h
      rw [Text.cut, if_neg (Ne.symm h.1)]
      exact ih h.2
  have none : SymbolTable.indexed? token = none := by
    unfold SymbolTable.indexed?
    split
    · rename_i hcut
      rw [hcut] at whole
      cases whole
    · rfl
  rw [operandNumerals, none]
  exact List.append_nil _

theorem operandNumerals_decimalText {n : Nat} (h : n < 2 ^ 16) :
    Numeral.AllShort (operandNumerals (Numeral.decimalText n)) := by
  have plain : .char '(' ∉ Numeral.decimalText n := by
    intro member
    obtain ⟨d, hd, heq⟩ := Numeral.mem_decimalText member
    revert d
    decide
  obtain ⟨digits, hdigits, -, length⟩ := Numeral.ofToken?_decimalText n
  have few : digits.length ≤ 5 := length 5 (by decide) (by omega)
  intro numeral member
  rw [operandNumerals_of_plain plain, hdigits] at member
  rw [List.mem_singleton.1 member, Numeral.isOverlong, Bool.and_eq_false_iff]
  exact .inr (decide_eq_false (Nat.not_lt.2 (few.trans (by decide))))

theorem numerals_short_iff {i : Instruction} :
    Numeral.AllShort i.numerals ↔
      ∀ token ∈ i.operands, Numeral.AllShort (operandNumerals token) := by
  unfold Numeral.AllShort numerals
  simp only [List.mem_flatMap]
  constructor
  · intro h token member n hn
    exact h n ⟨token, member, hn⟩
  · rintro h n ⟨token, member, hn⟩
    exact h token member n hn

end Instruction

theorem TemplateOperand.numerals_fixed :
    ∀ token ∈ fixedTokens, ∀ n ∈ Instruction.operandNumerals token.toText,
      n.isOverlong = false := by
  decide +kernel

theorem loadImmediate_short {destination : Text} (value : Int)
    (h : Numeral.AllShort (Instruction.operandNumerals destination)) :
    ∀ i ∈ loadImmediate destination value, Numeral.AllShort i.numerals := by
  have scratch : ∀ n ∈ Instruction.operandNumerals "$at".toText, n.isOverlong = false := by
    decide +kernel
  have word := Bits.low_lt 32 value
  have upper := Instruction.operandNumerals_decimalText (n := Bits.high 16 (Bits.low 32 value))
    (Nat.div_lt_of_lt_mul word)
  have lower := Instruction.operandNumerals_decimalText (n := Bits.low 16 (Bits.low 32 value))
    (Bits.low_lt 16 _)
  intro i member
  rw [Instruction.numerals_short_iff]
  rcases List.mem_cons.1 member with rfl | member
  · simp only [List.forall_mem_cons]
    exact ⟨scratch, upper, nofun⟩
  · rw [List.mem_singleton.1 member]
    simp only [List.forall_mem_cons]
    exact ⟨h, scratch, lower, nofun⟩

/-- Expansion passes numerals on and writes none that is too long. -/
theorem Instruction.Becomes.short {t : Text} {fragments : List Fragment}
    (becomes : Becomes t fragments) (h : Numeral.AllShort (ofText t).numerals) :
    ∀ text half, .instruction text half ∈ fragments →
      Numeral.AllShort (ofText text).numerals := by
  have operands := numerals_short_iff.1 h
  have tokens := isToken_operands t
  intro text half member
  cases becomes with
  | @loadImmediate destination source value written read =>
    rw [written] at operands tokens
    obtain ⟨i, hi, heq⟩ := List.mem_map.1 member
    cases heq
    rw [ofText_loadImmediate (tokens _ (List.mem_cons_self ..)) value i hi]
    exact loadImmediate_short value (operands _ (List.mem_cons_self ..)) i hi
  | @loadAddress destination target written =>
    have reread := ofText_loadAddress
      (tokens destination (by rw [written]; exact List.mem_cons_self ..))
      (tokens target (by rw [written]; exact List.mem_cons_of_mem _ (List.mem_singleton_self _)))
    have same : text = (MipsImage.loadAddress destination target).text := by
      simp only [List.mem_cons, Fragment.instruction.injEq, List.not_mem_nil, or_false] at member
      rcases member with ⟨rfl, -⟩ | ⟨rfl, -⟩ <;> rfl
    rw [same, reread, ← written]
    exact h
  | @template p named fills =>
    obtain ⟨i, hi, heq⟩ := List.mem_map.1 member
    obtain ⟨template, ht, rfl⟩ := List.mem_map.1 hi
    cases heq
    rw [Template.ofText_fill ht tokens, numerals_short_iff]
    intro token htoken
    obtain ⟨operand, hoperand, rfl⟩ := List.mem_map.1 htoken
    rcases TemplateOperand.fill_cases ht hoperand (ofText t).operands with
      given | none | ⟨fixed, known, heq⟩
    · exact operands _ given
    · rw [none, operandNumerals_nil]
      exact nofun
    · rw [heq]
      exact TemplateOperand.numerals_fixed fixed known
  | itself =>
    cases List.mem_singleton.1 member
    exact h

/-! ## Lines -/

theorem expandInstruction_convertible {t : Text}
    (short : Numeral.AllShort (Instruction.ofText t).numerals) (cause : Unconvertible) :
    expandInstruction t ≠ .error (.conversion cause) := by
  intro h
  obtain ⟨source, member, failed⟩ := expandInstruction_eq_error h
  exact readInteger_operand_convertible (Instruction.numerals_short_iff.1 short source member)
    cause failed

/-! ## Strings -/

namespace StringBody

theorem bytesFrom_conversion {column : Nat} {body : Text} {cause : Unconvertible}
    (h : bytesFrom column body = .error (.conversion cause)) :
    ∃ run, cause = .surrogates run ∧ .surrogate run.first ∈ body := by
  have step {α β : Type} {f : α → β} {x : Except (Failure EscapeFault) α}
      (h : f <$> x = .error (.conversion cause)) : x = .error (.conversion cause) := by
    cases x with
    | ok value => cases h
    | error failure => exact congrArg Except.error (Except.error.inj h)
  have later {front rest : Text} :
      (∃ run, cause = .surrogates run ∧ .surrogate run.first ∈ rest) →
      ∃ run, cause = .surrogates run ∧ .surrogate run.first ∈ front ++ rest :=
    fun ⟨run, same, member⟩ => ⟨run, same, List.mem_append_right front member⟩
  fun_induction bytesFrom column body with
  | case1 | case3 | case5 | case6 | case7 => cases h
  | case2 column high low rest b _ ih =>
    exact @later [.char '\\', .char 'x', high, low] _ (ih (step h))
  | case4 column c rest _ b _ ih => exact @later [.char '\\', c] _ (ih (step h))
  | case8 column place rest =>
    cases h
    exact ⟨_, rfl, List.mem_cons_self ..⟩
  | case9 column c rest _ _ _ ih => exact @later [.char c] _ (ih (step h))

/-- Lone surrogates that keep a body from becoming bytes stand in it. -/
theorem Unencodable.mem {body : Text} {run : SurrogateRun} (unencodable : Unencodable body run) :
    .surrogate run.first ∈ body := by
  obtain ⟨_, same, member⟩ := bytesFrom_conversion unencodable
  cases same
  exact member

theorem Unencodable.decode_eq {body : Text} {run : SurrogateRun}
    (unencodable : Unencodable body run) :
    decode body = .error (.conversion (.surrogates run)) := by
  unfold Unencodable at unencodable
  rw [decode, unencodable]
  rfl

theorem decode_conversion {body : Text} {cause : Unconvertible}
    (h : decode body = .error (.conversion cause)) :
    ∃ run, Unencodable body run ∧ cause = .surrogates run := by
  unfold decode at h
  cases hbytes : bytes body with
  | ok value =>
    rw [hbytes] at h
    cases h
  | error failure =>
    rw [hbytes] at h
    cases failure with
    | fault reason => cases h
    | conversion other =>
      cases h
      obtain ⟨run, rfl, -⟩ := bytesFrom_conversion hbytes
      exact ⟨run, hbytes, rfl⟩

end StringBody

namespace Directive

theorem datum_convertible {width : Width} {token : Text}
    (short : Numeral.AllShort (Numeral.ofToken? token).toList) :
    (datum width token).Convertible := by
  rw [datum]
  split
  · refine (Outcome.convertible_ofExcept (readInteger_convertible short)).bind fun value => ?_
    split <;> exact nofun
  · exact Outcome.convertible_fault _

theorem data_convertible {width : Width} {tokens : List Text}
    (short : Numeral.AllShort (tokens.filterMap Numeral.ofToken?)) :
    (data width tokens).Convertible := by
  induction tokens with
  | nil => exact Outcome.convertible_ok _
  | cons token rest ih =>
    have first : Numeral.AllShort (Numeral.ofToken? token).toList := fun n hn =>
      short n (List.mem_filterMap.2 ⟨token, List.mem_cons_self .., Option.mem_toList.1 hn⟩)
    have later : Numeral.AllShort (rest.filterMap Numeral.ofToken?) := by
      intro n hn
      obtain ⟨other, member, read⟩ := List.mem_filterMap.1 hn
      exact short n (List.mem_filterMap.2 ⟨other, List.mem_cons_of_mem token member, read⟩)
    exact (datum_convertible first).bind fun _ => (ih later).bind fun _ => Outcome.convertible_ok _

theorem powerOfTwo_convertible {limit : Option Int} {body : Text}
    (short : Numeral.AllShort (Numeral.ofToken? body).toList) (cause : Unconvertible) :
    powerOfTwo limit body ≠ .error (.conversion cause) := by
  unfold powerOfTwo
  split
  · cases h : readInteger body with
    | error failure =>
      intro heq
      cases heq
      exact readInteger_convertible short cause h
    | ok exponent =>
      simp only [bind, Except.bind]
      split
      · unfold checkSize
        split
        · split <;> exact nofun
        · exact nofun
      · exact nofun
  · exact nofun

/-- The conversion that a string directive cannot make is that of its body. -/
theorem stringBytes_conversion {body : Text} {cause : Unconvertible}
    (h : stringBytes body = .error (.conversion cause)) :
    ∃ inner run, Quoted.body? body = some inner ∧ StringBody.Unencodable inner run ∧
      cause = .surrogates run := by
  unfold stringBytes at h
  split at h
  · rename_i inner found
    obtain ⟨run, unencodable, rfl⟩ := StringBody.decode_conversion h
    exact ⟨inner, run, found, unencodable, rfl⟩
  · cases h

/-- Where the numerals are short, the conversion that cannot be made is that of a string. -/
theorem expand_conversion {limit : Option Int} {body : Text} {directive : Directive}
    (short : Numeral.AllShort (directive.numerals body)) {cause : Unconvertible}
    (h : (directive.expand limit body).result = .error (.conversion cause)) :
    ∃ inner run, directive.string? body = some inner ∧ StringBody.Unencodable inner run ∧
      cause = .surrogates run := by
  have string {f : Bytes → Encoding Fragment} (hf : ∀ bytes, (f bytes).Convertible)
      (h : ((Outcome.ofExcept (stringBytes body)).bind f).result = .error (.conversion cause)) :
      ∃ inner run, Quoted.body? body = some inner ∧ StringBody.Unencodable inner run ∧
        cause = .surrogates run := by
    cases bytes : stringBytes body with
    | ok value =>
      rw [bytes] at h
      exact absurd h (hf value cause)
    | error failure =>
      rw [bytes] at h
      cases h
      exact stringBytes_conversion bytes
  cases directive with
  | ascii | asciiz => exact string (fun _ => Outcome.convertible_ok _) h
  | integers width =>
    exact absurd h ((data_convertible short).bind (fun _ => Outcome.convertible_ok _) cause)
  | space | align =>
    exact absurd h ((Outcome.convertible_ofExcept (powerOfTwo_convertible short)).bind
      (fun _ => Outcome.convertible_ok _) cause)

theorem expand_ne_instruction {limit : Option Int} {body : Text} {directive : Directive}
    {notes : List Truncation} {text : Text} {half : Option Half} :
    directive.expand limit body ≠ ⟨notes, .ok (.instruction text half)⟩ := by
  intro h
  cases directive <;> obtain ⟨_, _, _, -, hform, -⟩ := Outcome.bind_eq_ok_iff.1 h <;> cases hform

end Directive

theorem SourceLine.numerals_of_headers {line : SourceLine} {names : List Text} {body : Text}
    (headers : Label.Headers line.text names body) :
    line.numerals = match Directive.ofText? body with
      | some (directive, body) => directive.numerals body
      | none => (Instruction.ofText body).numerals := by
  rw [numerals, Label.split_eq_iff.2 headers]

theorem expandLine_conversion {limit : Option Int} {line : SourceLine} {names : List Text}
    {body : Text} (headers : Label.Headers line.text names body)
    (short : Numeral.AllShort line.numerals) {cause : Unconvertible}
    (h : (expandLine limit body).result = .error (.conversion cause)) :
    ∃ run, line.Unencodable run ∧ cause = .surrogates run := by
  have divided := Label.split_eq_iff.2 headers
  rw [SourceLine.numerals_of_headers headers] at short
  unfold expandLine at h
  split at h
  · rename_i directive text hdirective
    rw [hdirective] at short
    rcases hexpand : directive.expand limit text with ⟨notes, result⟩
    cases result with
    | ok fragment =>
      rw [hexpand] at h
      cases h
    | error failure =>
      rw [hexpand] at h
      cases h
      obtain ⟨inner, run, found, unencodable, rfl⟩ :=
        Directive.expand_conversion short (congrArg Outcome.result hexpand)
      refine ⟨run, ⟨inner, ?_, unencodable⟩, rfl⟩
      rw [SourceLine.string?, divided]
      exact Option.bind_eq_some_iff.2 ⟨_, hdirective, found⟩
  · rename_i hnone
    rw [hnone] at short
    exact absurd h (expandInstruction_convertible short cause)

/-- The instructions that a line without long numerals stands for have none either. -/
theorem SourceLine.Expands.short {limit : Option Int} {line : SourceLine} {names : List Text}
    {fragments : List Fragment} {notes : List Truncation}
    (expands : line.Expands limit names fragments notes) (short : Numeral.AllShort line.numerals) :
    ∀ text half, .instruction text half ∈ fragments →
      Numeral.AllShort (Instruction.ofText text).numerals := by
  intro text half member
  cases expands with
  | labels _ => cases List.mem_singleton.1 member
  | body headers present expanded =>
    rw [numerals_of_headers headers] at short
    unfold expandLine at expanded
    split at expanded
    · obtain ⟨fragment, _, _, hfragment, heq, -⟩ := Outcome.bind_eq_ok_iff.1 expanded
      cases heq
      cases List.mem_singleton.1 member
      exact absurd hfragment Directive.expand_ne_instruction
    · rename_i hnone
      rw [hnone] at short
      have becomes := expandInstruction_becomes (Outcome.ofExcept_eq_ok_iff.1 expanded).1
      exact becomes.short short text half member

end MipsImage
