import Mathlib.Data.Nat.Digits.Lemmas
import MipsImage.Proofs.Respelling

/-!
# Integers as they are printed

An integer is printed with digits of any script in decimal or of either case in hexadecimal, and
with any number of zeros in front. The texts that can come of it are just the literals, and each of
them is read as the integer that was printed, both on its own and as the offset before a register:
what is accepted in front of a register is nothing else than a literal.
-/
set_option autoImplicit false

namespace MipsImage

/-! ## Digits by position -/

namespace Radix

/-- What stands between the sign of a literal and its digits. -/
def marks : Radix → List Text
  | decimal => [[]]
  | hexadecimal => ["0x".toText, "0X".toText]

def digit? : Radix → CodePoint → Option Nat
  | decimal => Text.decimalDigit?
  | hexadecimal => Text.hexDigit?

variable {radix : Radix}

theorem one_lt_base : 1 < radix.base := by
  cases radix <;> decide

theorem lt_base_of_digit? {c : CodePoint} {value : Nat} (h : radix.digit? c = some value) :
    value < radix.base := by
  cases radix with
  | decimal =>
    obtain ⟨first, found, rfl⟩ := Option.map_eq_some_iff.1 h
    have within := List.find?_some found
    rw [Bool.and_eq_true, decide_eq_true_eq, decide_eq_true_eq] at within
    exact Nat.sub_lt_left_of_lt_add within.1 within.2
  | hexadecimal =>
    simp only [digit?, Text.hexDigit?] at h
    split_ifs at h <;> cases h <;> simp only [base] <;> omega

/-- The digits of a number, most significant first, after some zeros. -/
def padded (radix : Radix) (zeros n : Nat) : List Nat :=
  List.replicate zeros 0 ++ (Nat.digits radix.base n).reverse

theorem ofDigits_padded (zeros n : Nat) :
    Nat.ofDigits radix.base (radix.padded zeros n).reverse = n := by
  rw [padded, List.reverse_append, List.reverse_reverse, List.reverse_replicate,
    Nat.ofDigits_append_replicate_zero, Nat.ofDigits_digits]

/-- All lists of digits are digits of numbers after some zeros. -/
theorem exists_padded {values : List Nat} (small : ∀ value ∈ values, value < radix.base) :
    ∃ zeros, values = radix.padded zeros (Nat.ofDigits radix.base values.reverse) := by
  have inverse := (Nat.setInvOn_digitsAppend_ofDigits radix.one_lt_base values.length).1
    (x := values.reverse)
    ⟨List.length_reverse, fun value member => small value (List.mem_reverse.1 member)⟩
  refine ⟨values.length - (Nat.digits radix.base (Nat.ofDigits radix.base values.reverse)).length,
    List.reverse_injective ?_⟩
  rw [padded, List.reverse_append, List.reverse_reverse, List.reverse_replicate]
  exact inverse.symm

end Radix

namespace Numeral

theorem magnitude_eq_ofDigits (m : Numeral) :
    m.magnitude = Nat.ofDigits m.radix.base m.digits.reverse := by
  rw [magnitude, Nat.ofDigits_eq_foldr, List.foldr_reverse]
  simp only [Nat.cast_id, Nat.mul_comm, Nat.add_comm]

/-! ## Renderings -/

/-- The sign of an integer as it is printed; zero may have one. -/
inductive Sign (n : Int) : Text → Prop
  | none (nonneg : 0 ≤ n) : Sign n []
  | minus (nonpos : n ≤ 0) : Sign n [.char '-']

/-- A text is the integer printed in some radix with so many digits: after its sign and the mark of
the radix come zeros and its own digits, each as a character with the value of the digit. -/
inductive Rendering (n : Int) (radix : Radix) : Nat → Text → Prop
  | mk {sign mark digits : Text} (zeros : Nat) (signed : Sign n sign) (marked : mark ∈ radix.marks)
    (present : digits ≠ [])
    (printed : List.Forall₂ (fun c value => radix.digit? c = some value) digits
      (radix.padded zeros n.natAbs)) :
    Rendering n radix digits.length (sign ++ (mark ++ digits))

theorem unsigned_iff {t : Text} {radix : Radix} {values : List Nat} :
    Unsigned t radix values ↔ ∃ mark ∈ radix.marks, ∃ digits, t = mark ++ digits ∧ digits ≠ [] ∧
      List.Forall₂ (fun c value => radix.digit? c = some value) digits values := by
  constructor
  · intro h
    cases h with
    | decimal present digits => exact ⟨[], List.mem_singleton_self _, t, rfl, present, digits⟩
    | @hexadecimal mark rest _ marked present digits =>
      refine ⟨[.char '0', mark], ?_, rest, rfl, present, digits⟩
      rcases marked with rfl | rfl <;> decide
  · rintro ⟨mark, marked, digits, rfl, present, printed⟩
    cases radix with
    | decimal =>
      rw [List.mem_singleton.1 marked]
      exact .decimal present printed
    | hexadecimal =>
      simp only [Radix.marks, List.mem_cons, List.not_mem_nil, or_false] at marked
      rcases marked with rfl | rfl
      · exact .hexadecimal (.inl rfl) present printed
      · exact .hexadecimal (.inr rfl) present printed

/-- Digits behind a sign are a rendering of any integer whose absolute value they have. -/
theorem Unsigned.rendering {t sign : Text} {radix : Radix} {values : List Nat} {n : Int}
    (unsigned : Unsigned t radix values) (signed : Sign n sign)
    (same : n.natAbs = Nat.ofDigits radix.base values.reverse) :
    Rendering n radix values.length (sign ++ t) := by
  obtain ⟨mark, marked, digits, rfl, present, printed⟩ := unsigned_iff.1 unsigned
  have small : ∀ value ∈ values, value < radix.base := by
    intro value member
    obtain ⟨c, -, own⟩ := exists_mem_of_forall₂ printed member
    exact Radix.lt_base_of_digit? own
  obtain ⟨zeros, padded⟩ := Radix.exists_padded small
  rw [← same] at padded
  rw [← printed.length_eq]
  exact .mk zeros signed marked present (padded ▸ printed)

/-- The renderings of an integer are the literals with its value. -/
theorem rendering_iff_written {n : Int} {radix : Radix} {count : Nat} {t : Text} :
    Rendering n radix count t ↔
      ∃ m, Written t m ∧ m.radix = radix ∧ m.digits.length = count ∧ m.value = n := by
  constructor
  · rintro ⟨zeros, signed, marked, present, printed⟩
    have unsigned := unsigned_iff.2 ⟨_, marked, _, rfl, present, printed⟩
    have length := printed.length_eq.symm
    have magnitude (negative : Bool) :
        magnitude ⟨negative, radix, radix.padded zeros n.natAbs⟩ = n.natAbs := by
      rw [magnitude_eq_ofDigits, Radix.ofDigits_padded]
    cases signed with
    | none nonneg =>
      refine ⟨_, .positive unsigned, rfl, length, ?_⟩
      rw [value, magnitude]
      exact Int.natAbs_of_nonneg nonneg
    | minus nonpos =>
      refine ⟨_, .negative unsigned, rfl, length, ?_⟩
      rw [value, magnitude, if_pos rfl, Int.ofNat_natAbs_of_nonpos nonpos, Int.neg_neg]
  · rintro ⟨m, written, rfl, rfl, rfl⟩
    cases written with
    | positive unsigned =>
      refine unsigned.rendering (.none (Int.natCast_nonneg _)) ?_
      rw [Int.natAbs_natCast, magnitude_eq_ofDigits]
    | negative unsigned =>
      refine unsigned.rendering (.minus (Int.neg_nonpos_of_nonneg (Int.natCast_nonneg _))) ?_
      rw [Int.natAbs_neg, Int.natAbs_natCast, magnitude_eq_ofDigits]

theorem short_iff {m : Numeral} :
    m.isOverlong = false ↔ (m.radix = .decimal → m.digits.length ≤ 4300) := by
  rw [isOverlong, Bool.and_eq_false_imp, decide_eq_true_eq]
  refine forall_congr' fun _ => ?_
  rw [decide_eq_false_iff_not, Nat.not_lt, maxDecimalDigits]

section Reading
variable {n : Int} {radix : Radix} {count : Nat} {t : Text}

/-- Whatever blanks stand around it, a rendering is read as the integer, unless it has too many
decimal digits. -/
theorem Rendering.readInteger_eq (rendering : Rendering n radix count t)
    (short : radix = .decimal → count ≤ 4300) {before after : Text}
    (start : ∀ c ∈ before, Text.isBlank c = true) (stop : ∀ c ∈ after, Text.isBlank c = true) :
    readInteger (before ++ (t ++ after)) = .ok n := by
  obtain ⟨m, written, rfl, rfl, rfl⟩ := rendering_iff_written.1 rendering
  have found : ofToken? (before ++ (t ++ after)) = some m := by
    rw [ofToken?, Text.trim_blanks_append start, Text.trim_append_blanks stop, ← ofToken?,
      written.ofToken?_eq]
  rw [readInteger, found]
  dsimp only
  rw [convert, short_iff.2 short]
  rfl

end Reading

end Numeral

/-- What is no literal fails to be read, and nothing else does so with a fault. -/
theorem readInteger_eq_fault_iff {t : Text} {fault : Fault} :
    readInteger t = .error (.fault fault) ↔ isInteger t = false ∧ fault = .invalidLiteral t := by
  rw [readInteger, isInteger]
  cases Numeral.ofToken? t with
  | none => simp [eq_comm]
  | some m =>
    dsimp only
    rw [Numeral.convert]
    split <;> simp

/-! ## Names of registers -/

namespace Text

/-- The only capital beyond ASCII with a small form in ASCII is the sign of the kelvin. -/
theorem le_add_shift {run : CaseRun} (member : run ∈ capitalRuns) {c : CodePoint}
    (covers : run.covers c.toNat = true) (kelvin : c ≠ .char '\u212A') :
    0x80 ≤ (c.toNat : Int) + run.shift := by
  have table : ∀ run ∈ capitalRuns,
      0x80 ≤ (run.first : Int) + run.shift ∨ run.first = 0x212A ∧ run.last = 0x212A := by
    decide +kernel
  rw [CaseRun.covers, Bool.and_eq_true, Bool.and_eq_true, decide_eq_true_eq,
    decide_eq_true_eq] at covers
  rcases table run member with above | ⟨first, last⟩
  · omega
  · have own : c.toNat = 0x212A := by omega
    refine absurd ?_ kelvin
    rw [← CodePoint.ofNat_toNat c, own]
    rfl

/-- A character whose small form is a letter or digit of ASCII is a word character. -/
theorem isWordChar_of_lowerChar {c : CodePoint} (small : (lowerChar c).toNat < 0x80)
    (word : isAsciiWordChar (lowerChar c) = true) : isWordChar c = true := by
  have ascii : ∀ n < 0x80, isAsciiWordChar (CodePoint.ofNat n).toLower = true →
      isWordChar (CodePoint.ofNat n) = true := by decide +kernel
  by_cases own : c.toNat < 0x80
  · rw [lowerChar, if_pos own] at word
    have known := ascii c.toNat own
    rw [CodePoint.ofNat_toNat] at known
    exact known word
  by_cases kelvin : c = '\u212A'
  · rw [kelvin]
    decide +kernel
  rw [lowerChar, if_neg own] at small word
  split at small
  · rename_i run found
    have covers := List.find?_some found
    have above := le_add_shift (List.mem_of_find?_eq_some found) covers kelvin
    rw [found] at word
    dsimp only at word
    unfold CodePoint.ofNat at small word
    split at small
    · simp only [CodePoint.toNat, CodePoint.firstSurrogate] at small
      omega
    · rename_i other
      rw [dif_neg other] at word
      -- a number that belongs to no character gives the null character
      by_cases valid : ((c.toNat : Int) + run.shift).toNat.isValidChar
      · rw [Char.ofNat, dif_pos valid] at small
        have code : ((c.toNat : Int) + run.shift).toNat < 0x80 := small
        omega
      · rw [Char.ofNat, dif_neg valid] at word
        exact absurd word (by decide)
  · exact absurd small own

/-- A text of which every small form is a letter or digit of ASCII is made of word characters. -/
theorem forall_isWordChar_of_lowerFrom {before t : Text}
    (h : ∀ d ∈ lowerFrom before t, d.toNat < 0x80 ∧ isAsciiWordChar d = true) :
    ∀ c ∈ t, isWordChar c = true := by
  induction t generalizing before with
  | nil => exact List.forall_mem_nil _
  | cons c rest ih =>
    rw [lowerFrom, List.forall_mem_append] at h
    refine List.forall_mem_cons.2 ⟨?_, ih h.2⟩
    have own := h.1
    unfold lowerWithin at own
    split at own
    · split at own <;> exact absurd (own _ (List.mem_singleton_self _)).1 (by decide)
    · split at own
      · exact absurd (own (.char '\u0307') (by decide)).1 (by decide)
      · have single := own _ (List.mem_singleton_self _)
        exact isWordChar_of_lowerChar single.1 single.2

end Text

/-- A register is named by a dollar sign and word characters. -/
theorem Register.exists_word {t : Text} {r : Register} (named : ofToken? t = some r)
    (trimmed : Text.trim t = t) :
    ∃ word, t = .char '$' :: word ∧ word ≠ [] ∧ ∀ c ∈ word, Text.isWordChar c = true := by
  have table : ∀ entry ∈ names, entry.1.toText ≠ [.char '$'] ∧
      entry.1.toText.tail.all (fun d => d.toNat < 0x80 ∧ Text.isAsciiWordChar d = true) = true := by
    decide +kernel
  have head := head?_of_ofToken? named
  obtain ⟨entry, member, name⟩ := of_ofToken? named
  rw [trimmed] at head name
  cases t with
  | nil => cases head
  | cons c word =>
    cases head
    have lower :
        Text.toLower (.char '$' :: word) = .char '$' :: Text.lowerFrom [.char '$'] word := rfl
    rw [lower] at name
    obtain ⟨some, plain⟩ := table entry member
    rw [name] at some plain
    refine ⟨word, rfl, ?_, Text.forall_isWordChar_of_lowerFrom (by simpa using plain)⟩
    rintro rfl
    exact some rfl

/-! ## Offsets -/

namespace SymbolTable

variable {t name : Text} {numeral : Option Numeral}

/-- What is taken for an operand `offset($name)` is one, a closing line feed aside. -/
theorem of_indexed? (h : indexed? t = some (numeral, name)) :
    ∃ whole after, Indexed whole numeral name ∧ Text.isAtEnd after = true ∧ t = whole ++ after := by
  unfold indexed? at h
  split at h
  · rename_i offset rest cut
    obtain ⟨rfl, -⟩ := Text.of_cut_eq_some cut
    split at h
    · rename_i after behind
      have parts : rest.takeWhile Text.isWordChar ++ .char ')' :: after = rest := by
        rw [← behind, List.takeWhile_append_dropWhile]
      have word : ∀ c ∈ rest.takeWhile Text.isWordChar, Text.isWordChar c = true :=
        fun c member => List.mem_takeWhile_imp member
      have text : offset ++ .char '(' :: .char '$' :: rest =
          offset ++ .char '(' :: .char '$' :: (rest.takeWhile Text.isWordChar ++ [.char ')']) ++
            after := by
        rw [List.append_assoc, List.cons_append, List.cons_append, List.append_assoc,
          List.singleton_append, parts]
      dsimp only at h
      cases guard : decide (rest.takeWhile Text.isWordChar = []) || !Text.isAtEnd after with
      | true =>
        rw [guard, if_pos rfl] at h
        cases h
      | false =>
        rw [guard, if_neg Bool.false_ne_true] at h
        rw [Bool.or_eq_false_iff, decide_eq_false_iff_not, Bool.not_eq_false'] at guard
        split at h
        · rename_i empty
          cases h
          subst empty
          exact ⟨_, after, .mk .none guard.1 word, guard.2, text⟩
        · obtain ⟨m, read, same⟩ := Option.map_eq_some_iff.1 h
          cases same
          exact ⟨_, after, .mk (.some (Numeral.ofText?_eq_some_iff.1 read)) guard.1 word,
            guard.2, text⟩
    · cases h
  · cases h

section Named
variable {r : Text} {d : Register} (named : Register.ofToken? r = some d)
  (trimmed : Text.trim r = r)
include named trimmed

/-- Before a register stands nothing or a literal. -/
theorem indexed?_isSome_iff (offset : Text) :
    (indexed? (offset ++ .char '(' :: (r ++ [.char ')']))).isSome = true ↔
      offset = [] ∨ ∃ m, Numeral.Written offset m := by
  obtain ⟨word, rfl, present, solid⟩ := Register.exists_word named trimmed
  constructor
  · intro h
    obtain ⟨⟨numeral, name⟩, found⟩ := Option.isSome_iff_exists.1 h
    obtain ⟨whole, after, ⟨written, -, own⟩, closed, text⟩ := of_indexed? found
    rename_i front name'
    -- there is one parenthesis that opens, so both offsets end in front of it
    have before : .char '(' ∉ front := fun member => absurd (written.forall _ member) (by decide)
    have behind : .char '(' ∉ .char '$' :: (name' ++ [.char ')']) ++ after := by
      have word : .char '(' ∉ name' := fun member => absurd (own _ member) (by decide)
      rw [Text.isAtEnd, Bool.or_eq_true, decide_eq_true_eq, decide_eq_true_eq] at closed
      rcases closed with rfl | rfl <;> simp [word]
    rw [List.cons_append, List.append_assoc, List.cons_append] at text
    obtain ⟨rfl, -, -⟩ := (List.append_cons_inj_of_notMem before behind).1 text.symm
    cases written with
    | none => exact .inl rfl
    | some written => exact .inr ⟨_, written⟩
  · rintro (rfl | ⟨m, written⟩)
    · have indexed : Indexed ([] ++ .char '(' :: .char '$' :: (word ++ [.char ')'])) none
          (.char '$' :: word) := .mk .none present solid
      rw [List.cons_append, indexed.indexed?_eq]
      rfl
    · have indexed : Indexed (offset ++ .char '(' :: .char '$' :: (word ++ [.char ')'])) (some m)
          (.char '$' :: word) :=
        .mk (.some written) present solid
      rw [List.cons_append, indexed.indexed?_eq]
      rfl

/-- A rendering before a register is the offset that was printed. -/
theorem resolveMemory_rendering {n : Int} {radix : Radix} {count : Nat} {t : Text}
    (rendering : Numeral.Rendering n radix count t) (short : radix = .decimal → count ≤ 4300)
    (symbols : SymbolTable) :
    symbols.resolveMemory (t ++ .char '(' :: (r ++ [.char ')'])) = .ok (d, n) := by
  obtain ⟨m, written, rfl, rfl, rfl⟩ := Numeral.rendering_iff_written.1 rendering
  have base := Register.parse_eq_ok_iff.2 named
  obtain ⟨word, rfl, present, solid⟩ := Register.exists_word named trimmed
  have indexed :
      Indexed (t ++ .char '(' :: .char '$' :: (word ++ [.char ')'])) (some m) (.char '$' :: word) :=
    .mk (.some written) present solid
  rw [resolveMemory, List.cons_append, indexed.indexed?_eq]
  simp only [base, Numeral.convert, Numeral.short_iff.2 short, bind, Except.bind, pure,
    Except.pure, Bool.false_eq_true, if_false]

end Named

/-- An offset before a register is a literal, so it is never refused as one. -/
theorem resolveMemory_ne_invalidLiteral (symbols : SymbolTable) (t operand : Text) :
    symbols.resolveMemory t ≠ .error (.fault (.invalidLiteral operand)) := by
  unfold resolveMemory
  split
  · rename_i offset name found
    cases parsed : Register.parse name with
    | error failure =>
      intro h
      cases h
      cases (Register.parse_eq_error_iff.1 parsed).2
    | ok base =>
      cases offset with
      | none => simp [bind, Except.bind, pure, Except.pure]
      | some m =>
        cases long : m.isOverlong <;>
          simp [bind, Except.bind, Numeral.convert, long, pure, Except.pure]
  · split <;> simp

end SymbolTable

/-- The literals are the integers as they are printed, whether they stand alone or before a
register, and they are read as what was printed; whatever else stands alone is refused as no
literal, and no operand with a register is. -/
theorem integers_read_back :
    (∀ t, isInteger t = true ↔ ∃ m, Numeral.Written (Text.trim t) m) ∧
    (∀ t fault, readInteger t = .error (.fault fault) ↔
      isInteger t = false ∧ fault = .invalidLiteral t) ∧
    (∀ t, (∃ m, Numeral.Written t m) ↔ ∃ n radix count, Numeral.Rendering n radix count t) ∧
    (∀ n radix count t, Numeral.Rendering n radix count t → (radix = .decimal → count ≤ 4300) →
      (∀ before after, (∀ c ∈ before, Text.isBlank c = true) →
        (∀ c ∈ after, Text.isBlank c = true) →
        readInteger (before ++ (t ++ after)) = .ok n) ∧
      ∀ symbols r d, Register.ofToken? r = some d → Text.trim r = r →
        SymbolTable.resolveMemory symbols (t ++ .char '(' :: (r ++ [.char ')'])) = .ok (d, n)) ∧
    (∀ offset r d, Register.ofToken? r = some d → Text.trim r = r →
      ((SymbolTable.indexed? (offset ++ .char '(' :: (r ++ [.char ')']))).isSome = true ↔
        offset = [] ∨ ∃ m, Numeral.Written offset m)) ∧
    ∀ symbols t operand,
      SymbolTable.resolveMemory symbols t ≠ .error (.fault (.invalidLiteral operand)) := by
  refine ⟨fun t => ⟨written_of_isInteger, ?_⟩, fun t fault => readInteger_eq_fault_iff,
    fun t => ⟨?_, ?_⟩, fun n radix count t rendering short => ⟨?_, ?_⟩, ?_,
    SymbolTable.resolveMemory_ne_invalidLiteral⟩
  · rintro ⟨m, written⟩
    rw [isInteger, Numeral.ofToken?, Numeral.ofText?_eq_some_iff.2 written]
    rfl
  · rintro ⟨m, written⟩
    exact ⟨m.value, m.radix, m.digits.length,
      Numeral.rendering_iff_written.2 ⟨m, written, rfl, rfl, rfl⟩⟩
  · rintro ⟨n, radix, count, rendering⟩
    obtain ⟨m, written, -⟩ := Numeral.rendering_iff_written.1 rendering
    exact ⟨m, written⟩
  · intro before after start stop
    exact rendering.readInteger_eq short start stop
  · intro symbols r d named trimmed
    exact SymbolTable.resolveMemory_rendering named trimmed rendering short symbols
  · intro offset r d named trimmed
    exact SymbolTable.indexed?_isSome_iff named trimmed offset

/-- Zeros in front, capitals beside small letters and digits of two scripts make no difference. -/
theorem integers_read_back_scripts :
    let hexadecimal := "-0x00Ff".toText
    let decimal := "٠٤2".toText
    readInteger ([.char ' '] ++ (hexadecimal ++ [.char '\t'])) = .ok (-255) ∧
    SymbolTable.resolveMemory [] (hexadecimal ++ .char '(' :: ("$T0".toText ++ [.char ')'])) =
      .ok (8, -255) ∧
    readInteger ([] ++ (decimal ++ [])) = .ok 42 ∧
    SymbolTable.resolveMemory [] (decimal ++ .char '(' :: ("$29".toText ++ [.char ')'])) =
      .ok (29, 42) := by
  intro hexadecimal decimal
  have first : Numeral.Rendering (-255) .hexadecimal 4 hexadecimal :=
    Numeral.rendering_iff_written.2 ⟨⟨true, .hexadecimal, [0, 0, 15, 15]⟩,
      Numeral.ofText?_eq_some_iff.1 (by rfl), rfl, rfl, by rfl⟩
  have second : Numeral.Rendering 42 .decimal 3 decimal :=
    Numeral.rendering_iff_written.2 ⟨⟨false, .decimal, [0, 4, 2]⟩,
      Numeral.ofText?_eq_some_iff.1 (by rfl), rfl, rfl, by rfl⟩
  obtain ⟨-, -, -, readings, -⟩ := integers_read_back
  obtain ⟨alone, offset⟩ := readings _ _ _ _ first (by simp)
  obtain ⟨alone', offset'⟩ := readings _ _ _ _ second (fun _ => by decide)
  exact ⟨alone [.char ' '] [.char '\t'] (List.forall_mem_singleton.2 (by decide))
      (List.forall_mem_singleton.2 (by decide)), offset _ _ _ (by rfl) (by rfl),
    alone' [] [] (List.forall_mem_nil _) (List.forall_mem_nil _), offset' _ _ _ (by rfl) (by rfl)⟩

end MipsImage
