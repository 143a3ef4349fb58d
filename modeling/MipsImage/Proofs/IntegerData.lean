import MipsImage.Expansion
import MipsImage.Proofs.DecimalText
import MipsImage.Proofs.Directives
import MipsImage.Proofs.EncodedFields
import MipsImage.Proofs.Layout
import MipsImage.Proofs.LineLimit
import MipsImage.Proofs.Literals
import MipsImage.Proofs.Numerals

/-!
# Integer data

An integer directive lays out its literals one after another, each in as many bytes as the directive
says and with the most significant byte first. Only the low bits of a literal are kept, with a
warning if that loses any, and the first item that is no literal stops the line. What is in range is
found again in the bytes.
-/
set_option autoImplicit false

namespace MipsImage

/-! ## Numbers in bytes -/

namespace Bytes

/-- The number that bytes write with the most significant one first. -/
def value (bytes : Bytes) : Nat := bytes.foldl (fun n b => 256 * n + b.toNat) 0

theorem value_append_singleton (bytes : Bytes) (b : UInt8) :
    value (bytes ++ [b]) = 256 * value bytes + b.toNat := by
  simp only [value, List.foldl_append, List.foldl_cons, List.foldl_nil]

theorem value_bigEndian (width n : Nat) :
    value (bigEndian width n) = n % 256 ^ width := by
  induction width generalizing n with
  | zero => rw [Nat.pow_zero, Nat.mod_one]; rfl
  | succ width ih =>
    have byte : (UInt8.ofNat n).toNat = n % 256 := UInt8.toNat_ofNat'
    rw [bigEndian, value_append_singleton, ih, byte, Nat.pow_succ', Nat.mod_mul, Nat.add_comm]

/-- The numbers that groups of so many bytes hold, each with its most significant byte first. -/
def numbers (width : Nat) (bytes : Bytes) : List Nat :=
  (List.range (bytes.length / width)).map fun i =>
    value ((bytes.drop (i * width)).take width)

theorem numbers_append {width : Nat} {first : Bytes} (positive : 0 < width)
    (length : first.length = width) (rest : Bytes) :
    numbers width (first ++ rest) = value first :: numbers width rest := by
  have size : (first ++ rest).length / width = rest.length / width + 1 := by
    rw [List.length_append, length, Nat.add_comm, Nat.add_div_right _ positive]
  unfold numbers
  rw [size, List.range_succ_eq_map, List.map_cons, List.map_map]
  congr 1
  · rw [Nat.zero_mul, List.drop_zero, List.take_left' length]
  · apply List.map_congr_left
    intro i _
    rw [Function.comp_apply, Nat.succ_mul, Nat.add_comm, ← List.drop_drop, List.drop_left' length]

/-- Groups of equal size are found where they were put. -/
theorem numbers_flatMap {α : Type} {width : Nat} {f : α → Bytes} (positive : 0 < width)
    (length : ∀ x, (f x).length = width) (items : List α) :
    numbers width (items.flatMap f) = items.map fun x => value (f x) := by
  induction items with
  | nil => rw [List.flatMap_nil, numbers, List.length_nil, Nat.zero_div]; rfl
  | cons x rest ih => rw [List.flatMap_cons, numbers_append positive (length x), ih, List.map_cons]

end Bytes

/-! ## Literals and their bytes -/

/-- A literal that can be converted, as it is written. -/
structure Literal where
  token : Text
  numeral : Numeral
  written : Numeral.Written token numeral
  short : numeral.isOverlong = false

namespace Literal

def value (l : Literal) : Int := l.numeral.value

/-- The warning that is due if a literal is out of range. -/
def truncation? (width : Width) (l : Literal) : Option Truncation :=
  if 0 ≤ l.value ∧ l.value < 2 ^ width.bitCount then none else some ⟨l.token, width.bitCount⟩

def bytes (width : Width) (l : Literal) : Bytes :=
  Bytes.bigEndian width.byteCount (Bits.low width.bitCount l.value)

variable (width : Width) (l : Literal)

theorem bytes_length : (l.bytes width).length = width.byteCount :=
  Bytes.bigEndian_length _ _

theorem value_bytes :
    Bytes.value (l.bytes width) = Bits.low width.bitCount l.value := by
  have range : 256 ^ width.byteCount = Bits.count width.bitCount := by
    rw [Bits.count, Width.bitCount, Nat.pow_eq, Nat.pow_mul]
  rw [bytes, Bytes.value_bigEndian, range, Nat.mod_eq_of_lt (Bits.low_lt _ _)]

theorem flatMap_bytes_length (literals : List Literal) :
    (literals.flatMap (bytes width)).length = width.byteCount * literals.length := by
  simp [List.length_flatMap, bytes_length, Nat.mul_comm]

/-- The numbers in the bytes of literals are their low bits. -/
theorem numbers_flatMap (literals : List Literal) :
    (Bytes.numbers width.byteCount (literals.flatMap (bytes width))).map Int.ofNat =
      literals.map fun l => l.value % 2 ^ width.bitCount := by
  have positive : 0 < width.byteCount := by cases width <;> decide
  rw [Bytes.numbers_flatMap positive (bytes_length width), List.map_map]
  apply List.map_congr_left
  intro l _
  rw [Function.comp_apply, value_bytes]
  exact Bits.natCast_low _ _

end Literal

/-! ## Items of a directive -/

namespace Directive

variable {width : Width}

theorem datum_literal (l : Literal) :
    datum width l.token = ⟨(l.truncation? width).toList, .ok (l.bytes width)⟩ := by
  have range : Bits.fitsUnsigned width.bitCount l.value = true ↔
      0 ≤ l.value ∧ l.value < 2 ^ width.bitCount := by
    have cast : (Bits.count width.bitCount : Int) = 2 ^ width.bitCount := Int.natCast_pow 2 _
    simp only [Bits.fitsUnsigned, cast, Bool.and_eq_true, decide_eq_true_eq]
  have read : readInteger l.token = .ok l.value := l.written.readInteger_eq_ok l.short
  rw [datum, if_pos l.written.isInteger, read, Literal.truncation?]
  by_cases inside : 0 ≤ l.value ∧ l.value < 2 ^ width.bitCount
  · rw [if_pos inside]
    exact if_pos (range.2 inside)
  · rw [if_neg inside]
    exact if_neg (mt range.1 inside)

theorem datum_of_not_written {token : Text} (form : Text.IsToken token)
    (other : ∀ n, ¬Numeral.Written token n) :
    datum width token = ⟨[], .error (.fault (.invalidDatum width token))⟩ := by
  have unknown : Numeral.ofToken? token = none := by
    rw [Numeral.ofToken?, form.trimmed, Option.eq_none_iff_forall_ne_some]
    exact fun n read => other n (Numeral.ofText?_eq_some_iff.1 read)
  rw [datum, isInteger, unknown]
  rfl

/-- What literals give comes before whatever the other items give. -/
theorem data_append (literals : List Literal) (rest : List Text) :
    data width (literals.map Literal.token ++ rest) =
      (⟨literals.filterMap (Literal.truncation? width),
          .ok (literals.flatMap (Literal.bytes width))⟩ : Encoding Bytes).bind fun front =>
        (data width rest).bind fun back => Outcome.ok (front ++ back) := by
  simp only [List.filterMap_eq_flatMap_toList]
  induction literals with
  | nil => exact ((Outcome.ok_bind _ _).trans (Outcome.bind_ok _)).symm
  | cons l more ih =>
    rw [List.map_cons, List.cons_append, data, datum_literal, ih]
    obtain ⟨notes, result⟩ := data width rest
    cases result with
    | error failure => simp [Outcome.bind_eq, Outcome.bind]
    | ok back => simp [Outcome.bind_eq, Outcome.bind, Outcome.ok, Outcome.pure_eq_ok]

theorem data_literals (literals : List Literal) :
    data width (literals.map Literal.token) =
      ⟨literals.filterMap (Literal.truncation? width),
        .ok (literals.flatMap (Literal.bytes width))⟩ := by
  have whole := @data_append width literals []
  rw [List.append_nil] at whole
  rw [whole, data]
  simp [Outcome.bind, Outcome.ok, Outcome.pure_eq_ok]

theorem data_of_not_written (literals : List Literal) {token : Text} (form : Text.IsToken token)
    (other : ∀ n, ¬Numeral.Written token n) (after : List Text) :
    data width (literals.map Literal.token ++ token :: after) =
      ⟨literals.filterMap (Literal.truncation? width),
        .error (.fault (.invalidDatum width token))⟩ := by
  rw [data_append, data, datum_of_not_written form other]
  simp [Outcome.bind_eq, Outcome.bind]

theorem expandLine_integers {body : Text} {items : List Text} (limit : Option Int)
    (present : body ≠ []) (line : .char '\n' ∉ body)
    (hitems : (Text.splitOn (.char ',') body).map Text.trim = items) :
    expandLine limit ((integers width).name ++ .char ' ' :: body) =
      (data width items).bind fun bytes => Outcome.ok [.data bytes] := by
  have named : named? (integers width).name = some (integers width) := by cases width <;> rfl
  rw [expandLine, ofText?_append_space (integers width).not_mem_space line present, named,
    ← hitems]
  exact Outcome.bind_assoc _ _ _

theorem expandLine_of_literals {body : Text} {literals : List Literal} (limit : Option Int)
    (present : body ≠ []) (line : .char '\n' ∉ body)
    (items : (Text.splitOn (.char ',') body).map Text.trim = literals.map Literal.token) :
    expandLine limit ((integers width).name ++ .char ' ' :: body) =
      ⟨literals.filterMap (Literal.truncation? width),
        .ok [.data (literals.flatMap (Literal.bytes width))]⟩ := by
  rw [expandLine_integers limit present line items, data_literals]
  exact Outcome.bind_eq_ok_iff.2 ⟨_, _, [], rfl, rfl, (List.append_nil _).symm⟩

/-- Literals in range that are listed after a directive are found again, without a warning. -/
theorem expandLine_in_range {literals : List Literal} (limit : Option Int)
    (some : literals ≠ [])
    (range : ∀ l ∈ literals, 0 ≤ l.value ∧ l.value < 2 ^ (8 * width.byteCount)) :
    ∃ bytes,
      expandLine limit ((integers width).name ++
          .char ' ' :: Text.join [.char ',', .char ' '] (literals.map Literal.token)) =
        ⟨[], .ok [.data bytes]⟩ ∧
      (Bytes.numbers width.byteCount bytes).map Int.ofNat = literals.map Literal.value := by
  have forms : ∀ token ∈ literals.map Literal.token, Text.IsToken token := by
    intro token member
    obtain ⟨l, -, rfl⟩ := List.mem_map.1 member
    exact l.written.isToken
  have items := Text.map_trim_splitOn_join (mt List.map_eq_nil_iff.1 some) forms
  have present : Text.join [',', ' '] (literals.map Literal.token) ≠ [] := by
    intro empty
    rw [empty] at items
    have member : [] ∈ literals.map Literal.token := items ▸ List.mem_singleton_self []
    obtain ⟨l, -, none⟩ := List.mem_map.1 member
    exact l.written.ne_nil none
  have line : .char '\n' ∉ Text.join [.char ',', .char ' '] (literals.map Literal.token) := by
    intro member
    obtain ⟨token, own, feed⟩ := (Text.mem_join_iff (by decide)).1 member
    obtain ⟨l, -, rfl⟩ := List.mem_map.1 own
    exact l.written.not_mem (by decide) feed
  have quiet : literals.filterMap (Literal.truncation? width) = [] :=
    List.filterMap_eq_nil_iff.2 fun l member => if_pos (range l member)
  refine ⟨literals.flatMap (Literal.bytes width), ?_, ?_⟩
  · rw [expandLine_of_literals limit present line items, quiet]
  · rw [Literal.numbers_flatMap]
    apply List.map_congr_left
    intro l member
    exact Int.emod_eq_of_lt (range l member).1 (range l member).2

/-- Items are literals throughout, or one of them is the first that is none. -/
theorem literals_or_other {tokens : List Text}
    (short : Numeral.AllShort (tokens.filterMap Numeral.ofToken?)) :
    (∃ literals : List Literal, tokens = literals.map Literal.token) ∨
      ∃ (literals : List Literal) (token : Text) (after : List Text),
        tokens = literals.map Literal.token ++ token :: after ∧ ∀ n, ¬Numeral.Written token n := by
  induction tokens with
  | nil => exact .inl ⟨[], rfl⟩
  | cons token rest ih =>
    by_cases other : ∀ n, ¬Numeral.Written token n
    · exact .inr ⟨[], token, rest, rfl, other⟩
    · push Not at other
      obtain ⟨n, written⟩ := other
      rw [List.filterMap_cons_some written.ofToken?_eq, Numeral.AllShort,
        List.forall_mem_cons] at short
      let first : Literal := ⟨token, n, written, short.1⟩
      rcases ih short.2 with ⟨literals, rfl⟩ | ⟨literals, bad, after, rfl, none⟩
      · exact .inl ⟨first :: literals, rfl⟩
      · exact .inr ⟨first :: literals, bad, after, rfl, none⟩

end Directive

/-! ## Decimal literals -/

namespace Literal

theorem exists_of_decimalText {n : Nat} (small : n < 2 ^ 32) :
    ∃ l : Literal, l.token = Numeral.decimalText n ∧ l.value = n := by
  have few : n < 10 ^ Numeral.maxDecimalDigits := by
    have more : 10 ^ 10 ≤ 10 ^ Numeral.maxDecimalDigits :=
      Nat.pow_le_pow_right (by decide) (by decide)
    omega
  obtain ⟨numeral, known, converted⟩ :=
    readInteger_eq_ok_iff.1 (Numeral.readInteger_decimalText few)
  have form := Numeral.isToken_decimalText n
  rw [Numeral.ofToken?, form.trimmed] at known
  unfold Numeral.convert at converted
  split at converted
  · cases converted
  · rename_i short
    exact ⟨⟨_, numeral, Numeral.ofText?_eq_some_iff.1 known, Bool.eq_false_of_not_eq_true short⟩,
      rfl, Except.ok.inj converted⟩

theorem exists_of_decimalTexts {numbers : List Nat} (small : ∀ n ∈ numbers, n < 2 ^ 32) :
    ∃ literals : List Literal, literals.map token = numbers.map Numeral.decimalText ∧
      literals.map value = numbers.map Int.ofNat := by
  induction numbers with
  | nil => exact ⟨[], rfl, rfl⟩
  | cons n rest ih =>
    rw [List.forall_mem_cons] at small
    obtain ⟨l, htoken, hvalue⟩ := exists_of_decimalText small.1
    obtain ⟨literals, tokens, values⟩ := ih small.2
    refine ⟨l :: literals, ?_, ?_⟩
    · rw [List.map_cons, List.map_cons, htoken, tokens]
    · rw [List.map_cons, List.map_cons, hvalue, values]
      rfl

end Literal

/-- An integer directive reports its first item that is no literal, or lays out the low bits of all
of its literals; and what it was warned about is what was out of range up to there. So a list of
numbers in range is found again in the bytes of the directive that lists them. -/
theorem integers_encoded (width : Width) (limit : Option Int) :
    (∀ body : Text, body ≠ [] → .char '\n' ∉ body →
      Numeral.AllShort ((Directive.integers width).numerals body) →
      (∃ (literals : List Literal) (token : Text) (after : List Text),
        (Text.splitOn ',' body).map Text.trim = literals.map Literal.token ++ token :: after ∧
        (∀ n, ¬Numeral.Written token n) ∧
        expandLine limit ((Directive.integers width).name ++ .char ' ' :: body) =
          ⟨literals.filterMap (Literal.truncation? width),
            .error (.fault (.invalidDatum width token))⟩) ∨
      ∃ (literals : List Literal) (bytes : Bytes),
        (Text.splitOn (.char ',') body).map Text.trim = literals.map Literal.token ∧
        expandLine limit ((Directive.integers width).name ++ .char ' ' :: body) =
          ⟨literals.filterMap (Literal.truncation? width), .ok [.data bytes]⟩ ∧
        bytes.length = width.byteCount * literals.length ∧
        (Bytes.numbers width.byteCount bytes).map Int.ofNat =
          literals.map fun l => l.value % 2 ^ (8 * width.byteCount)) ∧
    ∀ numbers : List Nat, numbers ≠ [] → (∀ n ∈ numbers, n < 2 ^ (8 * width.byteCount)) →
      ∃ bytes, expandLine limit ((Directive.integers width).name ++
          .char ' ' :: Text.join [.char ',', .char ' '] (numbers.map Numeral.decimalText)) =
        ⟨[], .ok [.data bytes]⟩ ∧ Bytes.numbers width.byteCount bytes = numbers := by
  constructor
  · intro body present line short
    rcases Directive.literals_or_other short with
      ⟨literals, items⟩ | ⟨literals, token, after, items, other⟩
    · right
      refine ⟨literals, literals.flatMap (Literal.bytes width), items, ?_,
        Literal.flatMap_bytes_length width literals, Literal.numbers_flatMap width literals⟩
      exact Directive.expandLine_of_literals limit present line items
    · left
      have form : Text.IsToken token := Text.isToken_of_mem_splitOn (t := body) (by simp [items])
      refine ⟨literals, token, after, items, other, ?_⟩
      rw [Directive.expandLine_integers limit present line items,
        Directive.data_of_not_written literals form other]
      rfl
  · intro numbers some small
    have below : ∀ n ∈ numbers, n < 2 ^ 32 := by
      intro n member
      have bound : 2 ^ (8 * width.byteCount) ≤ 2 ^ 32 := by cases width <;> decide
      exact Nat.lt_of_lt_of_le (small n member) bound
    obtain ⟨literals, tokens, values⟩ := Literal.exists_of_decimalTexts below
    have nonempty : literals ≠ [] := by
      rintro rfl
      exact some (List.map_eq_nil_iff.1 values.symm)
    have range : ∀ l ∈ literals, 0 ≤ l.value ∧ l.value < 2 ^ (8 * width.byteCount) := by
      intro l member
      have known : l.value ∈ numbers.map Int.ofNat := values ▸ List.mem_map_of_mem member
      obtain ⟨n, inside, same⟩ := List.mem_map.1 known
      have bound : (n : Int) < 2 ^ (8 * width.byteCount) := by exact_mod_cast small n inside
      rw [← same]
      exact ⟨Int.natCast_nonneg n, bound⟩
    rw [← tokens]
    obtain ⟨bytes, expanded, found⟩ := Directive.expandLine_in_range limit nonempty range
    refine ⟨bytes, expanded, ?_⟩
    rw [values] at found
    exact List.map_injective_iff.2 (fun _ _ => Int.ofNat.inj) found

/-- A stray comma is an empty item, which is reported after the warnings for the items before. -/
theorem integers_encoded_stray_comma :
    let body := "1, -1,0x12345,".toText
    (∃ (literals : List Literal) (token : Text) (after : List Text),
      (Text.splitOn ',' body).map Text.trim = literals.map Literal.token ++ token :: after ∧
      (∀ n, ¬Numeral.Written token n) ∧
      expandLine none ((Directive.integers .half).name ++ .char ' ' :: body) =
        ⟨literals.filterMap (Literal.truncation? .half),
          .error (.fault (.invalidDatum .half token))⟩) ∧
    ∃ bytes, expandLine none ((Directive.integers .half).name ++
        .char ' ' :: Text.join [.char ',', .char ' '] ([0, 255, 65535].map Numeral.decimalText)) =
      ⟨[], .ok [.data bytes]⟩ ∧ Bytes.numbers 2 bytes = [0, 255, 65535] := by
  intro body
  have items : (Text.splitOn ',' body).map Text.trim =
      ["1".toText, "-1".toText, "0x12345".toText, []] := by rfl
  have short : Numeral.AllShort ((Directive.integers .half).numerals body) := by
    unfold Numeral.AllShort
    decide
  constructor
  · rcases (integers_encoded .half none).1 body (by decide) (by decide) short with
      stopped | ⟨literals, bytes, known, -⟩
    · exact stopped
    · -- no literal is empty
      have member : [] ∈ literals.map Literal.token := by simp [← known, items]
      obtain ⟨l, -, none⟩ := List.mem_map.1 member
      exact absurd none l.written.ne_nil
  · exact (integers_encoded .half none).2 [0, 255, 65535] (by decide) (by decide)

end MipsImage
