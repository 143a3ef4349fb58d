import MipsImage.Proofs.InterchangedImages
import MipsImage.Proofs.LetterCase
import MipsImage.Proofs.Literals
import MipsImage.Proofs.Relabelling

/-!
# Other spellings of operands

A register can be written with other letters or under its other name, a literal as any other with
the same value, and both so in the operand of a load. Each is read as before wherever operands are
read: none of them is a label, and none can be taken for one of the others.
-/
set_option autoImplicit false

namespace MipsImage

/-! ## Registers -/

namespace Text

/-- No other character has a dollar sign as its small form. -/
theorem lowerChar_eq_dollar {c : CodePoint} (h : lowerChar c = '$') : c = '$' := by
  have ascii : ∀ n < 0x80, (CodePoint.ofNat n).toLower = '$' → CodePoint.ofNat n = '$' := by
    decide +kernel
  have uncovered : ∀ run ∈ capitalRuns, run.covers (0x24 - run.shift).toNat = false := by
    decide +kernel
  have code {n : Nat} (dollar : CodePoint.ofNat n = '$') : n = 0x24 := by
    unfold CodePoint.ofNat at dollar
    split at dollar
    · cases dollar
    · have dollar := CodePoint.char.inj dollar
      by_cases valid : n.isValidChar
      · rw [Char.ofNat, dif_pos valid] at dollar
        exact congrArg Char.toNat dollar
      · rw [Char.ofNat, dif_neg valid] at dollar
        exact absurd dollar (by decide)
  unfold lowerChar at h
  split at h
  · rename_i small
    have own := ascii c.toNat small
    rw [CodePoint.ofNat_toNat] at own
    exact own h
  · split at h
    · rename_i run found
      have moved := code h
      have place : (0x24 - run.shift).toNat = c.toNat := by omega
      have covers := List.find?_some found
      rw [← place, uncovered run (List.mem_of_find?_eq_some found)] at covers
      cases covers
    · exact h

theorem head?_eq_dollar_of_toLower {t : Text} (h : (toLower t).head? = some '$') :
    t.head? = some '$' := by
  cases t with
  | nil => cases h
  | cons c rest =>
    rw [toLower, lowerFrom, lowerWithin] at h
    split at h
    · split at h <;> exact absurd (Option.some.inj h) (by decide)
    · split at h
      · exact absurd (Option.some.inj h) (by decide)
      · exact congrArg some (lowerChar_eq_dollar (Option.some.inj h))

/-- A character that is its own small form wherever it stands is kept. -/
theorem mem_toLower_of_mem {d : CodePoint} (own : ∀ before after, lowerWithin before d after = [d])
    {t : Text} (member : d ∈ t) : d ∈ toLower t := by
  have kept (before : Text) : d ∈ lowerFrom before t := by
    induction t generalizing before with
    | nil => cases member
    | cons c rest ih =>
      rw [lowerFrom, List.mem_append]
      rcases List.mem_cons.1 member with rfl | later
      · exact .inl (by rw [own]; exact List.mem_singleton_self _)
      · exact .inr (ih later (c :: before))
  exact kept []

end Text

namespace Register

variable {t new : Text} {r : Register}

/-- A text is a name of a register, in letters of any case. -/
def IsName (r : Register) (t : Text) : Prop :=
  ∃ entry ∈ names, entry.2 = r ∧ Text.SameLetters entry.1.toText t

instance (r : Register) (t : Text) : Decidable (r.IsName t) :=
  inferInstanceAs (Decidable (∃ entry ∈ names, entry.2 = r ∧ Text.SameLetters entry.1.toText t))

/-- A register is written with other letters, or under any of its names. -/
inductive Respells : Text → Text → Prop
  | letters {t new : Text} {r : Register} (register : ofToken? t = some r)
    (same : Text.SameLetters t new) : Respells t new
  | name {t new : Text} {r : Register} (register : ofToken? t = some r) (named : r.IsName new) :
    Respells t new

theorem of_ofToken? (h : ofToken? t = some r) :
    ∃ entry ∈ names, entry.1.toText = Text.toLower (Text.trim t) := by
  obtain ⟨entry, found, -⟩ := Option.map_eq_some_iff.1 h
  have name := List.find?_some found
  exact ⟨entry, List.mem_of_find?_eq_some found, of_decide_eq_true name⟩

theorem head?_of_ofToken? (h : ofToken? t = some r) : (Text.trim t).head? = some '$' := by
  have marked : ∀ entry ∈ names, entry.1.toText.head? = some '$' := by decide +kernel
  obtain ⟨entry, member, name⟩ := of_ofToken? h
  exact Text.head?_eq_dollar_of_toLower (name ▸ marked entry member)

theorem not_mem_of_ofToken? (h : ofToken? t = some r) : .char '(' ∉ t := by
  have plain : ∀ entry ∈ names, .char '(' ∉ entry.1.toText := by decide +kernel
  obtain ⟨entry, member, name⟩ := of_ofToken? h
  intro parenthesis
  refine plain entry member (name ▸ Text.mem_toLower_of_mem (fun before after => ?_)
    ((Text.mem_trim_iff (by decide)).2 parenthesis))
  rfl

theorem IsName.ofToken?_eq (named : r.IsName t) : ofToken? t = some r := by
  have table : ∀ entry ∈ names, ofToken? entry.1.toText = some entry.2 := by decide +kernel
  obtain ⟨entry, member, rfl, same⟩ := named
  have own := table entry member
  rw [ofToken?] at own ⊢
  rwa [same.trim.toLower_eq]

/-- However a register is written, it is the same one. -/
theorem Respells.same (respells : Respells t new) :
    ∃ r, ofToken? t = some r ∧ ofToken? new = some r := by
  cases respells with
  | letters register same =>
    refine ⟨_, register, ?_⟩
    rw [ofToken?] at register ⊢
    rwa [same.trim.toLower_eq]
  | name register named => exact ⟨_, register, named.ofToken?_eq⟩

theorem Respells.isToken (respells : Respells t new) (token : Text.IsToken t) :
    Text.IsToken new := by
  have table : ∀ entry ∈ names, Text.IsToken entry.1.toText := by decide +kernel
  cases respells with
  | letters register same => exact same.isToken token
  | name register named =>
    obtain ⟨entry, member, -, same⟩ := named
    exact same.isToken (table entry member)

end Register

/-! ## Literals -/

namespace Numeral

variable {t new : Text} {m n : Numeral}

/-- The second literal has the value of the first and is not too long to be converted. -/
structure SameValue (m n : Numeral) : Prop where
  value : n.value = m.value
  short : n.isOverlong = false

/-- A literal is written in another way. -/
inductive Respells : Text → Text → Prop
  | mk {t new : Text} {m n : Numeral} (old : Written t m) (written : Written new n)
    (same : SameValue m n) : Respells t new

theorem SameValue.convert_eq_ok (same : SameValue m n) {value : Int} (h : m.convert = .ok value) :
    n.convert = .ok value := by
  unfold convert at h ⊢
  split at h
  · cases h
  · cases h
    simp [same.short, same.value]

namespace Written

theorem not_proper (written : Written t n) : ¬Label.Proper t :=
  not_proper_of_isInteger written.isInteger

/-- No literal is a register. -/
theorem register_ofToken?_eq_none (written : Written t n) : Register.ofToken? t = none := by
  refine Option.eq_none_iff_forall_ne_some.2 fun r register => ?_
  have head := Register.head?_of_ofToken? register
  rw [written.isToken.trimmed] at head
  exact written.not_mem (by decide) (List.mem_of_mem_head? head)

end Written

end Numeral

/-- What can be read as an integer is written as a literal. -/
theorem written_of_isInteger {token : Text} (h : isInteger token = true) :
    ∃ n, Numeral.Written (Text.trim token) n := by
  obtain ⟨n, read⟩ := Option.isSome_iff_exists.1 h
  exact ⟨n, Numeral.ofText?_eq_some_iff.1 read⟩

theorem not_mem_of_isInteger {token : Text} {c : CodePoint} (h : isInteger token = true)
    (solid : Text.isBlank c = false) (other : Numeral.isLiteralChar c = false) : c ∉ token := by
  obtain ⟨n, written⟩ := written_of_isInteger h
  exact fun member => written.not_mem other ((Text.mem_trim_iff solid).2 member)

namespace Register

variable {t : Text} {r : Register}

theorem not_isInteger_of_ofToken? (h : ofToken? t = some r) : ¬isInteger t = true := by
  intro integer
  obtain ⟨n, written⟩ := written_of_isInteger integer
  have none := written.register_ofToken?_eq_none
  rw [ofToken?, Text.trim_trim] at none
  rw [ofToken?, none] at h
  cases h

theorem not_proper_of_ofToken? (h : ofToken? t = some r) : ¬Label.Proper t := by
  intro proper
  rw [proper.register_ofToken?_eq_none] at h
  cases h

theorem ne_nil_of_ofToken? (h : ofToken? t = some r) : t ≠ [] := by
  rintro rfl
  cases head?_of_ofToken? h

end Register

/-! ## Operands of loads -/

namespace SymbolTable

/-- An offset before the register, which may be left out. -/
inductive Offset : Text → Option Numeral → Prop
  | none : Offset [] none
  | some {t : Text} {n : Numeral} (written : Numeral.Written t n) : Offset t (some n)

/-- A text is `offset($name)`. -/
inductive Indexed : Text → Option Numeral → Text → Prop
  | mk {offset name : Text} {numeral : Option Numeral} (written : Offset offset numeral)
    (present : name ≠ []) (word : ∀ c ∈ name, Text.isWordChar c = true) :
    Indexed (offset ++ .char '(' :: .char '$' :: (name ++ [.char ')'])) numeral (.char '$' :: name)

variable {t name : Text} {numeral : Option Numeral}

theorem Offset.forall {offset : Text} (written : Offset offset numeral) :
    ∀ c ∈ offset, Numeral.isLiteralChar c = true := by
  cases written with
  | none => exact List.forall_mem_nil _
  | some written => exact written.literalChars

namespace Indexed

theorem indexed?_eq (indexed : Indexed t numeral name) : indexed? t = some (numeral, name) := by
  obtain ⟨written, present, word⟩ := indexed
  rename_i offset name
  have plain : .char '(' ∉ offset := fun member =>
    absurd (written.forall _ member) (by decide)
  have stop : Text.isWordChar (.char ')') = false := by decide
  have front : (name ++ [CodePoint.char ')']).takeWhile Text.isWordChar = name := by
    rw [List.takeWhile_append_of_pos word]
    simp [stop]
  have back : (name ++ [CodePoint.char ')']).dropWhile Text.isWordChar = [.char ')'] := by
    rw [List.dropWhile_append_of_pos word]
    simp [stop]
  rw [indexed?, Text.cut_append_cons plain]
  simp only [front, back, present, Text.isAtEnd]
  cases written with
  | none => simp
  | some written => simp [written.ne_nil, Numeral.ofText?_eq_some_iff.2 written]

theorem mem_parenthesis (indexed : Indexed t numeral name) : .char '(' ∈ t := by
  obtain ⟨_, _, _⟩ := indexed
  exact List.mem_append_right _ (List.mem_cons_self ..)

theorem solid (indexed : Indexed t numeral name) : ∀ c ∈ t, Text.isBlank c = false ∧ c ≠ ',' := by
  obtain ⟨written, present, word⟩ := indexed
  simp only [List.forall_mem_append, List.forall_mem_cons]
  refine ⟨fun c member => ?_, by decide, by decide, fun c member => ?_, by decide,
    List.forall_mem_nil _⟩
  · have own := written.forall c member
    refine ⟨Numeral.not_isBlank_of_isLiteralChar own, ?_⟩
    rintro rfl
    exact absurd own (by decide)
  · have own := word c member
    refine ⟨Label.not_isBlank_of_isNext (by rw [Label.isNext, own]; rfl), ?_⟩
    rintro rfl
    exact absurd own (by decide)

theorem isToken (indexed : Indexed t numeral name) : Text.IsToken t where
  trimmed := Text.trim_eq_self_of_solid fun c member => (indexed.solid c member).1
  single member := (indexed.solid _ member).2 rfl

theorem not_isInteger (indexed : Indexed t numeral name) : ¬isInteger t = true := fun integer =>
  not_mem_of_isInteger integer (by decide) (by decide) indexed.mem_parenthesis

theorem register_ofToken?_eq_none (indexed : Indexed t numeral name) :
    Register.ofToken? t = none :=
  Option.eq_none_iff_forall_ne_some.2 fun _ register =>
    Register.not_mem_of_ofToken? register indexed.mem_parenthesis

theorem not_proper (indexed : Indexed t numeral name) : ¬Label.Proper t := fun proper =>
  proper.not_mem (by decide) indexed.mem_parenthesis

end Indexed

theorem indexed?_eq_none_of_plain {t : Text} (plain : .char '(' ∉ t) : indexed? t = none := by
  rw [indexed?, Text.cut_of_not_mem plain]

end SymbolTable

/-! ## Operands -/

namespace Token

/-- An operand in another spelling: a register, a literal, or both in the operand of a load. -/
inductive Respells : Text → Text → Prop
  | same (t : Text) : Respells t t
  | register {t new : Text} (register : Register.Respells t new) : Respells t new
  | literal {t new : Text} (literal : Numeral.Respells t new) : Respells t new
  | indexed {t new name name' : Text} {offset offset' : Option Numeral}
    (old : SymbolTable.Indexed t offset name) (written : SymbolTable.Indexed new offset' name')
    (offsets : Option.Rel Numeral.SameValue offset offset')
    (registers : Register.Respells name name') : Respells t new

/-- Another spelling of an operand is read as the operand is, where labels are not looked up. -/
theorem interchange_respells : Interchange Respells where
  token := by
    intro t new respells token
    cases respells with
    | same => exact token
    | register register => exact register.isToken token
    | literal literal =>
      obtain ⟨-, written, -⟩ := literal
      exact written.isToken
    | indexed old written offsets registers => exact written.isToken
  empty := by
    intro t new respells
    cases respells with
    | same => exact Iff.rfl
    | register register =>
      obtain ⟨r, old, written⟩ := register.same
      exact iff_of_false (Register.ne_nil_of_ofToken? written) (Register.ne_nil_of_ofToken? old)
    | literal literal =>
      obtain ⟨old, written, -⟩ := literal
      exact iff_of_false written.ne_nil old.ne_nil
    | indexed old written offsets registers =>
      exact iff_of_false (List.ne_nil_of_mem written.mem_parenthesis)
        (List.ne_nil_of_mem old.mem_parenthesis)
  register := by
    intro t new r respells h
    rw [Register.parse_eq_ok_iff] at h ⊢
    cases respells with
    | same => exact h
    | register register =>
      obtain ⟨own, old, written⟩ := register.same
      rwa [written, ← old]
    | literal literal =>
      obtain ⟨old, -, -⟩ := literal
      rw [old.register_ofToken?_eq_none] at h
      cases h
    | indexed old written offsets registers =>
      rw [old.register_ofToken?_eq_none] at h
      cases h
  integer := by
    intro t new value respells h
    cases respells with
    | same => exact h
    | register register =>
      obtain ⟨r, old, -⟩ := register.same
      exact absurd (isInteger_of_readInteger h) (Register.not_isInteger_of_ofToken? old)
    | literal literal =>
      obtain ⟨old, written, same⟩ := literal
      rw [old.readInteger_eq] at h
      rw [written.readInteger_eq]
      exact same.convert_eq_ok h
    | indexed old written offsets registers =>
      exact absurd (isInteger_of_readInteger h) old.not_isInteger
  own _ := .same _

/-- No other spelling brings in a blank. -/
theorem Respells.mem_of_isBlank {t new : Text} (respells : Respells t new) {c : CodePoint}
    (blank : Text.isBlank c = true) (member : c ∈ new) : c ∈ t := by
  have absent (solid : Text.isBlank c = false) : c ∈ t := by
    rw [blank] at solid
    cases solid
  cases respells with
  | same => exact member
  | register register =>
    have table : ∀ entry ∈ Register.names, entry.1.toText.all (!Text.isBlank ·) = true := by
      decide +kernel
    cases register with
    | letters _ same => exact (same.mem_iff (Text.plain_of_isBlank blank)).1 member
    | name _ named =>
      obtain ⟨entry, own, -, same⟩ := named
      have inside := (same.mem_iff (Text.plain_of_isBlank blank)).1 member
      exact absent (by simpa using List.all_eq_true.1 (table entry own) c inside)
  | literal literal =>
    obtain ⟨-, written, -⟩ := literal
    exact absent (written.solid c member)
  | indexed old written offsets registers => exact absent (written.solid c member).1

/-- What has another spelling is no label. -/
theorem Respells.eq_or_not_proper {t new : Text} (respells : Respells t new) :
    new = t ∨ ¬Label.Proper t := by
  cases respells with
  | same => exact .inl rfl
  | register register =>
    obtain ⟨r, old, -⟩ := register.same
    exact .inr (Register.not_proper_of_ofToken? old)
  | literal literal =>
    obtain ⟨old, -, -⟩ := literal
    exact .inr old.not_proper
  | indexed old written offsets registers => exact .inr old.not_proper

end Token

/-! ## Operands with labels -/

namespace SymbolTable

variable {symbols : SymbolTable} {t : Text}

theorem resolveTarget_of_isInteger (integer : isInteger t = true) :
    symbols.resolveTarget t = readInteger t := by
  rw [resolveTarget, if_pos integer]

theorem resolveTarget_of_not_isInteger (word : ¬isInteger t = true) {address : Int}
    (h : symbols.resolveTarget t = .ok address) : symbols.lookup t = some address := by
  rw [resolveTarget, if_neg word] at h
  split at h
  · rename_i found
    cases h
    exact found
  · split at h <;> cases h

theorem exists_lookup_of_resolveMemory (none : indexed? t = none) {operand : Register × Int}
    (h : symbols.resolveMemory t = .ok operand) : ∃ address, symbols.lookup t = some address := by
  rw [resolveMemory, none] at h
  dsimp only at h
  split at h
  · rename_i found
    exact ⟨_, found⟩
  · cases h

/-- Other spellings are read alike also where labels are looked up. -/
theorem agrees_respells
    (labels : ∀ name address, symbols.lookup name = some address → Label.Proper name) :
    symbols.Agrees Token.Respells symbols where
  target := by
    intro t new address respells h
    rcases respells.eq_or_not_proper with rfl | other
    · exact h
    · have integer : isInteger t = true := by
        by_contra word
        exact other (labels _ _ (resolveTarget_of_not_isInteger word h))
      rw [resolveTarget_of_isInteger integer] at h
      have read := Token.interchange_respells.integer respells h
      rwa [resolveTarget_of_isInteger (isInteger_of_readInteger read)]
  memory := by
    intro t new operand respells h
    rcases respells.eq_or_not_proper with rfl | other
    · exact h
    · have indexed : indexed? t ≠ none := by
        intro none
        obtain ⟨address, found⟩ := exists_lookup_of_resolveMemory none h
        exact other (labels _ _ found)
      cases respells with
      | same => exact h
      | register register =>
        obtain ⟨r, old, -⟩ := register.same
        exact absurd (indexed?_eq_none_of_plain (Register.not_mem_of_ofToken? old)) indexed
      | literal literal =>
        obtain ⟨old, -, -⟩ := literal
        exact absurd (indexed?_eq_none_of_plain (old.not_mem (by decide))) indexed
      | indexed old written offsets registers =>
        obtain ⟨r, hold, hnew⟩ := registers.same
        rw [resolveMemory, old.indexed?_eq] at h
        rw [resolveMemory, written.indexed?_eq]
        dsimp only at h ⊢
        rw [Register.parse_eq_ok_iff.2 hold] at h
        rw [Register.parse_eq_ok_iff.2 hnew]
        cases offsets with
        | none => exact h
        | @some m n same =>
          change (m.convert.bind fun number => .ok (r, number)) = _ at h
          change (n.convert.bind fun number => .ok (r, number)) = _
          cases converted : m.convert with
          | error failure =>
            rw [converted] at h
            cases h
          | ok value =>
            rw [converted] at h
            rwa [same.convert_eq_ok converted]

end SymbolTable

end MipsImage
