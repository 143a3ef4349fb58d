import MipsImage.Proofs.Directives
import MipsImage.Proofs.Literals
import MipsImage.Proofs.PhaseOrder
import MipsImage.Proofs.PseudoMeaning

/-!
# Loads of a number

A number is loaded by `li`, which splits it where it is expanded, or by `la`, which splits it where
it is encoded. Both give the same two words, bit for bit: the upper half goes to the scratch
register, and the lower half is combined with it. A destination that is no register stops all of
them in the same way.
-/
set_option autoImplicit false

namespace MipsImage

/-! ## Words bit by bit -/

namespace Word

/-- The word of an instruction with an immediate, put together from its parts. -/
def ofImmediate (opcode : BitVec 6) (source target : Register) (immediate : BitVec 16) : Word :=
  opcode ++ BitVec.ofNat 5 source.val ++ BitVec.ofNat 5 target.val ++ immediate

theorem eq_parts (word : Word) :
    word = word.extractLsb' 26 6 ++ word.extractLsb' 21 5 ++ word.extractLsb' 16 5 ++
      word.extractLsb' 0 16 := by
  have first : word.extractLsb' 26 6 ++ word.extractLsb' 21 5 = word.extractLsb' 21 11 := by
    rw [BitVec.extractLsb'_append_extractLsb'_eq_extractLsb' (by decide)]
  have second : word.extractLsb' 21 11 ++ word.extractLsb' 16 5 = word.extractLsb' 16 16 := by
    rw [BitVec.extractLsb'_append_extractLsb'_eq_extractLsb' (by decide)]
  have third : word.extractLsb' 16 16 ++ word.extractLsb' 0 16 = word.extractLsb' 0 32 := by
    rw [BitVec.extractLsb'_append_extractLsb'_eq_extractLsb' (by decide)]
  rw [first, second, third, BitVec.extractLsb'_eq_self]

/-- A word is known from its parts. -/
theorem eq_ofImmediate {word : Word} {opcode immediate : Nat} {source target : Register}
    (hopcode : Part.opcode.Holds 16 word opcode) (hsource : Part.rs.Holds 16 word source.val)
    (htarget : Part.rt.Holds 16 word target.val) (himmediate : Part.imm.Holds 16 word immediate) :
    word = ofImmediate (BitVec.ofNat 6 opcode) source target (BitVec.ofNat 16 immediate) := by
  rw [Part.Holds, BitVec.ofInt_natCast] at hopcode hsource htarget himmediate
  have first : word.extractLsb' 26 6 = BitVec.ofNat 6 opcode := hopcode
  have second : word.extractLsb' 21 5 = BitVec.ofNat 5 source.val := hsource
  have third : word.extractLsb' 16 5 = BitVec.ofNat 5 target.val := htarget
  have fourth : word.extractLsb' 0 16 = BitVec.ofNat 16 immediate := himmediate
  rw [word.eq_parts, first, second, third, fourth, ofImmediate]

/-- The word of `lui $at, high`. -/
def upper (high : Nat) : Word :=
  ofImmediate 0x0f Register.zero Register.scratch (BitVec.ofNat 16 high)

/-- The word of `ori` with this destination, `$at` and an immediate. -/
def lower (d : Register) (low : Nat) : Word :=
  ofImmediate 0x0d Register.scratch d (BitVec.ofNat 16 low)

/-- The word for one half of a number. -/
def load (half : Half) (d : Register) (value : Int) : Word :=
  match half with
  | .upper => upper (Bits.high 16 (Bits.low 32 value))
  | .lower => lower d (Bits.low 16 (Bits.low 32 value))

theorem Loads.eq_load {half : Half} {d : Register} {value : Int} {word : Word}
    (loads : Word.Loads half d value word) : word = load half d value := by
  cases half with
  | upper =>
    obtain ⟨hopcode, hsource, htarget, himmediate⟩ := loads
    rw [← Bits.natCast_upper] at himmediate
    exact @eq_ofImmediate word _ _ Register.zero _ hopcode hsource htarget himmediate
  | lower =>
    obtain ⟨hopcode, hsource, htarget, himmediate⟩ := loads
    rw [← Bits.natCast_lower] at himmediate
    exact eq_ofImmediate hopcode hsource htarget himmediate

end Word

/-! ## The instructions that load the halves -/

/-- Operands that are all there are taken in the one way that there is. -/
theorem Format.layoutFor?_of_full {format : Format} {layout : List Slot} {operands : List Text}
    (layouts : format.layouts = [layout]) (length : operands.length = layout.length)
    (full : ∀ token ∈ operands, token ≠ []) : format.layoutFor? operands = some layout := by
  rw [layoutFor?, layouts]
  refine List.find?_cons_of_pos ?_
  rw [Instruction.fillsPlaces, Bool.and_eq_true, decide_eq_true_eq, List.all_eq_true]
  exact ⟨length, fun token member => decide_eq_true (full token member)⟩

namespace Instruction

/-- `lui $at, high` -/
def upper (high : Nat) : Instruction :=
  ⟨Mnemonic.lui.name.toText, ["$at".toText, Numeral.decimalText high]⟩

/-- `ori destination, $at, low` -/
def lower (destination : Text) (low : Nat) : Instruction :=
  ⟨Mnemonic.ori.name.toText, [destination, "$at".toText, Numeral.decimalText low]⟩

variable {symbols : SymbolTable} {text destination : Text} {m : Mnemonic}
  {settings : List Setting} {d : Register} {n : Nat}

theorem ofText_upper (high : Nat) : ofText (upper high).text = upper high := by
  apply ofText_text_of_mnemonic
  simp only [List.forall_mem_cons]
  exact ⟨Text.names_at.form, Numeral.isToken_decimalText high, List.forall_mem_nil _⟩

theorem ofText_lower (token : Text.IsToken destination) (low : Nat) :
    ofText (lower destination low).text = lower destination low := by
  apply ofText_text_of_mnemonic
  simp only [List.forall_mem_cons]
  exact ⟨token, Text.names_at.form, Numeral.isToken_decimalText low, List.forall_mem_nil _⟩

/-- An immediate of sixteen bits is encoded without a warning. -/
theorem Reads.encode_eq (reads : (ofText text).Reads symbols m settings) (ordinary : m ≠ .la)
    (bits : m.format.immediateBits = 16)
    (written : ⟨.imm, n, Numeral.decimalText n⟩ ∈ settings) (small : n < 2 ^ 16)
    (half : Option Half) :
    ∃ word, encode symbols half text = ⟨[], .ok word⟩ ∧ Word.Shows m settings word := by
  have named : Mnemonic.named? (ofText text).mnemonic ≠ some .la := by
    rw [reads.named]
    exact fun h => ordinary (Option.some.inj h)
  have quiet : settings.filterMap (Setting.overflow? m.format.immediateBits) = [] := by
    rw [(reads.warned ordinary).number _ written (.inr rfl), bits]
    refine if_pos ⟨?_, ?_⟩ <;> simp only [Part.width] <;> omega
  have resolved := (resolve_eq_ok_iff_reads ordinary).2 ⟨settings, reads, rfl⟩
  rw [quiet] at resolved
  exact ⟨_, (encode_eq_ok_iff named).2 ⟨m, _, ordinary, resolved, rfl⟩, reads.shows ordinary⟩

theorem encode_upper (small : n < 2 ^ 16) (half : Option Half) :
    encode symbols half (upper n).text = ⟨[], .ok (Word.upper n)⟩ := by
  have counts := Text.counts_decimalText small
  have chosen : Mnemonic.lui.format.layoutFor? (upper n).operands = some [.rt, .immediate] :=
    Format.layoutFor?_of_full rfl rfl (by simp [upper, Text.names_at.present, counts.present])
  have reads : (ofText (upper n).text).Reads symbols .lui
      [⟨.rt, Register.scratch.val, "$at".toText⟩, ⟨.imm, n, Numeral.decimalText n⟩] := by
    rw [ofText_upper]
    exact ⟨Mnemonic.lui.named?_name, [.rt, .immediate], chosen,
      Slot.readAll_cons Text.names_at.read_rt (Slot.readAll_cons counts.read_immediate rfl)⟩
  obtain ⟨word, encoded, shown⟩ := reads.encode_eq (by decide) rfl (by simp) small half
  rw [encoded, Word.upper, @Word.eq_ofImmediate word _ _ Register.zero _
    (shown.fixed .opcode (by decide) trivial (by simp))
    (shown.fixed .rs (by decide) (by decide) (by simp))
    (shown.operand ⟨.rt, Register.scratch.val, "$at".toText⟩ (by simp))
    (shown.operand ⟨.imm, n, Numeral.decimalText n⟩ (by simp))]
  rfl

theorem encode_lower (hd : Text.Names destination d) (small : n < 2 ^ 16)
    (half : Option Half) :
    encode symbols half (lower destination n).text = ⟨[], .ok (Word.lower d n)⟩ := by
  have counts := Text.counts_decimalText small
  have chosen : Mnemonic.ori.format.layoutFor? (lower destination n).operands =
      some [.rt, .rs, .immediate] :=
    Format.layoutFor?_of_full rfl rfl
      (by simp [lower, hd.present, Text.names_at.present, counts.present])
  have reads : (ofText (lower destination n).text).Reads symbols .ori
      [⟨.rt, d.val, destination⟩, ⟨.rs, Register.scratch.val, "$at".toText⟩,
        ⟨.imm, n, Numeral.decimalText n⟩] := by
    rw [ofText_lower hd.form]
    exact ⟨Mnemonic.ori.named?_name, [.rt, .rs, .immediate], chosen,
      Slot.readAll_cons hd.read_rt (Slot.readAll_cons Text.names_at.read_rs
        (Slot.readAll_cons counts.read_immediate rfl))⟩
  obtain ⟨word, encoded, shown⟩ := reads.encode_eq (by decide) rfl (by simp) small half
  rw [encoded, Word.lower, Word.eq_ofImmediate
    (shown.fixed .opcode (by decide) trivial (by simp))
    (shown.operand ⟨.rs, Register.scratch.val, "$at".toText⟩ (by simp))
    (shown.operand ⟨.rt, d.val, destination⟩ (by simp))
    (shown.operand ⟨.imm, n, Numeral.decimalText n⟩ (by simp))]
  rfl

/-- A first operand that should be a register and is none stops an instruction. -/
theorem resolve_of_parse_error {slot : Slot} {layout : List Slot} {more : List Text}
    {failure : Failure Fault}
    (chosen : m.format.layoutFor? (destination :: more) = some (slot :: layout))
    (register : slot = .rd ∨ slot = .rt) (unknown : Register.parse destination = .error failure) :
    resolve symbols ⟨m.name.toText, destination :: more⟩ = ⟨[], .error failure⟩ := by
  have stops (fields : Fields) :
      place m.format symbols fields slot destination = ⟨[], .error failure⟩ := by
    rcases register with rfl | rfl <;> simp only [place, unknown] <;> rfl
  simp only [resolve, m.named?_name, chosen, List.zip_cons_cons, placeAll, stops]
  rfl

theorem encode_lower_of_parse_error {failure : Failure Fault} (token : Text.IsToken destination)
    (present : destination ≠ []) (unknown : Register.parse destination = .error failure)
    (half : Option Half) :
    encode symbols half (lower destination n).text = ⟨[], .error failure⟩ := by
  have chosen : Mnemonic.ori.format.layoutFor? (lower destination n).operands =
      some [.rt, .rs, .immediate] :=
    Format.layoutFor?_of_full rfl rfl
      (by simp [lower, present, Text.names_at.present, Numeral.decimalText_ne_nil])
  have ordinary : Mnemonic.named? (lower destination n).mnemonic ≠ some .la := by
    rw [lower, Mnemonic.ori.named?_name]
    decide
  rw [encode_eq_of_ne_la, ofText_lower token,
    lower, resolve_of_parse_error chosen (.inr rfl) unknown]
  · rfl
  · rw [ofText_lower token]
    exact ordinary

theorem encode_loadAddress_of_parse_error {target : Text} {failure : Failure Fault} (part : Half)
    (token : Text.IsToken destination) (present : destination ≠ []) (form : Text.IsToken target)
    (given : target ≠ []) (unknown : Register.parse destination = .error failure) :
    encode symbols (some part) (loadAddress destination target).text = ⟨[], .error failure⟩ := by
  have chosen : Mnemonic.la.format.layoutFor? (loadAddress destination target).operands =
      some [.rd, .target] :=
    Format.layoutFor?_of_full rfl rfl (by simp [loadAddress, present, given])
  have named : Mnemonic.named? (loadAddress destination target).mnemonic = some .la :=
    Mnemonic.la.named?_name
  have failed : resolve symbols (loadAddress destination target) = ⟨[], .error failure⟩ :=
    resolve_of_parse_error chosen (.inl rfl) unknown
  simp only [encode, ofText_loadAddress token form, named, failed]
  rfl

end Instruction

/-- Both words of `la`, bit for bit. -/
theorem encode_loadAddress_eq {symbols : SymbolTable} {destination target : Text} {d : Register}
    {address : Int} (hd : Text.Names destination d) (ht : Text.Targets symbols target address)
    (half : Half) :
    encode symbols (some half) (loadAddress destination target).text =
      ⟨[], .ok (Word.load half d address)⟩ := by
  obtain ⟨word, encoded, loads⟩ := encode_loadAddress hd ht half
  rw [encoded, loads.eq_load]

/-! ## Loads as they are written -/

/-- An instruction that asks for a number in a register: `li` or `la` with the number as a literal,
or `la` with a label whose address it is. -/
inductive Instruction.Loads (symbols : SymbolTable) (destination : Text) (value : Int) :
    Instruction → Prop
  | immediate {source : Text} {n : Numeral} (written : Numeral.Written source n)
    (short : n.isOverlong = false) (same : n.value = value) :
    Loads symbols destination value ⟨"li".toText, [destination, source]⟩
  | literal {source : Text} {n : Numeral} (written : Numeral.Written source n)
    (short : n.isOverlong = false) (same : n.value = value) :
    Loads symbols destination value ⟨"la".toText, [destination, source]⟩
  | label {name : Text} (proper : Label.Proper name) (bound : symbols.lookup name = some value) :
    Loads symbols destination value ⟨"la".toText, [destination, name]⟩

theorem Numeral.Written.resolveTarget_eq {source : Text} {n : Numeral} (written : Written source n)
    (short : n.isOverlong = false) (symbols : SymbolTable) :
    symbols.resolveTarget source = .ok n.value := by
  rw [SymbolTable.resolveTarget, if_pos written.isInteger, written.readInteger_eq_ok short]

theorem Label.Proper.resolveTarget_eq {name : Text} {symbols : SymbolTable} {address : Int}
    (proper : Proper name) (bound : symbols.lookup name = some address) :
    symbols.resolveTarget name = .ok address := by
  rw [SymbolTable.resolveTarget, isInteger, proper.ofToken?_eq_none, bound]
  rfl

/-- A text that has the mnemonic of no directive is expanded as an instruction. -/
theorem expandLine_of_mnemonic {t : Text} (limit : Option Int)
    (other : ∀ d : Directive, (Instruction.ofText t).mnemonic ≠ d.name) :
    expandLine limit t = Outcome.ofExcept (expandInstruction t) := by
  have plain : Directive.ofText? t = none := by
    rw [Option.eq_none_iff_forall_ne_some]
    rintro ⟨d, body⟩ read
    exact other d (Directive.mnemonic_of_prefix (Directive.ofText?_eq_some_prefix read))
  rw [expandLine, plain]

namespace Instruction.Loads

variable {symbols : SymbolTable} {t destination : Text} {value : Int}

/-- A load is one of two kinds of lines, and its second operand stands for the number. -/
theorem cases_of_text (loads : (ofText t).Loads symbols destination value) :
    (∃ source, ofText t = ⟨"li".toText, [destination, source]⟩ ∧ readInteger source = .ok value) ∨
      ∃ target, ofText t = loadAddress destination target ∧
        Text.Targets symbols target value := by
  generalize written : ofText t = i at loads
  cases loads with
  | immediate literal short same =>
    exact .inl ⟨_, rfl, same ▸ literal.readInteger_eq_ok short⟩
  | literal literal short same =>
    exact .inr ⟨_, rfl, literal.isToken, literal.ne_nil,
      same ▸ literal.resolveTarget_eq short symbols⟩
  | label proper bound =>
    exact .inr ⟨_, rfl, proper.isToken, proper.ne_nil, proper.resolveTarget_eq bound⟩

theorem expandLine_eq (loads : (ofText t).Loads symbols destination value) (limit : Option Int) :
    expandLine limit t = Outcome.ofExcept (expandInstruction t) := by
  apply expandLine_of_mnemonic
  intro d
  obtain ⟨-, immediate, address, -⟩ := d.name_unknown
  generalize ofText t = i at loads
  cases loads with
  | immediate => exact immediate.symm
  | literal | label => exact address.symm

end Instruction.Loads

/-! ## Fragments and words -/

/-- A fragment is an instruction that is encoded with this result and without a warning. -/
def Fragment.Gives (symbols : SymbolTable) (result : Except (Failure Fault) Word)
    (fragment : Fragment) : Prop :=
  ∃ text half, fragment = .instruction text half ∧ encode symbols half text = ⟨[], result⟩

namespace Image

variable {symbols : SymbolTable} {first second : Fragment} {v w : Word} {failure : Failure Fault}

theorem ofBlocksFrom_cons_of_word {block : Block} (gives : block.fragment.Gives symbols (.ok v))
    (emitted : Nat) (rest : List Block) :
    ofBlocksFrom symbols emitted (block :: rest) =
      (ofBlocksFrom symbols (emitted + 4) rest).bind fun more =>
        Outcome.ok (Bytes.bigEndian 4 v.toNat ++ more) := by
  obtain ⟨text, half, instruction, encoded⟩ := gives
  rw [ofBlocksFrom_cons, piece_of_instruction instruction, encoded, instruction]
  exact Outcome.ok_bind _ _

theorem ofBlocksFrom_cons_of_refused {block : Block}
    (gives : block.fragment.Gives symbols (.error failure)) (emitted : Nat) (rest : List Block) :
    ofBlocksFrom symbols emitted (block :: rest) =
      ⟨[], .error (failure.map (LocatedFault.mk block.line))⟩ := by
  obtain ⟨text, half, instruction, failed⟩ := gives
  exact ofBlocksFrom_cons_of_failed instruction failed rest

/-- The words of one line stand next to each other. -/
theorem ofBlocksFrom_pair (hv : first.Gives symbols (.ok v)) (hw : second.Gives symbols (.ok w))
    (number : Int) (names : List Text) (emitted : Nat) (rest : List Block) :
    ofBlocksFrom symbols emitted (Block.ofFragments number names [first, second] ++ rest) =
      (ofBlocksFrom symbols (emitted + 8) rest).bind fun more =>
        Outcome.ok (Bytes.bigEndian 4 v.toNat ++ Bytes.bigEndian 4 w.toNat ++ more) := by
  calc ofBlocksFrom symbols emitted (⟨number, names, first⟩ :: ⟨number, [], second⟩ :: rest)
      = ((ofBlocksFrom symbols (emitted + 4 + 4) rest).bind fun more =>
          Outcome.ok (Bytes.bigEndian 4 w.toNat ++ more)).bind fun more =>
            Outcome.ok (Bytes.bigEndian 4 v.toNat ++ more) := by
        rw [ofBlocksFrom_cons_of_word hv, ofBlocksFrom_cons_of_word hw]
    _ = _ := by
        simp only [Outcome.bind_assoc, Outcome.ok_bind, List.append_assoc]

/-- The first fragment of a line that cannot be encoded stops the image. -/
theorem ofBlocksFrom_pair_of_refused
    (refused : first.Gives symbols (.error failure) ∨
      first.Gives symbols (.ok v) ∧ second.Gives symbols (.error failure))
    (number : Int) (names : List Text) (emitted : Nat) (rest : List Block) :
    ofBlocksFrom symbols emitted (Block.ofFragments number names [first, second] ++ rest) =
      ⟨[], .error (failure.map (LocatedFault.mk number))⟩ := by
  change ofBlocksFrom symbols emitted
    (⟨number, names, first⟩ :: ⟨number, [], second⟩ :: rest) = _
  rcases refused with own | ⟨own, later⟩
  · rw [ofBlocksFrom_cons_of_refused own]
  · rw [ofBlocksFrom_cons_of_word own, ofBlocksFrom_cons_of_refused later]
    rfl

end Image

/-! ## What a load becomes -/

theorem loadImmediate_eq (destination : Text) (value : Int) :
    loadImmediate destination value =
      [Instruction.upper (Bits.high 16 (Bits.low 32 value)),
        Instruction.lower destination (Bits.low 16 (Bits.low 32 value))] := rfl

theorem Bits.high_low_lt (value : Int) : Bits.high 16 (Bits.low 32 value) < 2 ^ 16 :=
  Nat.div_lt_of_lt_mul (Bits.low_lt 32 value)

/-- The two halves of the low bits of a number. -/
theorem Bits.high_mul_add_low (value : Int) :
    (Bits.high 16 (Bits.low 32 value) : Int) * 2 ^ 16 + Bits.low 16 (Bits.low 32 value) =
      value % 2 ^ 32 := by
  rw [natCast_upper, natCast_lower]
  omega

namespace Instruction.Loads

variable {symbols : SymbolTable} {t destination : Text} {value : Int}

/-- Every load is expanded to two fragments. With a register these are the words of the halves, and
without one the first or the second of them is refused. -/
theorem exists_fragments (loads : (ofText t).Loads symbols destination value)
    (token : Text.IsToken destination) (limit : Option Int) :
    ∃ first second, expandLine limit t = ⟨[], .ok [first, second]⟩ ∧
      (∀ d, Register.parse destination = .ok d →
        first.Gives symbols (.ok (Word.load .upper d value)) ∧
        second.Gives symbols (.ok (Word.load .lower d value))) ∧
      ∀ failure, destination ≠ [] → Register.parse destination = .error failure →
        first.Gives symbols (.error failure) ∨
          first.Gives symbols (.ok (Word.upper (Bits.high 16 (Bits.low 32 value)))) ∧
            second.Gives symbols (.error failure) := by
  rw [loads.expandLine_eq limit]
  rcases loads.cases_of_text with ⟨source, written, read⟩ | ⟨target, written, targets⟩
  · have upper := @encode_upper symbols _ (Bits.high_low_lt value) none
    rw [expandInstruction_loadImmediate written read, loadImmediate_eq]
    refine ⟨_, _, rfl, fun d parsed => ?_, fun failure present unknown => .inr ?_⟩
    · exact ⟨⟨_, _, rfl, upper⟩, _, _, rfl, encode_lower ⟨token, parsed⟩ (Bits.low_lt 16 _) none⟩
    · exact ⟨⟨_, _, rfl, upper⟩, _, _, rfl,
        encode_lower_of_parse_error token present unknown none⟩
  · rw [expandInstruction_loadAddress written]
    refine ⟨_, _, rfl, fun d parsed => ?_, fun failure present unknown => .inl ?_⟩
    · exact ⟨⟨_, _, rfl, encode_loadAddress_eq ⟨token, parsed⟩ targets .upper⟩,
        _, _, rfl, encode_loadAddress_eq ⟨token, parsed⟩ targets .lower⟩
    · exact ⟨_, _, rfl, encode_loadAddress_of_parse_error .upper token present targets.form
        targets.present unknown⟩

end Instruction.Loads

/-- `li` and `la` with a literal and `la` with a label load the same number as the same two words,
which stand next to each other wherever they are put; and a destination that is no register is
reported by all three. -/
theorem loads_agree (destination : Text) (value : Int) (token : Text.IsToken destination)
    (present : destination ≠ []) :
    (∀ d, Register.ofToken? destination = some d → ∃ high low : Nat,
      high < 2 ^ 16 ∧ low < 2 ^ 16 ∧ (high : Int) * 2 ^ 16 + low = value % 2 ^ 32 ∧
      (∀ symbols,
        encode symbols none (Instruction.upper high).text = ⟨[], .ok (Word.upper high)⟩ ∧
        encode symbols none (Instruction.lower destination low).text =
          ⟨[], .ok (Word.lower d low)⟩) ∧
      ∀ symbols limit t, (Instruction.ofText t).Loads symbols destination value →
        ∃ first second, expandLine limit t = ⟨[], .ok [first, second]⟩ ∧
          first.Gives symbols (.ok (Word.upper high)) ∧
          second.Gives symbols (.ok (Word.lower d low)) ∧
          ∀ number names emitted rest,
            Image.ofBlocksFrom symbols emitted
                (Block.ofFragments number names [first, second] ++ rest) =
              (Image.ofBlocksFrom symbols (emitted + 8) rest).bind fun more =>
                Outcome.ok (Bytes.bigEndian 4 (Word.upper high).toNat ++
                  Bytes.bigEndian 4 (Word.lower d low).toNat ++ more)) ∧
    (Register.ofToken? destination = none →
      ∀ symbols limit t, (Instruction.ofText t).Loads symbols destination value →
        ∃ first second, expandLine limit t = ⟨[], .ok [first, second]⟩ ∧
          ∀ number names emitted rest,
            Image.ofBlocksFrom symbols emitted
                (Block.ofFragments number names [first, second] ++ rest) =
              ⟨[], .error (.fault ⟨number, .invalidRegister destination⟩)⟩) := by
  constructor
  · intro d named
    have parsed : Register.parse destination = .ok d := Register.parse_eq_ok_iff.2 named
    refine ⟨Bits.high 16 (Bits.low 32 value), Bits.low 16 (Bits.low 32 value),
      Bits.high_low_lt value, Bits.low_lt 16 _, Bits.high_mul_add_low value,
      fun symbols => ⟨Instruction.encode_upper (Bits.high_low_lt value) none,
        Instruction.encode_lower ⟨token, parsed⟩ (Bits.low_lt 16 _) none⟩,
      fun symbols limit t loads => ?_⟩
    obtain ⟨first, second, expanded, words, -⟩ := loads.exists_fragments token limit
    obtain ⟨upper, lower⟩ := words d parsed
    exact ⟨first, second, expanded, upper, lower, Image.ofBlocksFrom_pair upper lower⟩
  · intro unnamed symbols limit t loads
    have unknown : Register.parse destination = .error (.fault (.invalidRegister destination)) :=
      Register.parse_eq_error_iff.2 ⟨unnamed, rfl⟩
    obtain ⟨first, second, expanded, -, refused⟩ := loads.exists_fragments token limit
    exact ⟨first, second, expanded,
      Image.ofBlocksFrom_pair_of_refused (refused _ present unknown)⟩

/-- The lower half is not extended by its sign, and a thirty-third register stops every load. -/
theorem loads_agree_sign_bit :
    let symbols : SymbolTable := [("far".toText, 0x8000)]
    (∀ t ∈ ["li $t0, 32768".toText, "la $t0, 0x8000".toText, "la $t0,far".toText],
      ∃ first second, expandLine none t = ⟨[], .ok [first, second]⟩ ∧
        Image.ofBlocks symbols (Block.ofFragments 1 [] [first, second]) =
          ⟨[], .ok [0x3c, 0x01, 0x00, 0x00, 0x34, 0x28, 0x80, 0x00]⟩) ∧
    ∀ t ∈ ["li $32, 32768".toText, "la $32, 0x8000".toText, "la $32,far".toText],
      ∃ first second, expandLine none t = ⟨[], .ok [first, second]⟩ ∧
        Image.ofBlocks symbols (Block.ofFragments 1 [] [first, second]) =
          ⟨[], .error (.fault ⟨1, .invalidRegister "$32".toText⟩)⟩ := by
  intro symbols
  have decimal : Numeral.Written "32768".toText ⟨false, .decimal, [3, 2, 7, 6, 8]⟩ :=
    Numeral.ofText?_eq_some_iff.1 (by rfl)
  have hexadecimal : Numeral.Written "0x8000".toText ⟨false, .hexadecimal, [8, 0, 0, 0]⟩ :=
    Numeral.ofText?_eq_some_iff.1 (by rfl)
  constructor
  · obtain ⟨high, low, hhigh, hlow, value, -, agree⟩ :=
      (loads_agree "$t0".toText 0x8000 (by decide) (by decide)).1 8 (by rfl)
    obtain rfl : high = 0 := by omega
    obtain rfl : low = 0x8000 := by omega
    intro t member
    have loads : (Instruction.ofText t).Loads symbols "$t0".toText 0x8000 := by
      simp only [List.mem_cons, List.not_mem_nil, or_false] at member
      rcases member with rfl | rfl | rfl
      · exact .immediate decimal (by rfl) (by rfl)
      · exact .literal hexadecimal (by rfl) (by rfl)
      · exact .label (by decide) (by rfl)
    obtain ⟨first, second, expanded, -, -, image⟩ := agree symbols none t loads
    exact ⟨first, second, expanded, image 1 [] 0 []⟩
  · intro t member
    have loads : (Instruction.ofText t).Loads symbols "$32".toText 0x8000 := by
      simp only [List.mem_cons, List.not_mem_nil, or_false] at member
      rcases member with rfl | rfl | rfl
      · exact .immediate decimal (by rfl) (by rfl)
      · exact .literal hexadecimal (by rfl) (by rfl)
      · exact .label (by decide) (by rfl)
    obtain ⟨first, second, expanded, image⟩ :=
      (loads_agree "$32".toText 0x8000 (by decide) (by decide)).2 (by rfl) symbols none t loads
    exact ⟨first, second, expanded, image 1 [] 0 []⟩

end MipsImage
