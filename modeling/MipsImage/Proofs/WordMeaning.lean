import MipsImage.Proofs.EncodedFields
import MipsImage.Proofs.InstructionExpansion
import MipsImage.Proofs.Machine

/-!
# What encoded instructions do

An instruction that is written out and encoded does what its mnemonic says to the registers that
its operands name. The families of mnemonics differ in the parts of the word that they use, and
within a family only the opcode or the function code decides.
-/
set_option autoImplicit false

namespace MipsImage

/-! ## Operands -/

/-- A token that can stand in an instruction names a register. -/
structure Text.Names (token : Text) (r : Register) : Prop where
  form : IsToken token
  parsed : Register.parse token = .ok r

/-- A token that can stand in an instruction is a number. -/
structure Text.Counts (token : Text) (value : Int) : Prop where
  form : IsToken token
  read : readInteger token = .ok value

/-- A token that can stand in an instruction refers to an address. -/
structure Text.Targets (symbols : SymbolTable) (token : Text) (address : Int) : Prop where
  form : IsToken token
  present : token ≠ []
  resolved : symbols.resolveTarget token = .ok address

namespace Text

variable {symbols : SymbolTable} {token : Text} {r : Register} {value : Int}

theorem Names.present (names : Names token r) : token ≠ [] := by
  rintro rfl
  have failed : Register.parse [] = .error (.fault (.invalidRegister [])) := by rfl
  have parsed := names.parsed
  rw [failed] at parsed
  cases parsed

theorem Counts.present (counts : Counts token value) : token ≠ [] := by
  rintro rfl
  have failed : readInteger [] = .error (.fault (.invalidLiteral [])) := by rfl
  have read := counts.read
  rw [failed] at read
  cases read

theorem names_zero : Names "$0".toText Register.zero := ⟨by decide, by rfl⟩

theorem names_scratch : Names "$1".toText Register.scratch := ⟨by decide, by rfl⟩

theorem names_at : Names "$at".toText Register.scratch := ⟨by decide, by rfl⟩

theorem counts_zero : Counts "0".toText 0 := ⟨by decide, by rfl⟩

theorem counts_one : Counts "1".toText 1 := ⟨by decide, by rfl⟩

theorem counts_decimalText {n : Nat} (h : n < 2 ^ 16) : Counts (Numeral.decimalText n) n := by
  have few : 2 ^ 16 ≤ 10 ^ 5 := by decide
  have more : 10 ^ 5 ≤ 10 ^ Numeral.maxDecimalDigits :=
    Nat.pow_le_pow_right (by decide) (by decide)
  exact ⟨Numeral.isToken_decimalText n, Numeral.readInteger_decimalText (by omega)⟩

theorem Names.read_rd (names : Names token r) :
    Slot.rd.read symbols token = .ok [⟨.rd, r.val, token⟩] := by
  rw [Slot.read, names.parsed]
  rfl

theorem Names.read_rs (names : Names token r) :
    Slot.rs.read symbols token = .ok [⟨.rs, r.val, token⟩] := by
  rw [Slot.read, names.parsed]
  rfl

theorem Names.read_rt (names : Names token r) :
    Slot.rt.read symbols token = .ok [⟨.rt, r.val, token⟩] := by
  rw [Slot.read, names.parsed]
  rfl

theorem Counts.read_immediate (counts : Counts token value) :
    Slot.immediate.read symbols token = .ok [⟨.imm, value, token⟩] := by
  rw [Slot.read, counts.read]
  rfl

theorem Targets.read_target (targets : Targets symbols token value) :
    Slot.target.read symbols token = .ok [⟨.imm, value, token⟩] := by
  rw [Slot.read, targets.resolved]
  rfl

end Text

/-! ## Words of instructions -/

theorem Mnemonic.named?_name (m : Mnemonic) : named? m.name.toText = some m := by
  have table : ∀ m ∈ all, named? m.name.toText = some m := by decide +kernel
  exact table m m.mem_all

theorem Slot.readAll_cons {symbols : SymbolTable} {slot : Slot} {token : Text}
    {rest : List (Slot × Text)} {first more : List Setting}
    (hfirst : slot.read symbols token = .ok first) (hmore : readAll symbols rest = .ok more) :
    readAll symbols ((slot, token) :: rest) = .ok (first ++ more) :=
  readAll_cons_eq_ok_iff.2 ⟨first, more, hfirst, hmore, rfl⟩

/-- An instruction that is made of tokens with numbers for its fields is encoded as a word that
shows them. -/
theorem encode_of_operands {symbols : SymbolTable} {m : Mnemonic} {layout : List Slot}
    {operands : List Text} {settings : List Setting} (layouts : m.format.layouts = [layout])
    (ordinary : m ≠ .la) (some : operands ≠ []) (length : operands.length = layout.length)
    (full : ∀ token ∈ operands, token ≠ []) (tokens : ∀ token ∈ operands, Text.IsToken token)
    (read : Slot.readAll symbols (layout.zip operands) = .ok settings) :
    ∃ notes word, encode symbols none (Instruction.text ⟨m.name.toText, operands⟩) =
        ⟨notes, .ok word⟩ ∧ Word.Shows m settings word := by
  have reread : Instruction.ofText (Instruction.text ⟨m.name.toText, operands⟩) =
      ⟨m.name.toText, operands⟩ := by
    refine Instruction.ofText_text m.isMnemonic_name some ?_ tokens
    rintro rfl
    exact full [] (List.mem_cons_self ..) rfl
  have fills : Instruction.fillsPlaces layout.length operands = true := by
    rw [Instruction.fillsPlaces, Bool.and_eq_true, decide_eq_true_eq, List.all_eq_true]
    exact ⟨length, fun token member => decide_eq_true (full token member)⟩
  have chosen : m.format.layoutFor? operands = Option.some layout := by
    rw [Format.layoutFor?, layouts]
    exact List.find?_cons_of_pos fills
  have reads : Instruction.Reads symbols ⟨m.name.toText, operands⟩ m settings :=
    ⟨m.named?_name, layout, chosen, read⟩
  have named : Mnemonic.named? m.name.toText ≠ Option.some .la := by
    rw [m.named?_name]
    exact fun h => ordinary (Option.some.inj h)
  have resolved := (resolve_eq_ok_iff_reads ordinary).2 ⟨settings, reads, rfl⟩
  -- what is encoded is the text, not the instruction that was written out
  rw [← reread] at reads resolved
  refine ⟨_, _, (encode_eq_ok_iff ?_).2 ⟨m, _, ordinary, resolved, rfl⟩, reads.shows ordinary⟩
  rw [reread]
  exact named

/-! ## Parts as the machine sees them -/

section Decode
variable {bits : Nat} {word : Word} {r : Register}

theorem Register.toFin_ofInt (r : Register) : (BitVec.ofInt 5 r.val).toFin = r := by
  rw [BitVec.ofInt_natCast]
  apply Fin.ext
  exact Nat.mod_eq_of_lt r.isLt

theorem Word.source_eq (h : Part.rs.Holds bits word r.val) : word.source = r :=
  (congrArg BitVec.toFin h).trans r.toFin_ofInt

theorem Word.target_eq (h : Part.rt.Holds bits word r.val) : word.target = r :=
  (congrArg BitVec.toFin h).trans r.toFin_ofInt

theorem Word.destination_eq (h : Part.rd.Holds bits word r.val) : word.destination = r :=
  (congrArg BitVec.toFin h).trans r.toFin_ofInt

theorem Word.Shows.opcode_eq {m : Mnemonic} {settings : List Setting}
    (shown : Word.Shows m settings word) (free : Part.opcode ∉ settings.map Setting.part) :
    word.opcode = BitVec.ofInt 6 m.format.opcode :=
  shown.fixed .opcode (by decide) trivial free

theorem Word.Shows.immediate_eq {m : Mnemonic} {settings : List Setting} {value : Int}
    {t : Text} (shown : Word.Shows m settings word) (half : m.format.immediateBits = 16)
    (written : ⟨.imm, value, t⟩ ∈ settings) : word.immediate = BitVec.ofInt 16 value := by
  have holds := shown.operand _ written
  rw [half] at holds
  exact holds

end Decode

/-! ## Families -/

/-- An instruction is written out and encoded as a word that does this. -/
def Instruction.Does (symbols : SymbolTable) (i : Instruction) (act : Registers → Operation) :
    Prop :=
  ∃ notes word, encode symbols none i.text = ⟨notes, .ok word⟩ ∧
    ∀ R, word.operation? R = some (act R)

namespace Instruction

variable {symbols : SymbolTable} {m : Mnemonic} {code : Nat} {a b c : Text} {d s t : Register}

theorem does_arithmetic (format : m.format = { Format.of .arithmetic with funct := code })
    {f : Word → Word → Word}
    (computes : ∀ x y, Word.arithmetic? (BitVec.ofInt 6 code) x y = some (f x y))
    (ha : Text.Names a d) (hb : Text.Names b s) (hc : Text.Names c t) :
    Does symbols ⟨m.name.toText, [a, b, c]⟩ fun R => .write d (f (R.read s) (R.read t)) := by
  have ordinary : m ≠ .la := by
    rintro rfl
    cases format
  obtain ⟨notes, word, encoded, shown⟩ := encode_of_operands
    (congrArg Format.layouts format) ordinary (List.cons_ne_nil a [b, c]) rfl
    (by simp [ha.present, hb.present, hc.present]) (by simp [ha.form, hb.form, hc.form])
    (Slot.readAll_cons ha.read_rd
      (Slot.readAll_cons hb.read_rs (Slot.readAll_cons hc.read_rt rfl)))
  refine ⟨notes, word, encoded, fun R => ?_⟩
  have hd := Word.destination_eq (shown.operand ⟨.rd, d.val, a⟩ (by simp))
  have hs := Word.source_eq (shown.operand ⟨.rs, s.val, b⟩ (by simp))
  have ht := Word.target_eq (shown.operand ⟨.rt, t.val, c⟩ (by simp))
  have opcode : word.opcode = 0x00#6 := by
    rw [shown.opcode_eq (by simp), format]
    rfl
  have function : word.function = BitVec.ofInt 6 code := by
    have holds := shown.fixed .funct (by decide) (by rw [format]; rfl) (by simp)
    rw [format] at holds
    exact holds
  simp only [Word.operation?, opcode, function, computes, hd, hs, ht, Option.map_some]

theorem does_immediate (format : m.format = { Format.of .immediate with opcode := code })
    {value : Int} {f : Word → Word}
    (computes : ∀ x, Word.withImmediate? (BitVec.ofInt 6 code) x (BitVec.ofInt 16 value) =
      some (f x))
    (ha : Text.Names a d) (hb : Text.Names b s) (hc : Text.Counts c value) :
    Does symbols ⟨m.name.toText, [a, b, c]⟩ fun R => .write d (f (R.read s)) := by
  have ordinary : m ≠ .la := by
    rintro rfl
    cases format
  obtain ⟨notes, word, encoded, shown⟩ := encode_of_operands
    (congrArg Format.layouts format) ordinary (List.cons_ne_nil a [b, c]) rfl
    (by simp [ha.present, hb.present, hc.present]) (by simp [ha.form, hb.form, hc.form])
    (Slot.readAll_cons ha.read_rt
      (Slot.readAll_cons hb.read_rs (Slot.readAll_cons hc.read_immediate rfl)))
  refine ⟨notes, word, encoded, fun R => ?_⟩
  have hd := Word.target_eq (shown.operand ⟨.rt, d.val, a⟩ (by simp))
  have hs := Word.source_eq (shown.operand ⟨.rs, s.val, b⟩ (by simp))
  have opcode : word.opcode = BitVec.ofInt 6 code := by
    rw [shown.opcode_eq (by simp), format]
  have immediate : word.immediate = BitVec.ofInt 16 value :=
    shown.immediate_eq (t := c) (congrArg Format.immediateBits format) (by simp)
  rw [← hd, ← hs]
  exact Word.operation?_of_immediate (by rw [opcode, immediate, computes])

theorem does_lui {value : Int} (ha : Text.Names a d) (hb : Text.Counts b value) :
    Does symbols ⟨Mnemonic.lui.name.toText, [a, b]⟩ fun _ =>
      .write d ((BitVec.ofInt 16 value).setWidth 32 <<< 16) := by
  obtain ⟨notes, word, encoded, shown⟩ := @encode_of_operands symbols .lui _ _ _ rfl (by decide)
    (List.cons_ne_nil a [b]) rfl (by simp [ha.present, hb.present]) (by simp [ha.form, hb.form])
    (Slot.readAll_cons ha.read_rt (Slot.readAll_cons hb.read_immediate rfl))
  refine ⟨notes, word, encoded, fun R => ?_⟩
  have hd := Word.target_eq (shown.operand ⟨.rt, d.val, a⟩ (by simp))
  have opcode : word.opcode = 0x0f#6 := shown.opcode_eq (by simp)
  have immediate : word.immediate = BitVec.ofInt 16 value :=
    shown.immediate_eq (t := b) rfl (by simp)
  rw [← hd, ← immediate]
  exact Word.operation?_of_immediate (by rw [opcode]; rfl)

theorem does_branch (format : m.format = { Format.of .branch with opcode := code })
    {test : Word → Word → Bool} {address : Int}
    (tests : ∀ (w : Word) R, w.opcode = BitVec.ofInt 6 code →
      w.operation? R = some (.branch (test (R.read w.source) (R.read w.target)) w.immediate))
    (ha : Text.Names a s) (hb : Text.Names b t) (hc : Text.Targets symbols c address) :
    Does symbols ⟨m.name.toText, [a, b, c]⟩ fun R =>
      .branch (test (R.read s) (R.read t)) (BitVec.ofInt 16 address) := by
  have ordinary : m ≠ .la := by
    rintro rfl
    cases format
  obtain ⟨notes, word, encoded, shown⟩ := encode_of_operands
    (congrArg Format.layouts format) ordinary (List.cons_ne_nil a [b, c]) rfl
    (by simp [ha.present, hb.present, hc.present]) (by simp [ha.form, hb.form, hc.form])
    (Slot.readAll_cons ha.read_rs
      (Slot.readAll_cons hb.read_rt (Slot.readAll_cons hc.read_target rfl)))
  refine ⟨notes, word, encoded, fun R => ?_⟩
  have hs := Word.source_eq (shown.operand ⟨.rs, s.val, a⟩ (by simp))
  have ht := Word.target_eq (shown.operand ⟨.rt, t.val, b⟩ (by simp))
  have opcode : word.opcode = BitVec.ofInt 6 code := by
    rw [shown.opcode_eq (by simp), format]
  have immediate : word.immediate = BitVec.ofInt 16 address :=
    shown.immediate_eq (t := c) (congrArg Format.immediateBits format) (by simp)
  rw [tests word R opcode, hs, ht, immediate]

theorem does_beq {address : Int} (ha : Text.Names a s) (hb : Text.Names b t)
    (hc : Text.Targets symbols c address) :
    Does symbols ⟨Mnemonic.beq.name.toText, [a, b, c]⟩ fun R =>
      .branch (R.read s == R.read t) (BitVec.ofInt 16 address) :=
  does_branch rfl (fun w R opcode => by rw [Word.operation?, opcode]; rfl) ha hb hc

theorem does_bne {address : Int} (ha : Text.Names a s) (hb : Text.Names b t)
    (hc : Text.Targets symbols c address) :
    Does symbols ⟨Mnemonic.bne.name.toText, [a, b, c]⟩ fun R =>
      .branch (R.read s != R.read t) (BitVec.ofInt 16 address) :=
  does_branch rfl (fun w R opcode => by rw [Word.operation?, opcode]; rfl) ha hb hc

end Instruction

/-! ## The two words of `la` -/

theorem encode_loadAddress {symbols : SymbolTable} {destination target : Text} {d : Register}
    {address : Int} (hd : Text.Names destination d) (ht : Text.Targets symbols target address)
    (half : Half) :
    ∃ word, encode symbols (some half) (loadAddress destination target).text = ⟨[], .ok word⟩ ∧
      Word.Loads half d address word := by
  have reread := ofText_loadAddress hd.form ht.form
  have chosen : Mnemonic.la.format.layoutFor? [destination, target] = some [.rd, .target] := by
    apply List.find?_cons_of_pos
    simp [Instruction.fillsPlaces, hd.present, ht.present]
  have placed : placeAll Mnemonic.la.format symbols (.ofFormat Mnemonic.la.format)
      [(.rd, destination), (.target, target)] =
        ⟨[], .ok { Fields.ofFormat Mnemonic.la.format with rd := d.val, imm := address }⟩ := by
    simp only [placeAll, place, hd.parsed, ht.resolved]
    rfl
  have resolved : resolve symbols (loadAddress destination target) =
      ⟨[], .ok (.la, { Fields.ofFormat Mnemonic.la.format with rd := d.val, imm := address })⟩ :=
    resolve_eq_ok_iff.2 ⟨Mnemonic.la.named?_name, _, chosen, placed⟩
  have named : Mnemonic.named? (loadAddress destination target).mnemonic = some .la :=
    Mnemonic.la.named?_name
  refine ⟨_, ?_, Fields.loadHalf_loads d address half⟩
  simp only [encode, reread, named, resolved]
  rfl

theorem Word.Loads.operation?_upper {word : Word} {d : Register} {address : Int}
    (loads : Word.Loads .upper d address word) (R : Registers) :
    word.operation? R = some (.write Register.scratch
      ((BitVec.ofInt 16 (address % 2 ^ 32 / 2 ^ 16)).setWidth 32 <<< 16)) := by
  obtain ⟨hopcode, -, htarget, himmediate⟩ := loads
  have opcode : word.opcode = 0x0f#6 := hopcode
  have immediate : word.immediate = BitVec.ofInt 16 (address % 2 ^ 32 / 2 ^ 16) := himmediate
  rw [← Word.target_eq htarget, ← immediate]
  exact Word.operation?_of_immediate (by rw [opcode]; rfl)

theorem Word.Loads.operation?_lower {word : Word} {d : Register} {address : Int}
    (loads : Word.Loads .lower d address word) (R : Registers) :
    word.operation? R = some (.write d
      (R.read Register.scratch ||| (BitVec.ofInt 16 (address % 2 ^ 16)).setWidth 32)) := by
  obtain ⟨hopcode, hsource, htarget, himmediate⟩ := loads
  have opcode : word.opcode = 0x0d#6 := hopcode
  have immediate : word.immediate = BitVec.ofInt 16 (address % 2 ^ 16) := himmediate
  rw [← Word.target_eq htarget, ← Word.source_eq hsource, ← immediate]
  exact Word.operation?_of_immediate (by rw [opcode]; rfl)

/-- Both halves of a number make up the number. -/
theorem Word.upper_or_lower (value : Int) :
    ((BitVec.ofInt 16 (value % 2 ^ 32 / 2 ^ 16)).setWidth 32 <<< 16) |||
      (BitVec.ofInt 16 (value % 2 ^ 16)).setWidth 32 = BitVec.ofInt 32 value := by
  -- both sides depend on the value modulo 2 ^ 32 only
  obtain ⟨n, hn⟩ :=
    Int.eq_ofNat_of_zero_le (Int.emod_nonneg value (by decide : (2 ^ 32 : Int) ≠ 0))
  have below : n < 2 ^ 32 := by
    have := Int.emod_lt_of_pos value (by decide : (0 : Int) < 2 ^ 32)
    omega
  have whole : BitVec.ofInt 32 value = BitVec.ofNat 32 n := by
    apply BitVec.eq_of_toNat_eq
    rw [BitVec.toNat_ofInt, BitVec.toNat_ofNat, Nat.mod_eq_of_lt below]
    exact congrArg Int.toNat hn
  have upper : value % 2 ^ 32 / 2 ^ 16 = (n / 2 ^ 16 : Nat) := by omega
  have lower : value % 2 ^ 16 = (n % 2 ^ 16 : Nat) := by omega
  have high : n / 2 ^ 16 < 2 ^ 16 := by omega
  have low : n % 2 ^ 16 < 2 ^ 16 := by omega
  have shifted : (n / 2 ^ 16) <<< 16 = n / 2 ^ 16 * 2 ^ 16 := Nat.shiftLeft_eq _ _
  have sum : (n / 2 ^ 16) <<< 16 ||| n % 2 ^ 16 = n := by
    rw [← Nat.shiftLeft_add_eq_or_of_lt low, shifted]
    omega
  have fits : (n / 2 ^ 16) <<< 16 < 2 ^ 32 := by omega
  have highest : n / 2 ^ 16 < 2 ^ 32 := by omega
  have lowest : n % 2 ^ 16 < 2 ^ 32 := by omega
  rw [whole, lower, upper, BitVec.ofInt_natCast, BitVec.ofInt_natCast]
  apply BitVec.eq_of_toNat_eq
  simp only [BitVec.toNat_or, BitVec.toNat_shiftLeft, BitVec.toNat_setWidth, BitVec.toNat_ofNat,
    Nat.mod_eq_of_lt high, Nat.mod_eq_of_lt low, Nat.mod_eq_of_lt below, Nat.mod_eq_of_lt fits,
    Nat.mod_eq_of_lt highest, Nat.mod_eq_of_lt lowest, sum]

end MipsImage
