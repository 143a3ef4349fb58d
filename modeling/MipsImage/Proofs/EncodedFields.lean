import Mathlib.Data.List.Basic
import MipsImage.Proofs.Operands

/-!
# Encoded fields

The word of an instruction shows what was written field by field: the numbers of its operands, cut
to the low bits that there is room for, and the numbers that its mnemonic fixes. All other bits are
clear, and only a number that does not fit is warned about. The two words of `la` together show its
whole address, so they never ask for a warning.
-/
set_option autoImplicit false

namespace MipsImage

/-! ## Formats -/

/-- The mnemonic's own numbers are in range, and the operands set parts that do not give way to the
immediate, none of them twice. -/
structure Format.Sound (f : Format) : Prop where
  ordinary : f.family ≠ .loadAddress
  known : f.immediateBits ∈ [0, 16, 21, 26]
  fixed : (Fields.ofFormat f).Separate f.immediateBits
  distinct : ∀ layout ∈ f.layouts, (layout.flatMap Slot.parts).Nodup
  live : ∀ layout ∈ f.layouts, ∀ part ∈ layout.flatMap Slot.parts, part.LiveIn f.immediateBits

instance (f : Format) : Decidable f.Sound :=
  decidable_of_iff
    (f.family ≠ .loadAddress ∧ f.immediateBits ∈ [0, 16, 21, 26] ∧
      (Fields.ofFormat f).Separate f.immediateBits ∧
      (∀ layout ∈ f.layouts, (layout.flatMap Slot.parts).Nodup) ∧
      ∀ layout ∈ f.layouts, ∀ part ∈ layout.flatMap Slot.parts, part.LiveIn f.immediateBits)
    ⟨fun h => ⟨h.1, h.2.1, h.2.2.1, h.2.2.2.1, h.2.2.2.2⟩,
      fun h => ⟨h.ordinary, h.known, h.fixed, h.distinct, h.live⟩⟩

theorem Format.Sound.narrow {f : Format} (sound : f.Sound) : f.immediateBits ≤ 26 := by
  have known := sound.known
  simp only [List.mem_cons, List.not_mem_nil, or_false] at known
  omega

theorem Mnemonic.format_sound (m : Mnemonic) (h : m ≠ .la) : m.format.Sound := by
  cases m <;> first | exact absurd rfl h | decide

theorem Format.layoutFor?_eq_some {format : Format} {operands : List Text} {layout : List Slot}
    (h : format.layoutFor? operands = some layout) :
    layout ∈ format.layouts ∧ layout.length = operands.length := by
  have fills := List.find?_some h
  simp only [Instruction.fillsPlaces, Bool.and_eq_true, decide_eq_true_eq] at fills
  exact ⟨List.mem_of_find?_eq_some h, fills.1.symm⟩

/-! ## Resolved instructions -/

/-- An instruction has this mnemonic, and its operands give these numbers. -/
structure Instruction.Reads (symbols : SymbolTable) (i : Instruction) (m : Mnemonic)
    (settings : List Setting) : Prop where
  named : Mnemonic.named? i.mnemonic = some m
  read : ∃ layout, m.format.layoutFor? i.operands = some layout ∧
    Slot.readAll symbols (layout.zip i.operands) = .ok settings

theorem resolve_eq_ok_iff {symbols : SymbolTable} {i : Instruction} {m : Mnemonic}
    {fields : Fields} {notes : List Truncation} :
    resolve symbols i = ⟨notes, .ok (m, fields)⟩ ↔
      Mnemonic.named? i.mnemonic = some m ∧
      ∃ layout, m.format.layoutFor? i.operands = some layout ∧
        placeAll m.format symbols (.ofFormat m.format) (layout.zip i.operands) =
          ⟨notes, .ok fields⟩ := by
  rw [resolve]
  cases hnamed : Mnemonic.named? i.mnemonic with
  | none => simp [Outcome.fail]
  | some known =>
    cases hlayout : known.format.layoutFor? i.operands with
    | none =>
      simp only [hlayout, Outcome.fail, Outcome.mk.injEq, reduceCtorEq, and_false,
        Option.some.injEq, false_iff, not_and]
      rintro rfl ⟨layout, h, -⟩
      rw [hlayout] at h
      cases h
    | some layout =>
      simp only [hlayout, Outcome.bind_eq, Outcome.pure_eq_ok]
      constructor
      · intro h
        obtain ⟨result, _, _, hplace, hpair, rfl⟩ := Outcome.bind_eq_ok_iff.1 h
        cases hpair
        exact ⟨rfl, layout, hlayout, by rw [List.append_nil]; exact hplace⟩
      · rintro ⟨heq, layout', hlayout', hplace⟩
        cases heq
        rw [hlayout] at hlayout'
        cases hlayout'
        exact Outcome.bind_eq_ok_iff.2 ⟨fields, notes, [], hplace, rfl, (List.append_nil _).symm⟩

/-- An instruction other than `la` is resolved exactly if all of its operands can be read. -/
theorem resolve_eq_ok_iff_reads {symbols : SymbolTable} {i : Instruction} {m : Mnemonic}
    {fields : Fields} {notes : List Truncation} (ordinary : m ≠ .la) :
    resolve symbols i = ⟨notes, .ok (m, fields)⟩ ↔
      ∃ settings, i.Reads symbols m settings ∧
        putNoting m.format (.ofFormat m.format) settings = ⟨notes, .ok fields⟩ := by
  have sound := m.format_sound ordinary
  rw [resolve_eq_ok_iff]
  constructor
  · rintro ⟨named, layout, hlayout, hplace⟩
    obtain ⟨settings, hread, hput⟩ := (placeAll_eq_ok_iff sound.ordinary).1 hplace
    exact ⟨settings, ⟨named, layout, hlayout, hread⟩, hput⟩
  · rintro ⟨settings, ⟨named, layout, hlayout, hread⟩, hput⟩
    exact ⟨named, layout, hlayout, (placeAll_eq_ok_iff sound.ordinary).2 ⟨settings, hread, hput⟩⟩

namespace Instruction.Reads

variable {symbols : SymbolTable} {i : Instruction} {m : Mnemonic} {settings : List Setting}

theorem parts_of_layout (reads : i.Reads symbols m settings) :
    ∃ layout ∈ m.format.layouts, settings.map Setting.part = layout.flatMap Slot.parts := by
  obtain ⟨layout, hlayout, hread⟩ := reads.read
  obtain ⟨known, hlength⟩ := Format.layoutFor?_eq_some hlayout
  refine ⟨layout, known, ?_⟩
  rw [Slot.map_part_readAll hread, List.map_fst_zip (Nat.le_of_eq hlength)]

theorem distinct (reads : i.Reads symbols m settings) (ordinary : m ≠ .la) :
    (settings.map Setting.part).Nodup := by
  obtain ⟨layout, known, hparts⟩ := reads.parts_of_layout
  rw [hparts]
  exact (m.format_sound ordinary).distinct layout known

theorem live (reads : i.Reads symbols m settings) (ordinary : m ≠ .la) (s : Setting)
    (hs : s ∈ settings) : s.part.LiveIn m.format.immediateBits := by
  obtain ⟨layout, known, hparts⟩ := reads.parts_of_layout
  apply (m.format_sound ordinary).live layout known
  rw [← hparts]
  exact List.mem_map_of_mem hs

/-- The fields of an instruction that is read do not touch each other. -/
theorem separate (reads : i.Reads symbols m settings) (ordinary : m ≠ .la) :
    ((Fields.ofFormat m.format).putAll m.format.immediateBits settings).Separate
      m.format.immediateBits :=
  Fields.putAll_separate (m.format_sound ordinary).fixed (reads.live ordinary)

end Instruction.Reads

theorem Mnemonic.toList_name {t : Text} {m : Mnemonic} (h : named? t = some m) :
    m.name.toText = t :=
  of_decide_eq_true (List.find?_some h :)

theorem encode_eq_of_ne_la {symbols : SymbolTable} {half : Option Half} {text : Text}
    (h : Mnemonic.named? (Instruction.ofText text).mnemonic ≠ some .la) :
    encode symbols half text =
      (resolve symbols (Instruction.ofText text)).bind fun (m, fields) =>
        Outcome.ok (fields.pack m.format.immediateBits) := by
  rw [encode]
  · rfl
  · intro named _
    exact h named
  · intro _ named _
    exact h named

/-- The word of an instruction other than `la` is packed from its fields. -/
theorem encode_eq_ok_iff {symbols : SymbolTable} {half : Option Half} {text : Text}
    {notes : List Truncation} {word : Word}
    (h : Mnemonic.named? (Instruction.ofText text).mnemonic ≠ some .la) :
    encode symbols half text = ⟨notes, .ok word⟩ ↔
      ∃ m fields, m ≠ .la ∧
        resolve symbols (Instruction.ofText text) = ⟨notes, .ok (m, fields)⟩ ∧
        word = fields.pack m.format.immediateBits := by
  rw [encode_eq_of_ne_la h]
  constructor
  · intro encoded
    obtain ⟨⟨m, fields⟩, _, _, hresolve, hword, rfl⟩ := Outcome.bind_eq_ok_iff.1 encoded
    have ordinary : m ≠ .la := by
      rintro rfl
      exact h (resolve_eq_ok_iff.1 hresolve).1
    cases hword
    exact ⟨m, fields, ordinary, by rw [List.append_nil]; exact hresolve, rfl⟩
  · rintro ⟨m, fields, -, hresolve, rfl⟩
    rw [hresolve, Outcome.bind_eq_ok_iff]
    exact ⟨(m, fields), notes, [], rfl, rfl, (List.append_nil _).symm⟩

/-- The fields of an instruction other than `la` are set to the numbers of its operands. -/
theorem reads_of_encode {symbols : SymbolTable} {half : Option Half} {text : Text}
    {notes : List Truncation} {word : Word}
    (h : Mnemonic.named? (Instruction.ofText text).mnemonic ≠ some .la)
    (encoded : encode symbols half text = ⟨notes, .ok word⟩) :
    ∃ m settings, m ≠ .la ∧ (Instruction.ofText text).Reads symbols m settings ∧
      notes = settings.filterMap (Setting.overflow? m.format.immediateBits) ∧
      word = ((Fields.ofFormat m.format).putAll m.format.immediateBits settings).pack
        m.format.immediateBits := by
  obtain ⟨m, fields, ordinary, hresolve, rfl⟩ := (encode_eq_ok_iff h).1 encoded
  obtain ⟨settings, reads, hput⟩ := (resolve_eq_ok_iff_reads ordinary).1 hresolve
  cases hput
  exact ⟨m, settings, ordinary, reads, rfl, rfl⟩

/-! ## What a word shows -/

/-- The parts whose numbers a mnemonic can fix. -/
def Part.fixable : List Part := [.opcode, .rs, .rt, .funct]

/-- The numbers of the operands stand in their parts, those that the mnemonic fixes in the parts
that no operand takes, and no other bit is set. -/
structure Word.Shows (m : Mnemonic) (settings : List Setting) (word : Word) : Prop where
  operand : ∀ s ∈ settings, s.part.Holds m.format.immediateBits word s.value
  fixed : ∀ part ∈ Part.fixable, part.LiveIn m.format.immediateBits →
    part ∉ settings.map Setting.part →
    part.Holds m.format.immediateBits word ((Fields.ofFormat m.format).get part)
  clear : ∀ i, (∀ s ∈ settings, ¬s.part.Covers m.format.immediateBits i) →
    (∀ part ∈ Part.fixable, part.LiveIn m.format.immediateBits →
      ¬part.Covers m.format.immediateBits i) →
    word.getLsbD i = false

/-- The one number that is not of a register is warned about exactly if it fits its part neither
with a sign nor without one. -/
structure Warned (bits : Nat) (settings : List Setting) (notes : List Truncation) : Prop where
  number : ∀ s ∈ settings, s.IsNumeric →
    notes = if -(2 ^ (s.part.width bits - 1)) ≤ s.value ∧ s.value < 2 ^ s.part.width bits then []
      else [⟨s.token, s.part.width bits⟩]
  registers : (∀ s ∈ settings, ¬s.IsNumeric) → notes = []

theorem Fields.ofFormat_get_of_not_mem_fixable (f : Format) {part : Part}
    (h : part ∉ Part.fixable) : (Fields.ofFormat f).get part = 0 := by
  cases part <;> first | rfl | exact absurd (by decide) h

/-- No instruction has both a shift amount and an immediate. -/
theorem Setting.IsNumeric.part_eq {bits : Nat} {s t : Setting} (hs : s.IsNumeric)
    (ht : t.IsNumeric) (live : s.part.LiveIn bits) (live' : t.part.LiveIn bits) :
    s.part = t.part := by
  rcases hs with hs | hs <;> rcases ht with ht | ht <;> rw [hs] at live <;>
    rw [ht] at live' <;> rw [hs, ht] <;> simp only [Part.LiveIn] at live live' <;> omega

theorem Setting.overflow?_toList (bits : Nat) (s : Setting) :
    (s.overflow? bits).toList =
      if -(2 ^ (s.part.width bits - 1)) ≤ s.value ∧ s.value < 2 ^ s.part.width bits then []
      else [⟨s.token, s.part.width bits⟩] := by
  have cast (n : Nat) : (Bits.count n : Int) = 2 ^ n := Int.natCast_pow 2 n
  simp only [Setting.overflow?, Bits.fits, cast, Bool.and_eq_true, decide_eq_true_eq]
  split <;> rfl

namespace Instruction.Reads

variable {symbols : SymbolTable} {i : Instruction} {m : Mnemonic} {settings : List Setting}

theorem shows (reads : i.Reads symbols m settings) (ordinary : m ≠ .la) :
    Word.Shows m settings (((Fields.ofFormat m.format).putAll m.format.immediateBits settings).pack
      m.format.immediateBits) := by
  have separate := reads.separate ordinary
  have narrow := (m.format_sound ordinary).narrow
  constructor
  · intro s hs
    have holds := separate.holds narrow (reads.live ordinary s hs)
    rw [Fields.get_putAll_of_mem (reads.distinct ordinary) hs, Part.Holds,
      Fields.ofInt_low] at holds
    exact holds
  · intro part _ live free
    rw [← Fields.get_putAll_of_not_mem free]
    exact separate.holds narrow live
  · intro bit taken fixed
    apply separate.getLsbD_pack_eq_false
    intro part live covers
    have free : part ∉ settings.map Setting.part := by
      intro h
      obtain ⟨s, hs, rfl⟩ := List.mem_map.1 h
      exact taken s hs covers
    rw [Fields.get_putAll_of_not_mem free]
    exact Fields.ofFormat_get_of_not_mem_fixable _ fun known => fixed part known live covers

theorem warned (reads : i.Reads symbols m settings) (ordinary : m ≠ .la) :
    Warned m.format.immediateBits settings
      (settings.filterMap (Setting.overflow? m.format.immediateBits)) := by
  obtain ⟨layout, -, hread⟩ := reads.read
  have quiet {t : Setting} (ht : t ∈ settings) (h : ¬t.IsNumeric) :
      t.overflow? m.format.immediateBits = none :=
    (Slot.overflow?_readAll hread _ ht).resolve_left h
  constructor
  · intro s hs numeric
    obtain ⟨before, after, rfl⟩ := List.append_of_mem hs
    -- parts are distinct and only one of them is numeric, so no other setting is warned about
    have distinct := reads.distinct ordinary
    rw [List.map_append, List.map_cons, List.nodup_append, List.nodup_cons] at distinct
    have others : ∀ t ∈ before ++ after, t.overflow? m.format.immediateBits = none := by
      intro t ht
      have member : t ∈ before ++ s :: after := by
        rcases List.mem_append.1 ht with h | h
        · exact List.mem_append_left _ h
        · exact List.mem_append_right _ (List.mem_cons_of_mem s h)
      apply quiet member
      intro numeric'
      have same : t.part = s.part := numeric'.part_eq numeric (reads.live ordinary t member)
        (reads.live ordinary s hs)
      rcases List.mem_append.1 ht with h | h
      · exact distinct.2.2 t.part (List.mem_map_of_mem h) s.part (List.mem_cons_self ..) same
      · exact distinct.2.1.1 (same ▸ List.mem_map_of_mem h)
    have hbefore := List.filterMap_eq_nil_iff.2 fun t ht => others t (List.mem_append_left _ ht)
    have hafter := List.filterMap_eq_nil_iff.2 fun t ht => others t (List.mem_append_right _ ht)
    rw [← Setting.overflow?_toList, List.filterMap_append, hbefore, List.nil_append,
      List.filterMap_cons, hafter]
    cases s.overflow? m.format.immediateBits <;> rfl
  · intro h
    exact List.filterMap_eq_nil_iff.2 fun t ht => quiet ht (h t ht)

end Instruction.Reads

/-! ## The two words of `la` -/

theorem Fields.loadHalf_separate (half : Half) (f : Fields) (nonneg : 0 ≤ f.rd)
    (below : f.rd < 32) : (f.loadHalf half).Separate 16 := by
  cases half with
  | upper =>
    have word := Bits.low_lt 32 f.imm
    have high : Bits.high 16 (Bits.low 32 f.imm) < Bits.count 16 := by
      simp only [Bits.high, Bits.count, Nat.pow_eq] at word ⊢
      omega
    have fixed := (Mnemonic.format_sound .lui (by decide)).fixed
    have scratch := Fields.set_separate fixed .rt (by decide)
      (Int.natCast_nonneg Register.scratch.val) (by decide)
    exact Fields.set_separate scratch .imm (by decide) (Int.natCast_nonneg _)
      (Int.ofNat_lt.2 high)
  | lower =>
    have fixed := (Mnemonic.format_sound .ori (by decide)).fixed
    have scratch := Fields.set_separate fixed .rs (by decide)
      (Int.natCast_nonneg Register.scratch.val) (by decide)
    have destination := Fields.set_separate scratch .rt (by decide) nonneg below
    exact Fields.set_separate destination .imm (by decide) (Int.natCast_nonneg _)
      (Int.ofNat_lt.2 (Bits.low_lt 16 _))

/-- `la` takes a register and a target, whose address is taken whole. -/
theorem resolve_la {symbols : SymbolTable} {i : Instruction} {fields : Fields}
    {notes : List Truncation} (h : resolve symbols i = ⟨notes, .ok (.la, fields)⟩) :
    ∃ destination target r address, i.operands = [destination, target] ∧
      Register.parse destination = .ok r ∧ symbols.resolveTarget target = .ok address ∧
      notes = [] ∧
      fields = { Fields.ofFormat Mnemonic.la.format with rd := r.val, imm := address } := by
  obtain ⟨-, layout, hlayout, hplace⟩ := resolve_eq_ok_iff.1 h
  obtain ⟨known, hlength⟩ := Format.layoutFor?_eq_some hlayout
  obtain rfl : layout = [.rd, .target] := List.mem_singleton.1 known
  obtain ⟨destination, target, hoperands⟩ := List.length_eq_two.1 hlength.symm
  rw [hoperands] at hplace
  obtain ⟨_, _, _, hregister, hrest, rfl⟩ := Outcome.bind_eq_ok_iff.1 hplace
  obtain ⟨r, _, _, hparse, hset, rfl⟩ := Outcome.bind_eq_ok_iff.1 hregister
  cases hset
  obtain ⟨_, _, _, htarget, hdone, rfl⟩ := Outcome.bind_eq_ok_iff.1 hrest
  obtain ⟨address, _, _, hresolve, hset, rfl⟩ := Outcome.bind_eq_ok_iff.1 htarget
  cases hset
  cases hdone
  obtain ⟨parsed, rfl⟩ := Outcome.ofExcept_eq_ok_iff.1 hparse
  obtain ⟨resolved, rfl⟩ := Outcome.ofExcept_eq_ok_iff.1 hresolve
  exact ⟨destination, target, r, address, hoperands, parsed, resolved, rfl, rfl⟩

theorem encode_la {symbols : SymbolTable} {half : Option Half} {text : Text}
    {notes : List Truncation} {word : Word}
    (named : Mnemonic.named? (Instruction.ofText text).mnemonic = some .la)
    (encoded : encode symbols half text = ⟨notes, .ok word⟩) :
    ∃ known fields, half = some known ∧
      resolve symbols (Instruction.ofText text) = ⟨notes, .ok (.la, fields)⟩ ∧
      word = (fields.loadHalf known).pack 16 := by
  cases half with
  | none =>
    simp only [encode, named] at encoded
    cases encoded
  | some known =>
    simp only [encode, named] at encoded
    obtain ⟨⟨m, fields⟩, _, _, hresolve, hword, rfl⟩ := Outcome.bind_eq_ok_iff.1 encoded
    have same := (resolve_eq_ok_iff.1 hresolve).1
    rw [named] at same
    cases same
    cases hword
    exact ⟨known, fields, rfl, by rw [List.append_nil]; exact hresolve, rfl⟩

theorem Bits.natCast_low (bits : Nat) (value : Int) :
    (Bits.low bits value : Int) = value % 2 ^ bits := by
  have cast : (Bits.count bits : Int) = 2 ^ bits := Int.natCast_pow 2 bits
  have nonneg : 0 ≤ value % Bits.count bits :=
    Int.emod_nonneg value (Int.natCast_ne_zero.2 (Nat.ne_of_gt (Bits.count_pos bits)))
  rw [Bits.low, Int.toNat_of_nonneg nonneg, cast]

theorem Bits.natCast_upper (value : Int) :
    ((Bits.high 16 (Bits.low 32 value) : Nat) : Int) = value % 2 ^ 32 / 2 ^ 16 := by
  rw [← natCast_low 32 value]
  rfl

theorem Bits.natCast_lower (value : Int) :
    ((Bits.low 16 (Bits.low 32 value) : Nat) : Int) = value % 2 ^ 16 := by
  rw [natCast_low, natCast_low, Int.emod_emod_of_dvd _ (by decide)]

/-- The word of `la` that loads this half of an address into a register: the upper half goes to the
scratch register, and the lower half is combined with it. -/
def Word.Loads (half : Half) (r : Register) (address : Int) (word : Word) : Prop :=
  match half with
  | .upper =>
    Part.opcode.Holds 16 word Mnemonic.lui.format.opcode ∧ Part.rs.Holds 16 word 0 ∧
      Part.rt.Holds 16 word Register.scratch.val ∧
      Part.imm.Holds 16 word (address % 2 ^ 32 / 2 ^ 16)
  | .lower =>
    Part.opcode.Holds 16 word Mnemonic.ori.format.opcode ∧
      Part.rs.Holds 16 word Register.scratch.val ∧ Part.rt.Holds 16 word r.val ∧
      Part.imm.Holds 16 word (address % 2 ^ 16)

theorem Fields.loadHalf_loads (r : Register) (address : Int) (half : Half) :
    Word.Loads half r address ((({ Fields.ofFormat Mnemonic.la.format with
      rd := r.val, imm := address } : Fields).loadHalf half).pack 16) := by
  have below : (r.val : Int) < 32 := Int.ofNat_lt.2 r.isLt
  have separate := Fields.loadHalf_separate half
    { Fields.ofFormat Mnemonic.la.format with rd := r.val, imm := address }
    (Int.natCast_nonneg r.val) below
  have holds (part : Part) (live : part.LiveIn 16) := separate.holds (by decide) live
  cases half with
  | upper =>
    exact ⟨holds .opcode (by decide), holds .rs (by decide), holds .rt (by decide),
      Bits.natCast_upper address ▸ holds .imm (by decide)⟩
  | lower =>
    exact ⟨holds .opcode (by decide), holds .rs (by decide), holds .rt (by decide),
      Bits.natCast_lower address ▸ holds .imm (by decide)⟩

/-- What was written stands in the word, for every instruction and both words of `la`. -/
theorem encode_shows (symbols : SymbolTable) (half : Option Half) (text : Text)
    (notes : List Truncation) (word : Word)
    (encoded : encode symbols half text = ⟨notes, .ok word⟩) :
    word.toNat < 2 ^ 32 ∧
    ((∃ m settings, m ≠ .la ∧ (Instruction.ofText text).Reads symbols m settings ∧
        Word.Shows m settings word ∧ Warned m.format.immediateBits settings notes) ∨
      ∃ destination target r address known,
        Instruction.ofText text = ⟨Mnemonic.la.name.toText, [destination, target]⟩ ∧
        Register.parse destination = .ok r ∧ symbols.resolveTarget target = .ok address ∧
        half = some known ∧ Word.Loads known r address word ∧ notes = []) := by
  refine ⟨word.isLt, ?_⟩
  by_cases named : Mnemonic.named? (Instruction.ofText text).mnemonic = some .la
  · right
    obtain ⟨known, fields, rfl, resolved, rfl⟩ := encode_la named encoded
    obtain ⟨destination, target, r, address, hoperands, parsed, haddress, rfl, rfl⟩ :=
      resolve_la resolved
    refine ⟨destination, target, r, address, known, ?_, parsed, haddress, rfl, ?_, rfl⟩
    · rw [Mnemonic.toList_name named, ← hoperands]
    · exact Fields.loadHalf_loads r address known
  · left
    obtain ⟨m, settings, ordinary, reads, rfl, rfl⟩ := reads_of_encode named encoded
    exact ⟨m, settings, ordinary, reads, reads.shows ordinary, reads.warned ordinary⟩

/-- An immediate that does not fit is cut to its part, and only it is warned about. -/
theorem encode_shows_wide_immediate :
    let text := "addi $t0, $0, 70000".toText
    let notes : List Truncation := [⟨"70000".toText, 16⟩]
    encode [] none text = ⟨notes, .ok 0x20081170⟩ ∧
      ∃ settings, (Instruction.ofText text).Reads [] .addi settings ∧
        Word.Shows .addi settings 0x20081170 ∧ Warned 16 settings notes := by
  intro text notes
  have encoded : encode [] none text = ⟨notes, .ok 0x20081170⟩ := by rfl
  refine ⟨encoded, ?_⟩
  obtain ⟨m, settings, -, reads, shown, warned⟩ | ⟨_, _, _, _, _, h, -⟩ :=
    (encode_shows [] none text notes 0x20081170 encoded).2
  · have named : Mnemonic.named? (Instruction.ofText text).mnemonic = some .addi := by rfl
    obtain rfl : m = .addi := Option.some.inj (reads.named.symm.trans named)
    exact ⟨settings, reads, shown, warned⟩
  · have mnemonic : (Instruction.ofText text).mnemonic = Mnemonic.addi.name.toText := by rfl
    rw [h] at mnemonic
    have distinct : Mnemonic.la.name.toText ≠ Mnemonic.addi.name.toText := by decide
    exact absurd mnemonic distinct

end MipsImage
