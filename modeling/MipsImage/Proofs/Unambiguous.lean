import MipsImage.Proofs.EncodedFields

/-!
# Unambiguous words

A word tells which instruction it is for, with one exception. The offset of `bltz` is five bits
wider than that of the other branches on one register and lies over their selector, so an offset
can turn `bltz` into any of them.
-/
set_option autoImplicit false

namespace MipsImage

/-! ## Fields of a mnemonic -/

/-- No operand sets the part. -/
def Format.Fixes (f : Format) (part : Part) : Prop :=
  ∀ layout ∈ f.layouts, part ∉ layout.flatMap Slot.parts

instance (f : Format) (part : Part) : Decidable (f.Fixes part) :=
  inferInstanceAs (Decidable (∀ layout ∈ f.layouts, part ∉ layout.flatMap Slot.parts))

theorem Mnemonic.fixes_opcode (m : Mnemonic) : m.format.Fixes .opcode := by
  cases m <;> decide

/-- The fields that an instruction of the mnemonic can have. -/
structure Fields.Of (m : Mnemonic) (f : Fields) : Prop where
  ordinary : m ≠ .la
  separate : f.Separate m.format.immediateBits
  fixed : ∀ part, m.format.Fixes part → f.get part = (Fields.ofFormat m.format).get part

theorem Fields.of_resolve {symbols : SymbolTable} {i : Instruction} {m : Mnemonic} {f : Fields}
    {notes : List Truncation} (ordinary : m ≠ .la)
    (h : resolve symbols i = ⟨notes, .ok (m, f)⟩) : f.Of m := by
  obtain ⟨settings, reads, hput⟩ := (resolve_eq_ok_iff_reads ordinary).1 h
  cases hput
  refine ⟨ordinary, reads.separate ordinary, ?_⟩
  intro part fixes
  obtain ⟨layout, known, hparts⟩ := reads.parts_of_layout
  apply Fields.get_putAll_of_not_mem
  rw [hparts]
  exact fixes layout known

/-! ## One width -/

/-- Mnemonics with immediates of one width differ in a number that both of them fix. -/
theorem Mnemonic.eq_of_fixed {m n : Mnemonic} (ordinary : m ≠ .la) (ordinary' : n ≠ .la)
    (width : m.format.immediateBits = n.format.immediateBits)
    (same : ∀ part, m.format.Fixes part → n.format.Fixes part →
      (Fields.ofFormat m.format).get part = (Fields.ofFormat n.format).get part) : m = n := by
  have table : ∀ m ∈ all, ∀ n ∈ all, m ≠ .la → n ≠ .la →
      m.format.immediateBits = n.format.immediateBits →
      (∀ part, m.format.Fixes part → n.format.Fixes part →
        (Fields.ofFormat m.format).get part = (Fields.ofFormat n.format).get part) →
      m = n := by decide +kernel
  exact table m m.mem_all n n.mem_all ordinary ordinary' width same

/-- Words whose immediates have one width are packed from the same fields only. -/
theorem Fields.Separate.eq_of_pack_eq {bits : Nat} {f g : Fields} (narrow : bits ≤ 26)
    (hf : f.Separate bits) (hg : g.Separate bits) (h : f.pack bits = g.pack bits) : f = g := by
  apply Fields.ext_get
  intro part
  by_cases live : part.LiveIn bits
  · rw [hf.get_eq narrow part live, hg.get_eq narrow part live, h]
  · rw [hf.unused part live, hg.unused part live]

theorem Fields.Of.pack_eq_iff_of_width {m n : Mnemonic} {f g : Fields} (hf : f.Of m) (hg : g.Of n)
    (width : m.format.immediateBits = n.format.immediateBits) :
    f.pack m.format.immediateBits = g.pack n.format.immediateBits ↔ m = n ∧ f = g := by
  constructor
  · intro h
    have separate := hg.separate
    rw [← width] at h separate
    obtain rfl : f = g :=
      hf.separate.eq_of_pack_eq (m.format_sound hf.ordinary).narrow separate h
    refine ⟨Mnemonic.eq_of_fixed hf.ordinary hg.ordinary width ?_, rfl⟩
    intro part fixes fixes'
    rw [← hf.fixed part fixes, hg.fixed part fixes']
  · rintro ⟨rfl, rfl⟩
    rfl

/-! ## Two widths -/

/-- A word with a 21-bit offset and one with a 16-bit offset are the same exactly if the selector of
the latter stands in the upper bits of the former's offset. -/
theorem Fields.Separate.pack_eq_iff_of_offsets {f g : Fields} (wide : f.Separate 21)
    (short : g.Separate 16) :
    f.pack 21 = g.pack 16 ↔
      f.opcode = g.opcode ∧ f.rs = g.rs ∧ f.imm / 2 ^ 16 = g.rt ∧ f.imm % 2 ^ 16 = g.imm := by
  have wideOpcode := wide.get_eq (by decide) .opcode (by decide)
  have wideRs := wide.get_eq (by decide) .rs (by decide)
  have wideImm := wide.get_eq (by decide) .imm (by decide)
  have shortOpcode := short.get_eq (by decide) .opcode (by decide)
  have shortRs := short.get_eq (by decide) .rs (by decide)
  have shortRt := short.get_eq (by decide) .rt (by decide)
  have shortImm := short.get_eq (by decide) .imm (by decide)
  simp only [Fields.get, Part.position, Part.width] at *
  have bound := (f.pack 21).isLt
  have bound' := (g.pack 16).isLt
  rw [← BitVec.toNat_inj]
  omega

/-- The branches that an offset of `bltz` can turn it into, with their selectors. -/
def Mnemonic.hidden : List (Mnemonic × Int) := [(.bgez, 1), (.bltzal, 16), (.bgezal, 17)]

/-- The first instruction is a `bltz` whose offset holds the selector of the second, a branch on the
same register by the rest of the offset. -/
structure Hides (m : Mnemonic) (f : Fields) (n : Mnemonic) (g : Fields) : Prop where
  wide : m = .bltz
  selected : (n, f.imm / 2 ^ 16) ∈ Mnemonic.hidden
  fields : g = { Fields.ofFormat n.format with rs := f.rs, imm := f.imm % 2 ^ 16 }

theorem Mnemonic.mem_hidden_iff {n : Mnemonic} {selector : Int} :
    (n, selector) ∈ hidden ↔ n ∈ hidden.map Prod.fst ∧ selector = n.format.rt := by
  cases n <;> simp [hidden, format, Format.of]

/-- The only mnemonics that share an opcode, but not the width of the immediate. -/
theorem Mnemonic.hidden_of_opcode {m n : Mnemonic} (ordinary : m ≠ .la) (ordinary' : n ≠ .la)
    (opcode : m.format.opcode = n.format.opcode)
    (width : m.format.immediateBits ≠ n.format.immediateBits) :
    m = .bltz ∧ n ∈ hidden.map Prod.fst ∨ n = .bltz ∧ m ∈ hidden.map Prod.fst := by
  have table : ∀ m ∈ all, ∀ n ∈ all, m ≠ .la → n ≠ .la → m.format.opcode = n.format.opcode →
      m.format.immediateBits ≠ n.format.immediateBits →
      m = .bltz ∧ n ∈ hidden.map Prod.fst ∨ n = .bltz ∧ m ∈ hidden.map Prod.fst := by
    decide +kernel
  exact table m m.mem_all n n.mem_all ordinary ordinary' opcode width

theorem Mnemonic.format_of_hidden {n : Mnemonic} (h : n ∈ hidden.map Prod.fst) :
    n.format.immediateBits = 16 ∧ n.format.opcode = Mnemonic.bltz.format.opcode ∧
      ∀ part, part ≠ .rs → part ≠ .imm → n.format.Fixes part := by
  have table : ∀ n ∈ hidden.map Prod.fst, n.format.immediateBits = 16 ∧
      n.format.opcode = Mnemonic.bltz.format.opcode ∧
      ∀ part, part ≠ .rs → part ≠ .imm → n.format.Fixes part := by decide
  exact table n h

theorem Fields.Of.pack_eq_iff_of_hidden {n : Mnemonic} {f g : Fields} (hf : f.Of .bltz)
    (hg : g.Of n) (hn : n ∈ Mnemonic.hidden.map Prod.fst) :
    f.pack Mnemonic.bltz.format.immediateBits = g.pack n.format.immediateBits ↔
      Hides .bltz f n g := by
  obtain ⟨width, opcode, fixes⟩ := Mnemonic.format_of_hidden hn
  have short := hg.separate
  rw [width] at short ⊢
  refine (hf.separate.pack_eq_iff_of_offsets short).trans ?_
  have hopcode : f.opcode = g.opcode :=
    calc
      f.opcode = Mnemonic.bltz.format.opcode := hf.fixed .opcode (by decide)
      _ = n.format.opcode := by rw [opcode]
      _ = g.opcode := (hg.fixed .opcode (fixes .opcode (by decide) (by decide))).symm
  have hrt : g.rt = n.format.rt := hg.fixed .rt (fixes .rt (by decide) (by decide))
  constructor
  · rintro ⟨-, hrs, hselector, himm⟩
    refine ⟨rfl, Mnemonic.mem_hidden_iff.2 ⟨hn, hselector.trans hrt⟩, ?_⟩
    apply Fields.ext_get
    intro part
    cases part with
    | rs => exact hrs.symm
    | imm => exact himm.symm
    | opcode | rt | rd | shamt | funct =>
      exact hg.fixed _ (fixes _ (by decide) (by decide))
  · rintro ⟨-, selected, rfl⟩
    exact ⟨hopcode, rfl, (Mnemonic.mem_hidden_iff.1 selected).2, rfl⟩

theorem Hides.mem_hidden {m n : Mnemonic} {f g : Fields} (hides : Hides m f n g) :
    n ∈ Mnemonic.hidden.map Prod.fst := List.mem_map_of_mem hides.selected

theorem Hides.width_ne {m n : Mnemonic} {f g : Fields} (hides : Hides m f n g) :
    m.format.immediateBits ≠ n.format.immediateBits := by
  rw [hides.wide, (Mnemonic.format_of_hidden hides.mem_hidden).1]
  decide

/-! ## All instructions -/

/-- Words are the same for the same fields of the same mnemonic, and where one hides the other. -/
theorem Fields.Of.pack_eq_iff {m n : Mnemonic} {f g : Fields} (hf : f.Of m) (hg : g.Of n) :
    f.pack m.format.immediateBits = g.pack n.format.immediateBits ↔
      m = n ∧ f = g ∨ Hides m f n g ∨ Hides n g m f := by
  by_cases width : m.format.immediateBits = n.format.immediateBits
  · rw [hf.pack_eq_iff_of_width hg width]
    constructor
    · exact .inl
    · rintro (same | hides | hides)
      · exact same
      · exact absurd width hides.width_ne
      · exact absurd width.symm hides.width_ne
  · constructor
    · intro h
      have opcode : m.format.opcode = n.format.opcode := by
        have left := hf.separate.get_eq (m.format_sound hf.ordinary).narrow .opcode trivial
        have right := hg.separate.get_eq (n.format_sound hg.ordinary).narrow .opcode trivial
        rw [hf.fixed .opcode (m.fixes_opcode), h] at left
        rw [hg.fixed .opcode (n.fixes_opcode)] at right
        exact Int.ofNat_inj.1 (left.trans right.symm)
      rcases Mnemonic.hidden_of_opcode hf.ordinary hg.ordinary opcode width with
        ⟨rfl, hidden⟩ | ⟨rfl, hidden⟩
      · exact .inr (.inl ((hf.pack_eq_iff_of_hidden hg hidden).1 h))
      · exact .inr (.inr ((hg.pack_eq_iff_of_hidden hf hidden).1 h.symm))
    · rintro (⟨rfl, -⟩ | hides | hides)
      · exact absurd rfl width
      · obtain rfl := hides.wide
        exact (hf.pack_eq_iff_of_hidden hg hides.mem_hidden).2 hides
      · obtain rfl := hides.wide
        exact ((hg.pack_eq_iff_of_hidden hf hides.mem_hidden).2 hides).symm

/-! ## The hidden branch written out -/

/-- A branch on a register to the label `x`. -/
def branchText (m : Mnemonic) (r : Register) : Text :=
  m.name.toText ++ .char ' ' :: (Register.numberNames.getD r.val "").toText ++
    [.char ',', .char 'x']

theorem ofText_branchText {m : Mnemonic} (h : m ∈ Mnemonic.hidden.map Prod.fst) (r : Register) :
    ∃ token, Instruction.ofText (branchText m r) = ⟨m.name.toText, [token, ['x']]⟩ ∧
      Mnemonic.named? m.name.toText = some m ∧
      m.format.layoutFor? [token, ['x']] = some [.rs, .target] ∧
      Register.parse token = .ok r := by
  have table : ∀ m ∈ Mnemonic.hidden.map Prod.fst, ∀ r : Register,
      let token := (Register.numberNames.getD r.val "").toText
      Instruction.ofText (branchText m r) = ⟨m.name.toText, [token, ['x']]⟩ ∧
        Mnemonic.named? m.name.toText = some m ∧
        m.format.layoutFor? [token, ['x']] = some [.rs, .target] ∧
        Register.ofToken? token = some r := by decide +kernel
  obtain ⟨read, named, layout, parsed⟩ := table m h r
  exact ⟨_, read, named, layout, Register.parse_eq_ok_iff.2 parsed⟩

/-- Every register and every offset of 16 bits are those of some branch. -/
theorem resolve_branchText {m : Mnemonic} (h : m ∈ Mnemonic.hidden.map Prod.fst) (r : Register)
    {offset : Int} (nonneg : 0 ≤ offset) (below : offset < Bits.count 16) :
    resolve [(['x'], offset)] (Instruction.ofText (branchText m r)) =
      ⟨[], .ok (m, { Fields.ofFormat m.format with rs := r.val, imm := offset })⟩ := by
  obtain ⟨token, read, named, layout, parsed⟩ := ofText_branchText h r
  obtain ⟨width, -, -⟩ := Mnemonic.format_of_hidden h
  have found : SymbolTable.resolveTarget [(['x'], offset)] ['x'] = .ok offset := by rfl
  have ordinary : m ≠ .la := by
    rintro rfl
    exact absurd h (by decide)
  have whole : fit offset 16 ['x'] = Outcome.ok offset := by
    rw [fit_eq, Bits.fits_of_lt nonneg below, Bits.low_eq_self nonneg below]
    rfl
  rw [read, resolve_eq_ok_iff_reads ordinary]
  refine ⟨[⟨.rs, r.val, token⟩, ⟨.imm, offset, ['x']⟩], ⟨named, _, layout, ?_⟩, ?_⟩
  · simp only [List.zip_cons_cons, List.zip_nil_right, Slot.readAll, Slot.read, parsed, found]
    rfl
  · refine (putNoting_append _ _ [⟨.rs, r.val, token⟩] [⟨.imm, offset, ['x']⟩]).trans ?_
    rw [putNoting_register _ _ _ .rs rfl, Outcome.ok_bind, putNoting_number, Part.width, width,
      whole]
    rfl

/-- A `bltz` whose offset holds a selector has the word of the instruction that it hides. -/
theorem Fields.Of.exists_hidden {f : Fields} (hf : f.Of .bltz) {m : Mnemonic}
    (selected : (m, f.imm / 2 ^ 16) ∈ Mnemonic.hidden) :
    ∃ symbols text g, Hides .bltz f m g ∧
      resolve symbols (Instruction.ofText text) = ⟨[], .ok (m, g)⟩ ∧
      encode symbols none text = ⟨[], .ok (f.pack Mnemonic.bltz.format.immediateBits)⟩ := by
  have hidden : m ∈ Mnemonic.hidden.map Prod.fst := List.mem_map_of_mem selected
  obtain ⟨rs, hrs⟩ := Int.eq_ofNat_of_zero_le (hf.separate.nonneg .rs)
  have small : rs < 32 := Int.ofNat_lt.1 (hrs ▸ hf.separate.below .rs)
  have resolved := resolve_branchText hidden ⟨rs, small⟩
    (Int.emod_nonneg f.imm (by decide)) (Int.emod_lt_of_pos f.imm (by decide))
  have ordinary : m ≠ .la := by
    rintro rfl
    exact absurd hidden (by decide)
  have hides : Hides .bltz f m { Fields.ofFormat m.format with rs := rs, imm := f.imm % 2 ^ 16 } :=
    ⟨rfl, selected, by rw [← show f.rs = rs from hrs]⟩
  have named : Mnemonic.named? (Instruction.ofText (branchText m ⟨rs, small⟩)).mnemonic ≠
      some .la := by
    rw [(resolve_eq_ok_iff.1 resolved).1]
    exact fun same => ordinary (Option.some.inj same)
  refine ⟨_, _, _, hides, resolved, (encode_eq_ok_iff named).2 ⟨m, _, ordinary, resolved, ?_⟩⟩
  exact (hf.pack_eq_iff (Fields.of_resolve ordinary resolved)).2 (.inr (.inl hides))

/-- Two instructions other than `la` have the same word exactly if their mnemonics and fields are
the same or one of them is a `bltz` that hides the other. Each selector that a `bltz` can hold is
that of an instruction which it hides. -/
theorem encode_unambiguous (symbols₁ symbols₂ : SymbolTable) (half₁ half₂ : Option Half)
    (text₁ text₂ : Text) (notes₁ notes₂ : List Truncation) (word₁ word₂ : Word)
    (ordinary₁ : Mnemonic.named? (Instruction.ofText text₁).mnemonic ≠ some .la)
    (ordinary₂ : Mnemonic.named? (Instruction.ofText text₂).mnemonic ≠ some .la)
    (encoded₁ : encode symbols₁ half₁ text₁ = ⟨notes₁, .ok word₁⟩)
    (encoded₂ : encode symbols₂ half₂ text₂ = ⟨notes₂, .ok word₂⟩) :
    ∃ m f n g,
      resolve symbols₁ (Instruction.ofText text₁) = ⟨notes₁, .ok (m, f)⟩ ∧
      resolve symbols₂ (Instruction.ofText text₂) = ⟨notes₂, .ok (n, g)⟩ ∧
      (word₁ = word₂ ↔ m = n ∧ f = g ∨ Hides m f n g ∨ Hides n g m f) ∧
      (m = .bltz → ∀ k, (k, f.imm / 2 ^ 16) ∈ Mnemonic.hidden →
        ∃ symbols text h, Hides m f k h ∧
          resolve symbols (Instruction.ofText text) = ⟨[], .ok (k, h)⟩ ∧
          encode symbols none text = ⟨[], .ok word₁⟩) := by
  obtain ⟨m, f, hm, resolved₁, rfl⟩ := (encode_eq_ok_iff ordinary₁).1 encoded₁
  obtain ⟨n, g, hn, resolved₂, rfl⟩ := (encode_eq_ok_iff ordinary₂).1 encoded₂
  have hf := Fields.of_resolve hm resolved₁
  have hg := Fields.of_resolve hn resolved₂
  refine ⟨m, f, n, g, resolved₁, resolved₂, hf.pack_eq_iff hg, ?_⟩
  rintro rfl k selected
  exact hf.exists_hidden selected

/-- The bits 16 to 20 of the offset of this `bltz` are those of `bgez`. -/
theorem encode_unambiguous_bltz_bgez :
    let wide := "bltz $t0, 65540".toText
    let short := "bgez $8, 4".toText
    Mnemonic.named? (Instruction.ofText wide).mnemonic ≠ some .la ∧
    Mnemonic.named? (Instruction.ofText short).mnemonic ≠ some .la ∧
    encode [] none wide = ⟨[], .ok 0x05010004⟩ ∧ encode [] none short = ⟨[], .ok 0x05010004⟩ ∧
      ∃ f g, resolve [] (Instruction.ofText wide) = ⟨[], .ok (.bltz, f)⟩ ∧
        resolve [] (Instruction.ofText short) = ⟨[], .ok (.bgez, g)⟩ ∧ Hides .bltz f .bgez g := by
  intro wide short
  have named : Mnemonic.named? (Instruction.ofText wide).mnemonic = some .bltz := by rfl
  have named' : Mnemonic.named? (Instruction.ofText short).mnemonic = some .bgez := by rfl
  have ordinary : Mnemonic.named? (Instruction.ofText wide).mnemonic ≠ some .la := by simp [named]
  have ordinary' : Mnemonic.named? (Instruction.ofText short).mnemonic ≠ some .la := by
    simp [named']
  have encoded : encode [] none wide = ⟨[], .ok 0x05010004⟩ := by rfl
  have encoded' : encode [] none short = ⟨[], .ok 0x05010004⟩ := by rfl
  refine ⟨ordinary, ordinary', encoded, encoded', ?_⟩
  obtain ⟨m, f, n, g, resolved, resolved', same, -⟩ :=
    encode_unambiguous [] [] none none wide short _ _ _ _ ordinary ordinary' encoded encoded'
  obtain rfl : m = .bltz :=
    Option.some.inj ((resolve_eq_ok_iff.1 resolved).1.symm.trans named)
  obtain rfl : n = .bgez :=
    Option.some.inj ((resolve_eq_ok_iff.1 resolved').1.symm.trans named')
  rcases same.1 rfl with ⟨h, -⟩ | hides | hides
  · cases h
  · exact ⟨f, g, resolved, resolved', hides⟩
  · cases hides.wide

end MipsImage
