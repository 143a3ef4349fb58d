import MipsImage.Proofs.Loads

/-!
# Operands of templates

The instructions for which a pseudo-instruction stands are written out when it is expanded and read
again when they are encoded. They are read as they were meant, whatever the operands are made of:
each place of a template has become one operand, the one that was given for it. So nothing can be
wrong with them but what is wrong with a given operand itself, with a register that is none or a
target that leads nowhere.
-/
set_option autoImplicit false

namespace MipsImage

/-! ## Failures of operands -/

/-- Operands are placed unless one of them cannot be read in its slot. -/
theorem placeAll_eq_error {format : Format} {symbols : SymbolTable} {fields : Fields}
    {operands : List (Slot × Text)} {notes : List Truncation} {failure : Failure Fault}
    (ordinary : format.family ≠ .loadAddress)
    (h : placeAll format symbols fields operands = ⟨notes, .error failure⟩) :
    ∃ slot token, (slot, token) ∈ operands ∧ slot.read symbols token = .error failure := by
  induction operands generalizing fields notes with
  | nil => cases h
  | cons operand rest ih =>
    obtain ⟨slot, token⟩ := operand
    rw [placeAll_cons, place_eq format symbols fields token slot ordinary, Outcome.bind_assoc] at h
    rcases Outcome.bind_eq_error_iff.1 h with unread | ⟨settings, _, _, -, later, -⟩
    · exact ⟨slot, token, List.mem_cons_self .., congrArg Outcome.result unread⟩
    · rcases Outcome.bind_eq_error_iff.1 later with unput | ⟨next, _, _, -, more, -⟩
      · cases unput
      · obtain ⟨slot', token', member, unread⟩ := ih more
        exact ⟨slot', token', List.mem_cons_of_mem _ member, unread⟩

/-- An instruction with the right number of operands is encoded unless one of them cannot be read in
its slot. -/
theorem Instruction.unread_of_encode_error {symbols : SymbolTable} {half : Option Half}
    {text : Text} {m : Mnemonic} {operands : List Text} {layout : List Slot}
    {notes : List Truncation} {failure : Failure Fault} (ordinary : m ≠ .la)
    (written : ofText text = ⟨m.name.toText, operands⟩)
    (chosen : m.format.layoutFor? operands = some layout)
    (h : encode symbols half text = ⟨notes, .error failure⟩) :
    ∃ slot token, (slot, token) ∈ layout.zip operands ∧
      slot.read symbols token = .error failure := by
  have other : Mnemonic.named? (ofText text).mnemonic ≠ some .la := by
    rw [written, m.named?_name]
    exact fun same => ordinary (Option.some.inj same)
  rw [encode_eq_of_ne_la other, written] at h
  rcases Outcome.bind_eq_error_iff.1 h with unresolved | ⟨_, _, _, -, packed, -⟩
  · simp only [resolve, m.named?_name, chosen, Outcome.bind_eq] at unresolved
    rcases Outcome.bind_eq_error_iff.1 unresolved with unplaced | ⟨_, _, _, -, paired, -⟩
    · exact placeAll_eq_error (m.format_sound ordinary).ordinary unplaced
    · cases paired
  · cases packed

theorem SymbolTable.resolveTarget_eq_error {symbols : SymbolTable} {token : Text}
    {failure : Failure Fault} (h : symbols.resolveTarget token = .error failure) :
    failure = .fault (.unknownLabel token) ∨ failure = .fault (.invalidOffset token) ∨
      ∃ n, Numeral.ofToken? token = some n ∧ n.isOverlong = true ∧
        failure = .conversion (.overlong n.digits.length) := by
  unfold resolveTarget at h
  split at h
  · rename_i integer
    obtain ⟨n, read⟩ := Option.isSome_iff_exists.1 integer
    simp only [readInteger, read, Numeral.convert] at h
    split at h
    · rename_i overlong
      cases h
      exact .inr (.inr ⟨n, read, overlong, rfl⟩)
    · cases h
  · split at h
    · cases h
    · split at h
      · cases h
        exact .inl rfl
      · cases h
        exact .inr (.inl rfl)

theorem isInteger_of_any {token : Text}
    (h : (Numeral.ofToken? token).any (!·.isOverlong) = true) :
    isInteger token = true ∧ ∃ value, readInteger token = .ok value := by
  unfold isInteger readInteger
  cases written : Numeral.ofToken? token with
  | none =>
    rw [written] at h
    cases h
  | some n =>
    rw [written, Option.any_some, Bool.not_eq_true'] at h
    refine ⟨rfl, n.value, ?_⟩
    simp only [Numeral.convert, h]
    rfl

/-! ## What stands in a template -/

/-- A token stands where a template has this operand. -/
inductive TemplateOperand.Stands (tokens : List Text) : TemplateOperand → Text → Prop
  | given {place : Nat} {token : Text} (h : tokens[place]? = some token) :
    Stands tokens (.given place) token
  | fixed {token : String} : Stands tokens (.fixed token) token.toText

namespace Pseudo

/-- The place of the operand to which a pseudo-instruction branches. -/
def target? (p : Pseudo) : Option Nat := if p.test?.isSome then some (p.arity - 1) else none

/-- An operand of a template can be read in this slot if the given operands are what they should be:
the one to which the pseudo-instruction branches a target, and all others registers. -/
def suits (p : Pseudo) : Slot → TemplateOperand → Bool
  | .target, .given place => place < p.arity && p.target? = some place
  | .rd, .given place | .rs, .given place | .rt, .given place =>
    place < p.arity && p.target? ≠ some place
  | .rd, .fixed token | .rs, .fixed token | .rt, .fixed token =>
    (Register.ofToken? token.toText).isSome
  | .target, .fixed token | .immediate, .fixed token | .shiftAmount, .fixed token =>
    (Numeral.ofToken? token.toText).any (!·.isOverlong)
  | _, _ => false

section Suits
variable {p : Pseudo} {symbols : SymbolTable} {slot : Slot} {tokens : List Text} {token : Text}
  {operand : TemplateOperand} {failure : Failure Fault}

theorem lt_of_suits {place : Nat} (h : p.suits slot (.given place) = true) : place < p.arity := by
  cases slot with
  | rd | rs | rt | target => exact of_decide_eq_true (Bool.and_eq_true_iff.1 h).1
  | shiftAmount | immediate | memory => cases h

/-- What a template fixes can always be read. -/
theorem read_fixed {token : String} (h : p.suits slot (.fixed token) = true) :
    ∃ settings, slot.read symbols token.toText = .ok settings := by
  cases slot with
  | rd | rs | rt =>
    obtain ⟨r, known⟩ := Option.isSome_iff_exists.1 h
    exact ⟨_, by rw [Slot.read, Register.parse, known]; rfl⟩
  | shiftAmount | immediate =>
    obtain ⟨-, value, read⟩ := isInteger_of_any h
    exact ⟨_, by rw [Slot.read, read]; rfl⟩
  | target =>
    obtain ⟨integer, value, read⟩ := isInteger_of_any h
    exact ⟨_, by rw [Slot.read, SymbolTable.resolveTarget, if_pos integer, read]; rfl⟩
  | memory => cases h

/-- What is given can be read if it is a register or a target, according to its place. -/
theorem unread_given {place : Nat} (h : p.suits slot (.given place) = true)
    (unread : slot.read symbols token = .error failure) :
    (p.target? = some place ∧ symbols.resolveTarget token = .error failure) ∨
      (p.target? ≠ some place ∧ Register.parse token = .error failure) := by
  have failed {α β : Type} {x : Except (Failure Fault) α} {f : α → β}
      (mapped : x.map f = .error failure) : x = .error failure := by
    cases x with
    | error cause => exact congrArg Except.error (Except.error.inj mapped)
    | ok value => cases mapped
  cases slot with
  | rd | rs | rt => exact .inr ⟨of_decide_eq_true (Bool.and_eq_true_iff.1 h).2, failed unread⟩
  | target => exact .inl ⟨of_decide_eq_true (Bool.and_eq_true_iff.1 h).2, failed unread⟩
  | shiftAmount | immediate | memory => cases h

end Suits

/-- Every operand of every template suits the slot in which it is read. -/
theorem templates_suit {p : Pseudo} {template : Template} (h : template ∈ p.templates) :
    template.mnemonic ≠ .la ∧ ∃ layout, template.mnemonic.format.layouts = [layout] ∧
      layout.length = template.operands.length ∧
      ∀ slot operand, (slot, operand) ∈ layout.zip template.operands →
        p.suits slot operand = true := by
  -- a layout is sought among those of the format, so that the table can be decided
  have table : ∀ p ∈ all, ∀ template ∈ p.templates, template.mnemonic ≠ .la ∧
      ∃ layout ∈ template.mnemonic.format.layouts,
        template.mnemonic.format.layouts = [layout] ∧
        layout.length = template.operands.length ∧
        ∀ pair ∈ layout.zip template.operands, p.suits pair.1 pair.2 = true := by decide +kernel
  obtain ⟨ordinary, layout, -, only, length, suit⟩ := table p p.mem_all template h
  exact ⟨ordinary, layout, only, length, fun slot operand member => suit (slot, operand) member⟩

end Pseudo

namespace Template

variable {p : Pseudo} {template : Template} {tokens : List Text}
  (ht : template ∈ p.templates) (length : tokens.length = p.arity)
include ht length

/-- Every operand of an instruction that is written out is a given or a fixed one, in its place. -/
theorem stands {operand : TemplateOperand} (h : operand ∈ template.operands) :
    operand.Stands tokens (operand.fill tokens) := by
  cases operand with
  | fixed token => exact .fixed
  | given place =>
    obtain ⟨-, layout, -, slots, suit⟩ := Pseudo.templates_suit ht
    rw [← List.map_snd_zip (Nat.le_of_eq slots.symm)] at h
    obtain ⟨⟨slot, operand⟩, member, same⟩ := List.mem_map.1 h
    cases same
    have within : place < tokens.length := length ▸ Pseudo.lt_of_suits (suit slot _ member)
    refine .given ?_
    rw [TemplateOperand.fill, List.getElem?_eq_getElem within]
    rfl

theorem fill_present (full : ∀ token ∈ tokens, token ≠ []) :
    ∀ token ∈ (template.fill tokens).operands, token ≠ [] := by
  have fixed : ∀ token ∈ TemplateOperand.fixedTokens, token.toText ≠ [] := by decide
  intro token member
  obtain ⟨operand, own, rfl⟩ := List.mem_map.1 member
  have stands := stands ht length own
  cases operand with
  | given place =>
    cases stands with
    | given h => exact full _ (List.mem_of_getElem? h)
  | fixed token => exact fixed token (TemplateOperand.fixed_mem ht own)

/-- If an instruction that is written out cannot be encoded, one of the given operands is not what
it should be. -/
theorem unread_of_encode_error {symbols : SymbolTable} {notes : List Truncation}
    {failure : Failure Fault} (tidy : ∀ token ∈ tokens, Text.IsToken token)
    (full : ∀ token ∈ tokens, token ≠ [])
    (h : encode symbols none (template.fill tokens).text = ⟨notes, .error failure⟩) :
    ∃ (place : Nat) (token : Text), tokens[place]? = some token ∧
      ((p.target? = some place ∧ symbols.resolveTarget token = .error failure) ∨
        (p.target? ≠ some place ∧ Register.parse token = .error failure)) := by
  obtain ⟨ordinary, layout, only, slots, suit⟩ := Pseudo.templates_suit ht
  have chosen : template.mnemonic.format.layoutFor? (template.fill tokens).operands =
      some layout := by
    refine Format.layoutFor?_of_full only ?_ (fill_present ht length full)
    rw [fill, List.length_map, slots]
  obtain ⟨slot, token, member, unread⟩ :=
    Instruction.unread_of_encode_error ordinary (ofText_fill ht tidy) chosen h
  -- the operand that cannot be read was filled in for one of the template, and for a given one
  rw [List.zip_map_right] at member
  obtain ⟨⟨slot', operand⟩, own, same⟩ := List.mem_map.1 member
  cases same
  have stands := stands ht length (List.of_mem_zip own).2
  have suits := suit _ _ own
  cases operand with
  | given place =>
    cases stands with
    | given h => exact ⟨place, _, h, Pseudo.unread_given suits unread⟩
  | fixed token =>
    obtain ⟨settings, read⟩ := @Pseudo.read_fixed p symbols slot' token suits
    cases unread.symm.trans read

end Template

/-! ## Templates that are read again -/

/-- An instruction is read with the mnemonic of a template and its operands in their places. -/
def Template.ReadAs (template : Template) (tokens : List Text) (text : Text) : Prop :=
  (Instruction.ofText text).mnemonic = template.mnemonic.name.toText ∧
    List.Forall₂ (TemplateOperand.Stands tokens) template.operands
      (Instruction.ofText text).operands

theorem Template.readAs_fill {p : Pseudo} {template : Template} {tokens : List Text}
    (ht : template ∈ p.templates) (length : tokens.length = p.arity)
    (tidy : ∀ token ∈ tokens, Text.IsToken token) :
    template.ReadAs tokens (template.fill tokens).text := by
  rw [ReadAs, ofText_fill ht tidy]
  refine ⟨rfl, List.forall₂_map_right_iff.2 (List.forall₂_same.2 fun operand own => ?_)⟩
  exact stands ht length own

/-- What a pseudo-instruction is expanded to is read again as its templates with the operands in
their places, whatever the operands are. If they are registers and a target, it is encoded. If it
cannot be encoded, the target leads nowhere or one of the other operands is no register. -/
theorem templates_read_again (symbols : SymbolTable) (t : Text) (p : Pseudo)
    (named : Pseudo.named? (Instruction.ofText t).mnemonic = some p)
    (length : (Instruction.ofText t).operands.length = p.arity)
    (full : ∀ token ∈ (Instruction.ofText t).operands, token ≠ []) :
    let tokens := (Instruction.ofText t).operands
    ∃ texts : List Text, expandInstruction t = .ok (texts.map (Fragment.instruction · none)) ∧
      List.Forall₂ (fun template text => template.ReadAs tokens text) p.templates texts ∧
      ((∀ (place : Nat) token, tokens[place]? = some token → p.target? ≠ some place →
          ∃ r, Register.parse token = .ok r) →
        (∀ (place : Nat) token, tokens[place]? = some token → p.target? = some place →
          ∃ address, symbols.resolveTarget token = .ok address) →
        ∀ text ∈ texts, ∃ notes word, encode symbols none text = ⟨notes, .ok word⟩) ∧
      ∀ text ∈ texts, ∀ notes failure, encode symbols none text = ⟨notes, .error failure⟩ →
        ∃ (place : Nat) (token : Text), tokens[place]? = some token ∧
          ((p.target? = some place ∧ (failure = .fault (.unknownLabel token) ∨
              failure = .fault (.invalidOffset token) ∨
              ∃ n, Numeral.ofToken? token = some n ∧ n.isOverlong = true ∧
                failure = .conversion (.overlong n.digits.length))) ∨
            (p.target? ≠ some place ∧ failure = .fault (.invalidRegister token))) := by
  intro tokens
  have tidy : ∀ token ∈ tokens, Text.IsToken token := Instruction.isToken_operands t
  have mnemonic : (Instruction.ofText t).mnemonic = p.name.toText :=
    (of_decide_eq_true (List.find?_some named :)).symm
  have expanded := @expandInstruction_of_pseudo t p tokens (by rw [← mnemonic]) length full
  refine ⟨p.templates.map fun template => (template.fill tokens).text, ?_, ?_, ?_, ?_⟩
  · rw [expanded, List.map_map, List.map_map]
    rfl
  · refine List.forall₂_map_right_iff.2 (List.forall₂_same.2 fun template ht => ?_)
    exact Template.readAs_fill ht length tidy
  · intro registers target text member
    obtain ⟨template, ht, rfl⟩ := List.mem_map.1 member
    cases outcome : encode symbols none (template.fill tokens).text with
    | mk notes result =>
      cases result with
      | ok word => exact ⟨notes, word, rfl⟩
      | error failure =>
        obtain ⟨place, token, given, ⟨own, unread⟩ | ⟨other, unread⟩⟩ :=
          Template.unread_of_encode_error ht length tidy full outcome
        · obtain ⟨address, resolved⟩ := target place token given own
          cases unread.symm.trans resolved
        · obtain ⟨r, parsed⟩ := registers place token given other
          cases unread.symm.trans parsed
  · intro text member notes failure failed
    obtain ⟨template, ht, rfl⟩ := List.mem_map.1 member
    obtain ⟨place, token, given, wrong⟩ :=
      Template.unread_of_encode_error ht length tidy full failed
    exact ⟨place, token, given, wrong.imp (And.imp_right SymbolTable.resolveTarget_eq_error)
      (And.imp_right fun unread => (Register.parse_eq_error_iff.1 unread).2)⟩

/-- Operands that look like places of a template, and others that are encoded. -/
theorem templates_read_again_braces :
    let braces := "BLE $t0 , \x7b0\x7d, \x7b2\x7d $1".toText
    let plain := "ble $t0, $s1, loop".toText
    (∃ texts : List Text, expandInstruction braces = .ok (texts.map (Fragment.instruction · none)) ∧
      List.Forall₂ (fun (template : Template) text =>
        template.ReadAs ["$t0".toText, "\x7b0\x7d".toText, "\x7b2\x7d $1".toText] text)
        Pseudo.ble.templates texts) ∧
    ∃ texts : List Text, expandInstruction plain = .ok (texts.map (Fragment.instruction · none)) ∧
      ∀ text ∈ texts, ∃ notes word,
        encode [("loop".toText, 8)] none text = ⟨notes, .ok word⟩ := by
  intro braces plain
  constructor
  · obtain ⟨texts, expanded, read, -⟩ := templates_read_again [] braces .ble (by decide +kernel)
      (by decide +kernel) (by decide +kernel)
    have tokens : (Instruction.ofText braces).operands =
        ["$t0".toText, "\x7b0\x7d".toText, "\x7b2\x7d $1".toText] := by decide +kernel
    rw [tokens] at read
    exact ⟨texts, expanded, read⟩
  · obtain ⟨texts, expanded, -, encodes, -⟩ := templates_read_again [("loop".toText, 8)] plain .ble
      (by decide +kernel) (by decide +kernel) (by decide +kernel)
    have tokens : (Instruction.ofText plain).operands =
        ["$t0".toText, "$s1".toText, "loop".toText] := by decide +kernel
    rw [tokens] at encodes
    refine ⟨texts, expanded, encodes ?_ ?_⟩
    · intro place token given other
      rcases place with _ | _ | _ | place
      · cases given
        exact ⟨8, by rfl⟩
      · cases given
        exact ⟨17, by rfl⟩
      · exact absurd rfl other
      · cases given
    · intro place token given own
      rcases place with _ | _ | _ | place
      · cases own
      · cases own
      · cases given
        exact ⟨8, by rfl⟩
      · cases given

end MipsImage
