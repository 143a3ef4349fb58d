import MipsImage.Proofs.Directives
import MipsImage.Proofs.Interchange
import MipsImage.Proofs.Numerals
import MipsImage.Proofs.Relabelling

/-!
# Expansion under other labels

A line with other labels is expanded to the same fragments with other labels in their instructions:
nothing that expansion writes itself is a label, and the numbers that it reads are none either.
-/
set_option autoImplicit false

namespace MipsImage

variable {f : Text → Text}

/-! ## Operands -/

/-- The other label stands for a label. -/
theorem Label.Renames.interchange (renames : Label.Renames f) :
    Interchange fun t new => f t = new where
  token := by
    rintro t _ rfl token
    exact renames.isToken token
  empty := by
    rintro t _ rfl
    exact renames.eq_nil_iff
  register := by
    rintro t _ r rfl h
    have other : ¬Label.Proper t := by
      intro proper
      rw [Register.parse_eq_ok_iff, proper.register_ofToken?_eq_none] at h
      cases h
    rwa [renames.eq_self other]
  integer := by
    rintro t _ value rfl h
    rwa [renames.eq_self (not_proper_of_isInteger (isInteger_of_readInteger h))]
  own other := renames.eq_self other

theorem Instruction.alike_of_relabel {i new : Instruction} (same : new = i.relabel f) :
    Instruction.Alike (fun t new => f t = new) i new := by
  subst same
  refine ⟨rfl, ?_⟩
  rw [relabel, List.forall₂_map_right_iff, List.forall₂_same]
  exact fun _ _ => rfl

theorem Instruction.Alike.eq_relabel {i new : Instruction}
    (alike : Instruction.Alike (fun t new => f t = new) i new) : new = i.relabel f := by
  have operands : i.operands.map f = new.operands := by
    rw [← List.forall₂_eq_eq_eq, List.forall₂_map_left_iff]
    exact alike.operands
  rw [relabel, operands, ← alike.mnemonic]

/-- What a fragment is under other labels. -/
inductive Fragment.Relabels (f : Text → Text) : Fragment → Fragment → Prop
  | instruction {text new : Text} {half : Option Half}
    (same : Instruction.ofText new = (Instruction.ofText text).relabel f) :
    Relabels f (.instruction text half) (.instruction new half)
  | filling {fragment : Fragment} (still : ∀ text half, fragment ≠ .instruction text half) :
    Relabels f fragment fragment

theorem Fragment.relabels_iff {fragment new : Fragment} :
    Fragment.Relabels f fragment new ↔ Fragment.Alike (fun t new => f t = new) fragment new := by
  constructor
  · intro relabels
    cases relabels with
    | instruction same => exact .instruction (Instruction.alike_of_relabel same)
    | filling still => exact .filling still
  · intro alike
    cases alike with
    | instruction same => exact .instruction same.eq_relabel
    | filling still => exact .filling still

/-! ## Directives -/

namespace Directive

/-- An instruction with the name of a directive becomes itself. -/
theorem expandInstruction_of_prefix {d : Directive} {t : Text} {fragments : List Fragment}
    (opens : d.name ++ [.char ' '] <+: t) (h : expandInstruction t = .ok fragments) :
    ∃ fragment ∈ fragments, ¬fragment.Known := by
  have mnemonic := mnemonic_of_prefix opens
  obtain ⟨-, immediate, address, pseudo, unknown⟩ := d.name_unknown
  cases expandInstruction_becomes h with
  | loadImmediate written =>
    rw [written] at mnemonic
    exact absurd mnemonic.symm immediate
  | loadAddress written =>
    rw [written] at mnemonic
    exact absurd mnemonic.symm address
  | template named =>
    rw [mnemonic, pseudo] at named
    cases named
  | itself =>
    refine ⟨_, List.mem_singleton_self _, fun known => known t none rfl ?_⟩
    rw [mnemonic, unknown]

end Directive

namespace SourceLine

/-- The body of a line with other labels is expanded to the same fragments with other labels. -/
theorem expandLine_relabelBody (renames : Label.Renames f) {limit : Option Int} {body : Text}
    {notes : List Truncation} {fragments : List Fragment}
    (h : expandLine limit body = ⟨notes, .ok fragments⟩)
    (known : ∀ fragment ∈ fragments, fragment.Known) :
    ∃ after, expandLine limit (relabelBody f body) = ⟨notes, .ok after⟩ ∧
      List.Forall₂ (Fragment.Alike fun t new => f t = new) fragments after := by
  cases directive : Directive.ofText? body with
  | some pair =>
    have same : relabelBody f body = body := by rw [relabelBody, directive]; rfl
    rw [same]
    refine ⟨fragments, h, List.forall₂_same.2 ?_⟩
    rw [expandLine, directive] at h
    obtain ⟨fragment, _, _, expanded, hlist, -⟩ := Outcome.bind_eq_ok_iff.1 h
    cases hlist
    intro other member
    rw [List.mem_singleton.1 member]
    refine .filling ?_
    rintro text half rfl
    exact Directive.expand_ne_instruction expanded
  | none =>
    rw [expandLine, directive] at h
    obtain ⟨expanded, rfl⟩ := Outcome.ofExcept_eq_ok_iff.1 h
    have new : relabelBody f body = Instruction.mapOperands f body := by
      rw [relabelBody, directive]
      rfl
    have still : Directive.ofText? (relabelBody f body) = none := by
      refine Option.eq_none_iff_forall_ne_some.2 fun (d, rest) some => ?_
      rcases relabelBody_cases f body with same | ⟨front, x, y, old, other⟩
      · rw [same, directive] at some
        cases some
      · have opens := Directive.ofText?_eq_some_prefix some
        rw [other] at opens
        have before : d.name ++ [.char ' '] <+: body := by
          rw [old]
          exact Text.prefix_space d.not_mem_space opens
        obtain ⟨fragment, member, stuck⟩ := Directive.expandInstruction_of_prefix before expanded
        exact stuck (known fragment member)
    obtain ⟨after, hafter, alike⟩ := expandInstruction_alike renames.interchange
      (Instruction.alike_of_relabel (Instruction.ofText_mapOperands renames body)) expanded
    refine ⟨after, ?_, alike⟩
    rw [expandLine, still, new, hafter]
    rfl

theorem relabelBody_eq_nil_iff {body : Text} : relabelBody f body = [] ↔ body = [] := by
  rcases relabelBody_cases f body with same | ⟨front, x, y, rfl, new⟩
  · rw [same]
  · rw [new]
    simp

theorem Expands.relabel (renames : Label.Renames f) {limit : Option Int} {line : SourceLine}
    {names : List Text} {fragments : List Fragment} {notes : List Truncation}
    (plain : isGlobalDeclaration line.text = false)
    (expands : line.Expands limit names fragments notes)
    (known : ∀ fragment ∈ fragments, fragment.Known) :
    ∃ after, (SourceLine.relabel f line).Expands limit (names.map f) after notes ∧
      List.Forall₂ (Fragment.Alike fun t new => f t = new) fragments after := by
  cases expands with
  | labels headers =>
    have new := headers_relabel renames plain headers
    rw [relabelBody_eq_nil_iff.2 rfl] at new
    exact ⟨_, .labels new, .cons (.filling nofun) .nil⟩
  | body headers present expanded =>
    obtain ⟨after, hafter, alike⟩ := expandLine_relabelBody renames expanded known
    exact ⟨after, .body (headers_relabel renames plain headers)
      (fun empty => present (relabelBody_eq_nil_iff.1 empty)) hafter, alike⟩

/-- Lines with other labels are in the same order in the image. -/
theorem inOrder_map_relabel (renames : Label.Renames f) (lines : List SourceLine) :
    (Segments.ofLines (lines.map (relabel f))).inOrder =
      (Segments.ofLines lines).inOrder.map (relabel f) := by
  have steers : ∀ line new, relabel f line = new → line.SteersAlike new := by
    rintro line _ rfl
    refine steersAlike_of_cases ((relabel_cases renames line).imp_right (Or.imp_right ?_))
    exact And.imp OpensWithLabel.head?_ne_point OpensWithLabel.head?_ne_point
  have related : List.Forall₂ (relabel f · = ·) lines (lines.map (relabel f)) := by
    rw [List.forall₂_map_right_iff, List.forall₂_same]
    exact fun _ _ => rfl
  have inOrder := Segments.forall₂_inOrder steers related
  rw [← List.forall₂_map_left_iff, List.forall₂_eq_eq_eq] at inOrder
  exact inOrder.symm

end SourceLine

/-! ## Blocks -/

namespace Block

/-- What a block is under other labels. -/
structure Relabels (f : Text → Text) (block after : Block) : Prop where
  line : after.line = block.line
  labels : after.labels = block.labels.map f
  fragment : Fragment.Relabels f block.fragment after.fragment

theorem relabels_iff {block after : Block} :
    Relabels f block after ↔ Alike f (fun t new => f t = new) block after :=
  ⟨fun h => ⟨h.line, h.labels, Fragment.relabels_iff.1 h.fragment⟩,
    fun h => ⟨h.line, h.labels, Fragment.relabels_iff.2 h.fragment⟩⟩

/-- Labels have the same addresses under other names. -/
theorem placements_eq_of_relabels {blocks after : List Block}
    (relabels : List.Forall₂ (Relabels f) blocks after) (address : Int) :
    placements address after = (placements address blocks).map (Prod.map f id) :=
  placements_eq_of_alike (relabels.imp fun _ _ => relabels_iff.1) address

/-- Lines with other labels become the same blocks with other labels. -/
theorem Grouped.relabel (renames : Label.Renames f) {limit : Option Int} {address : Int}
    {lines : List SourceLine} {groups : List (List Block)} {warnings : List Warning}
    (grouped : Grouped limit address lines groups warnings)
    (plain : ∀ line ∈ lines, isGlobalDeclaration line.text = false)
    (known : ∀ block ∈ groups.flatten, block.fragment.Known) :
    ∃ after, Grouped limit address (lines.map (SourceLine.relabel f)) after warnings ∧
      List.Forall₂ (Relabels f) groups.flatten after.flatten := by
  let P (line new : SourceLine) : Prop :=
    isGlobalDeclaration line.text = false ∧ SourceLine.relabel f line = new
  have related : List.Forall₂ P lines (lines.map (SourceLine.relabel f)) := by
    rw [List.forall₂_map_right_iff, List.forall₂_same]
    exact fun line member => ⟨plain line member, rfl⟩
  have number : ∀ line new, P line new → new.number = line.number := by
    rintro line _ ⟨-, rfl⟩
    exact SourceLine.number_relabel f line
  obtain ⟨after, same, hafter, alike, warned⟩ := grouped.alike (S := Eq) number
    (by
      rintro line _ names fragments notes ⟨plain, rfl⟩ expands known
      obtain ⟨after, hafter, alike⟩ := expands.relabel renames plain known
      exact ⟨after, notes, hafter, alike, List.forall₂_same.2 fun _ _ => rfl⟩) known related
  have unchanged : warnings = same := by
    rw [← List.forall₂_eq_eq_eq]
    exact warned.imp fun _ _ => Warning.Alike.eq
  rw [unchanged]
  exact ⟨after, hafter, alike.imp fun _ _ => relabels_iff.2⟩

end Block

end MipsImage
