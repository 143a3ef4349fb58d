import MipsImage.Proofs.InstructionExpansion
import MipsImage.Proofs.Layout

/-!
# The limit of one line

A limit adds a check to the expansion of a line and changes nothing else: what a directive asks for,
as reserved bytes or as a boundary, must not be above the limit.
-/
set_option autoImplicit false

namespace MipsImage

/-! ## Fragments -/

namespace Fragment

/-- How many bytes a directive asks for at once, reserved or as a boundary. -/
def request : Fragment → Nat
  | space count => count
  | align boundary => boundary
  | instruction _ _ | data _ => 0

/-- Fragments none of which asks for more than `most` bytes. -/
def check (most : Nat) (fragments : List Fragment) : Encoding (List Fragment) :=
  if ∃ fragment ∈ fragments, most < fragment.request then
    Outcome.fail (.fault (.imageTooLarge most))
  else Outcome.ok fragments

theorem check_of_request_eq_zero (most : Nat) {fragments : List Fragment}
    (h : ∀ fragment ∈ fragments, fragment.request = 0) :
    check most fragments = Outcome.ok fragments := by
  apply if_neg
  rintro ⟨fragment, member, above⟩
  rw [h fragment member] at above
  exact Nat.not_lt_zero most above

end Fragment

/-! ## Directives -/

theorem readInteger_eq_ok_iff {token : Text} {value : Int} : readInteger token = .ok value ↔
    ∃ n, Numeral.ofToken? token = some n ∧ n.convert = .ok value := by
  unfold readInteger
  split
  · rename_i n read
    simp [read]
  · rename_i none
    simp [none]

theorem isInteger_of_readInteger {token : Text} {value : Int}
    (h : readInteger token = .ok value) : isInteger token = true := by
  obtain ⟨n, read, -⟩ := readInteger_eq_ok_iff.1 h
  rw [isInteger, read]
  rfl

namespace Directive

theorem powerOfTwo_some (most : Nat) (body : Text) :
    powerOfTwo (some most) body = (powerOfTwo none body).bind (checkSize (some most)) := by
  unfold powerOfTwo
  by_cases literal : isInteger body
  · simp only [literal, if_true]
    cases readInteger body with
    | error failure => rfl
    | ok exponent =>
      simp only [bind, Except.bind]
      by_cases known : 0 ≤ exponent ∧ exponent ≤ maxExponent
      · rw [if_pos known, if_pos known]
        rfl
      · rw [if_neg known, if_neg known]
  · simp only [literal]
    rfl

theorem ofExcept_checkSize (most size : Nat) (form : Nat → Fragment)
    (h : (form size).request = size) :
    ((Outcome.ofExcept (checkSize (some most) size)).bind fun size => Outcome.ok [form size] :
      Encoding (List Fragment)) = Fragment.check most [form size] := by
  simp only [checkSize, Fragment.check, List.mem_singleton, exists_eq_left, h, Int.ofNat_lt]
  split <;> rfl

theorem expand_some (most : Nat) (body : Text) (directive : Directive) :
    ((directive.expand (some most) body).bind fun fragment => Outcome.ok [fragment]) =
      ((directive.expand none body).bind fun fragment => Outcome.ok [fragment]).bind
        (Fragment.check most) := by
  have data (bytes : Bytes) : Fragment.check most [.data bytes] = Outcome.ok [.data bytes] :=
    Fragment.check_of_request_eq_zero most (by simp [Fragment.request])
  have sized (form : Nat → Fragment) (h : ∀ size, (form size).request = size) :
      ((Outcome.ofExcept (powerOfTwo (some most) body)).bind fun size => Outcome.ok [form size]) =
        (Outcome.ofExcept (powerOfTwo none body)).bind fun size =>
          Fragment.check most [form size] := by
    rw [powerOfTwo_some, Outcome.ofExcept_bind, Outcome.bind_assoc]
    congr 1
    funext size
    exact ofExcept_checkSize most size form (h size)
  cases directive with
  | ascii | asciiz | integers =>
    simp only [expand, Outcome.bind_eq, Outcome.pure_eq_ok, Outcome.bind_assoc, Outcome.ok_bind,
      data]
  | space =>
    simp only [expand, Outcome.bind_eq, Outcome.pure_eq_ok, Outcome.bind_assoc, Outcome.ok_bind]
    exact sized .space fun _ => rfl
  | align =>
    simp only [expand, Outcome.bind_eq, Outcome.pure_eq_ok, Outcome.bind_assoc, Outcome.ok_bind]
    exact sized .align fun _ => rfl

theorem checkSize_eq_ok {limit : Option Int} {size result : Nat}
    (h : checkSize limit size = .ok result) : result = size := by
  unfold checkSize at h
  split at h
  · split at h <;> cases h
    rfl
  · cases h
    rfl

theorem powerOfTwo_eq_ok_iff {limit : Option Int} {body : Text} {size : Nat} :
    powerOfTwo limit body = .ok size ↔ ∃ exponent, readInteger body = .ok exponent ∧
      (0 ≤ exponent ∧ exponent ≤ maxExponent) ∧
      checkSize limit (Bits.count exponent.toNat) = .ok size := by
  unfold powerOfTwo
  cases read : readInteger body with
  | error failure =>
    simp only [bind, Except.bind, reduceCtorEq, false_and, exists_false, iff_false]
    split <;> exact nofun
  | ok exponent =>
    rw [if_pos (isInteger_of_readInteger read)]
    simp only [bind, Except.bind, Except.ok.injEq, exists_eq_left']
    split
    · rename_i known
      simp [known]
    · rename_i unknown
      simp [unknown]

theorem powerOfTwo_pos {limit : Option Int} {body : Text} {size : Nat}
    (h : powerOfTwo limit body = .ok size) : 0 < size := by
  obtain ⟨exponent, -, -, fits⟩ := powerOfTwo_eq_ok_iff.1 h
  rw [checkSize_eq_ok fits]
  exact Bits.count_pos _

theorem expand_proper {limit : Option Int} {directive : Directive} {body : Text}
    {notes : List Truncation} {fragment : Fragment}
    (h : directive.expand limit body = ⟨notes, .ok fragment⟩) : fragment.Proper := by
  cases directive <;> obtain ⟨_, _, _, hread, hform, rfl⟩ := Outcome.bind_eq_ok_iff.1 h <;>
    cases hform
  case align => exact powerOfTwo_pos (Outcome.ofExcept_eq_ok_iff.1 hread).1
  all_goals trivial

end Directive

/-! ## Lines -/

theorem expandLine_some (most : Nat) (t : Text) :
    expandLine (some most) t = (expandLine none t).bind (Fragment.check most) := by
  unfold expandLine
  split
  · exact Directive.expand_some most _ _
  · cases h : expandInstruction t with
    | error failure => rfl
    | ok fragments =>
      have free : Fragment.check most fragments = Outcome.ok fragments := by
        apply Fragment.check_of_request_eq_zero
        intro fragment member
        obtain ⟨text, half, rfl⟩ := (expandInstruction_becomes h).instructions fragment member
        rfl
      exact ((Outcome.ok_bind fragments _).trans free).symm

theorem expandLine_proper {limit : Option Int} {t : Text} {notes : List Truncation}
    {fragments : List Fragment} (h : expandLine limit t = ⟨notes, .ok fragments⟩) :
    ∀ fragment ∈ fragments, fragment.Proper := by
  intro fragment member
  unfold expandLine at h
  split at h
  · obtain ⟨only, _, _, hexpand, hlist, -⟩ := Outcome.bind_eq_ok_iff.1 h
    cases hlist
    rw [List.mem_singleton.1 member]
    exact Directive.expand_proper hexpand
  · have becomes := expandInstruction_becomes (Outcome.ofExcept_eq_ok_iff.1 h).1
    obtain ⟨text, half, rfl⟩ := becomes.instructions fragment member
    trivial

namespace Block

theorem map_fragment_ofFragments (line : Int) (labels : List Text) (fragments : List Fragment) :
    (ofFragments line labels fragments).map Block.fragment = fragments := by
  cases fragments with
  | nil => rfl
  | cons first rest =>
    rw [ofFragments, List.map_cons, List.map_map]
    exact congrArg (first :: ·) (List.map_id rest)

/-- A directive asks for more than `most` bytes. -/
def Asks (most : Nat) (blocks : List Block) : Prop :=
  ∃ block ∈ blocks, most < block.fragment.request

instance (most : Nat) (blocks : List Block) : Decidable (Asks most blocks) :=
  inferInstanceAs (Decidable (∃ block ∈ blocks, most < block.fragment.request))

theorem asks_ofFragments_iff {most : Nat} {line : Int} {labels : List Text}
    {fragments : List Fragment} :
    Asks most (ofFragments line labels fragments) ↔
      ∃ fragment ∈ fragments, most < fragment.request := by
  unfold Asks
  constructor
  · rintro ⟨block, member, above⟩
    refine ⟨block.fragment, ?_, above⟩
    rw [← map_fragment_ofFragments line labels fragments]
    exact List.mem_map_of_mem member
  · rintro ⟨fragment, member, above⟩
    have placed : fragment ∈ (ofFragments line labels fragments).map Block.fragment := by
      rw [map_fragment_ofFragments]
      exact member
    obtain ⟨block, own, rfl⟩ := List.mem_map.1 placed
    exact ⟨block, own, above⟩

/-- The fragments of one line, which for a line of labels alone are one empty piece of data. -/
def fragmentsOfLine (limit : Option Int) (line : SourceLine) : Assembling (List Fragment) :=
  if (Label.split line.text).2 = [] then Outcome.ok [.data []]
  else Outcome.atLine line.number (expandLine limit (Label.split line.text).2)

theorem ofLine_eq (limit : Option Int) (line : SourceLine) :
    ofLine limit line = (fragmentsOfLine limit line).bind fun fragments =>
      Outcome.ok (ofFragments line.number (Label.split line.text).1 fragments) := by
  unfold ofLine fragmentsOfLine
  obtain ⟨labels, body⟩ := Label.split line.text
  simp only [Outcome.bind_eq, Outcome.pure_eq_ok, Outcome.ok_bind]
  split <;> simp only [Outcome.ok_bind]

/-- With a limit a line has the same blocks or is refused. -/
theorem ofLine_some (most : Nat) (line : SourceLine) :
    ofLine (some most) line = (ofLine none line).bind fun blocks =>
      if Asks most blocks then Outcome.fail (.fault ⟨line.number, .imageTooLarge most⟩)
      else Outcome.ok blocks := by
  simp only [ofLine_eq, Outcome.bind_assoc, Outcome.ok_bind, asks_ofFragments_iff]
  unfold fragmentsOfLine
  by_cases empty : (Label.split line.text).2 = []
  · simp [empty, Fragment.request]
  · simp only [empty, if_false, expandLine_some, Outcome.atLine_bind, Outcome.bind_assoc]
    congr 1
    funext fragments
    unfold Fragment.check
    split <;> rfl

theorem ofLine_proper {limit : Option Int} {line : SourceLine} {warnings : List Warning}
    {blocks : List Block} (h : ofLine limit line = ⟨warnings, .ok blocks⟩) :
    ∀ block ∈ blocks, block.fragment.Proper := by
  rw [ofLine_eq] at h
  obtain ⟨fragments, _, _, hfragments, hblocks, -⟩ := Outcome.bind_eq_ok_iff.1 h
  cases hblocks
  intro block member
  have own : block.fragment ∈ fragments := by
    rw [← map_fragment_ofFragments line.number (Label.split line.text).1 fragments]
    exact List.mem_map_of_mem member
  unfold fragmentsOfLine at hfragments
  split at hfragments
  · cases hfragments
    rw [List.mem_singleton.1 own]
    trivial
  · obtain ⟨notes, expanded, -⟩ := Outcome.atLine_eq_ok_iff.1 hfragments
    exact expandLine_proper expanded _ own

end Block

end MipsImage
