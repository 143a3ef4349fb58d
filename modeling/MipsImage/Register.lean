import MipsImage.Fault
import MipsImage.Text.LowerCase

/-!
# Registers

A register is named by its number or by its role, after a dollar sign, in any case and with blanks
around it.
-/
set_option autoImplicit false

namespace MipsImage

abbrev Register := Fin 32

namespace Register

/-- The register that always holds zero. -/
def zero : Register := ⟨0, by decide⟩

/-- The assembler's own scratch register. -/
def scratch : Register := ⟨1, by decide⟩

/-- The names by role, in the order of the numbers. -/
def roleNames : List String :=
  ["$zero", "$at", "$v0", "$v1", "$a0", "$a1", "$a2", "$a3",
   "$t0", "$t1", "$t2", "$t3", "$t4", "$t5", "$t6", "$t7",
   "$s0", "$s1", "$s2", "$s3", "$s4", "$s5", "$s6", "$s7",
   "$t8", "$t9", "$k0", "$k1", "$gp", "$sp", "$fp", "$ra"]

/-- The names by number, in order. -/
def numberNames : List String :=
  ["$0", "$1", "$2", "$3", "$4", "$5", "$6", "$7",
   "$8", "$9", "$10", "$11", "$12", "$13", "$14", "$15",
   "$16", "$17", "$18", "$19", "$20", "$21", "$22", "$23",
   "$24", "$25", "$26", "$27", "$28", "$29", "$30", "$31"]

/-- Every name with its register. -/
def names : List (String × Register) :=
  roleNames.zip (List.finRange 32) ++ numberNames.zip (List.finRange 32)

/-- The register with exactly this name. -/
def named? (name : Text) : Option Register :=
  (names.find? fun entry => entry.1.toText = name).map Prod.snd

def ofToken? (token : Text) : Option Register := named? (Text.toLower (Text.trim token))

def parse (token : Text) : Except (Failure Fault) Register :=
  match ofToken? token with
  | some r => .ok r
  | none => .error (.fault (.invalidRegister token))

variable {token : Text} {r : Register} {failure : Failure Fault}

theorem parse_eq_ok_iff : parse token = .ok r ↔ ofToken? token = some r := by
  unfold parse
  split
  · rename_i found
    simp [found]
  · rename_i none
    simp [none]

theorem parse_eq_error_iff :
    parse token = .error failure ↔
      ofToken? token = none ∧ failure = .fault (.invalidRegister token) := by
  unfold parse
  split
  · rename_i found
    simp [found]
  · rename_i none
    simp [none, eq_comm]

end Register

end MipsImage
