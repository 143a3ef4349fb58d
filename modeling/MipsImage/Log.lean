import MipsImage.Text.Basic

/-!
# Log entries

What a run tells its user, beside the files that it writes.
-/
set_option autoImplicit false

namespace MipsImage

inductive LogLevel where
  | info
  | error
  deriving DecidableEq, Repr

/-- The part of the program that speaks. -/
inductive Speaker where
  | batch
  | commandLine
  deriving DecidableEq, Repr

structure LogEntry where
  level : LogLevel
  speaker : Speaker
  message : Text
  deriving DecidableEq, Repr

def LogLevel.name : LogLevel → String
  | info => "INFO"
  | error => "ERROR"

def Speaker.name : Speaker → String
  | batch => "mipsasm.mips_batch"
  | commandLine => "mipsasm.cli"

def LogEntry.render (e : LogEntry) : Text :=
  s!"{e.level.name} {e.speaker.name}: ".toText ++ e.message

end MipsImage
