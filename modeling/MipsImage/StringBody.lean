import MipsImage.Bytes
import MipsImage.Fault
import MipsImage.Text.Digit

/-!
# Bodies of quoted strings

The body of a quoted string stands for bytes: a backslash introduces a control character, a quote,
a backslash or one byte in hexadecimal, and every other character stands for its UTF-8 bytes. A
lone surrogate has none and stops the conversion.
-/
set_option autoImplicit false

namespace MipsImage.StringBody

/-- The byte that a backslash and one character stand for. -/
def control? : CodePoint → Option UInt8
  | 'n' => some 10
  | 't' => some 9
  | 'r' => some 13
  | '0' => some 0
  | '\\' => some 92
  | '"' => some 34
  | '\'' => some 39
  | 'a' => some 7
  | 'b' => some 8
  | 'f' => some 12
  | 'v' => some 11
  | _ => none

/-- The byte with these two hexadecimal digits. -/
def hexByte? (high low : CodePoint) : Option UInt8 := do
  let h ← Text.hexDigit? high
  let l ← Text.hexDigit? low
  pure (UInt8.ofNat (16 * h + l))

/-- Nothing introduces an escape but a backslash at the very end. -/
def isDangling (t : Text) : Bool := t.dropWhile (· ≠ .char '\\') = [.char '\\']

/-- The bytes of a body up to its leftmost defect, where `column` characters stand between the last
escape and the body. Plain text is converted when the escape after it is read, and a backslash that
is left over at the end is seen before that. -/
def bytesFrom (column : Nat) : Text → Except (Failure EscapeFault) Bytes
  | [] => .ok []
  | '\\' :: 'x' :: high :: low :: rest =>
    match hexByte? high low with
    | some b => (b :: ·) <$> bytesFrom 0 rest
    | none => .error (.fault (.unrecognised [.char 'x']))
  | '\\' :: c :: rest =>
    match control? c with
    | some b => (b :: ·) <$> bytesFrom 0 rest
    | none => .error (.fault (.unrecognised [c]))
  | ['\\'] => .error (.fault .dangling)
  | .surrogate place :: rest =>
    if isDangling rest then .error (.fault .dangling)
    else .error (.conversion (.surrogates (.ofSurrogate column place rest)))
  | .char c :: rest => (String.utf8EncodeChar c ++ ·) <$> bytesFrom (column + 1) rest

def bytes (body : Text) : Except (Failure EscapeFault) Bytes := bytesFrom 0 body

def decode (body : Text) : Except (Failure Fault) Bytes :=
  (bytes body).mapError (Failure.map (Fault.invalidEscape body))

end MipsImage.StringBody
