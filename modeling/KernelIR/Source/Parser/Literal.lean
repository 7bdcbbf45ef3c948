import KernelIR.Floating.Literal
import KernelIR.Source.LineError
import KernelIR.Text.Utf8

/-!
# Literals of source lines

A literal denotes 64 bits.  `0f` with eight and `0d` with sixteen hexadecimal digits give the bits
of a float outright, whatever the type.  Any other literal of a float type is read as a double and,
for the single type, rounded once more.  A literal of another type is an integer that must fit the
width of the type, as a signed or as an unsigned number; a negative one stands for its two's
complement.
-/

namespace KernelIR.Source

open Text (NumeralError NumeralFault)

/-- Reads the hexadecimal digits of raw float bits. -/
def rawBits? (limit : Nat) (digits : List Char) : Except OperandError (BitVec 64) :=
  match Text.naturalInBase? 16 limit digits with
  | .ok n => .ok (BitVec.ofNat 64 n)
  | .error fault => .error (.badInteger ⟨.unsigned, digits, fault⟩)

/-- Reads a literal of a float type. -/
def floatLiteral? (w : FloatWidth) (s : List Char) : Except OperandError (BitVec 64) :=
  match Floating.literal? s with
  | .error fault => .error (.badFloat ⟨.float, s, fault⟩)
  | .ok bits =>
    match w with
    | .half => .error (.noLiterals (.float .half))
    | .single => .ok (BitVec.ofNat 64 (Floating.toSingle bits))
    | .double => .ok (BitVec.ofNat 64 bits)

/-- The number of bits that integer literals of a type are held to; none for no type. -/
def literalWidth? (t : DataType) : Option Nat :=
  if 0 < t.bytes ∧ t.bytes < 8 then some (8 * t.bytes) else none

/-- Reads an integer literal that begins with a minus. -/
def negativeLiteral? (t : DataType) (s : List Char) : Except OperandError (BitVec 64) :=
  match Text.integer? s with
  | .error fault => .error (.badInteger ⟨.signed, s, fault⟩)
  | .ok v =>
    if (literalWidth? t).any (fun w => v < -(Nat.pow 2 (w - 1))) then .error (.doesNotFit s t)
    else .ok (BitVec.ofInt 64 v)

/-- Reads an integer literal without a minus; a plus in front is passed over. -/
def positiveLiteral? (t : DataType) (s : List Char) : Except OperandError (BitVec 64) :=
  let body := match s with
    | '+' :: rest => rest
    | _ => s
  match Text.natural? Text.maxWord body with
  | .error fault => .error (.badInteger ⟨.unsigned, body, fault⟩)
  | .ok v =>
    if (literalWidth? t).any (fun w => Nat.pow 2 w ≤ v) then .error (.doesNotFit s t)
    else .ok (BitVec.ofNat 64 v)

/-- Reads a literal by the class of its type. -/
def typedLiteral? (t : DataType) (s : List Char) : Except OperandError (BitVec 64) :=
  match t with
  | .float w => floatLiteral? w s
  | _ => if s.head? = some '-' then negativeLiteral? t s else positiveLiteral? t s

/-- Reads a literal as the bits it stands for in the given type. -/
def literal? (t : DataType) (s : List Char) : Except OperandError (BitVec 64) :=
  match s with
  | '0' :: mark :: digits =>
    if Text.byteLength s = 10 ∧ Text.lower mark = 'f' then rawBits? 0xffffffff digits
    else if Text.byteLength s = 18 ∧ Text.lower mark = 'd' then rawBits? Text.maxWord digits
    else typedLiteral? t s
  | _ => typedLiteral? t s

end KernelIR.Source
