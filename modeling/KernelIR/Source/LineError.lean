import KernelIR.Source.Opcode
import KernelIR.Source.DataType
import KernelIR.Source.Special
import KernelIR.Text.Joined
import KernelIR.Text.Numeral

/-!
# What can be wrong with an instruction line

`OperandError` lists the faults of a single operand, `LineError` those of a line, and `ParseError`
adds the line itself.  Each has one function that words it.
-/

namespace KernelIR.Source

open Text (quote)

/-- What is wrong with an operand. -/
inductive OperandError
  | unclosedBracket (text : List Char)
  | unexpected (text : List Char)
  | noLanes (r : Special)
  | badLane (text : List Char)
  | nameExpected
  | badOffset (e : Text.NumeralError)
  | registerExpected (text : List Char)
  | badAddress (text : List Char)
  | badFloat (e : Text.NumeralError)
  | noLiterals (type : DataType)
  | badInteger (e : Text.NumeralError)
  | doesNotFit (text : List Char) (type : DataType)
deriving DecidableEq, Repr

/-- The wording of an operand's fault. -/
def OperandError.message : OperandError → String
  | unclosedBracket s => "unclosed bracket: " ++ quote s
  | unexpected s => "unexpected operand: " ++ quote s
  | noLanes r => "%" ++ r.name ++ " has no lanes"
  | badLane s => "bad lane: " ++ quote s
  | nameExpected => "register name expected"
  | badOffset e => "offset: " ++ e.message
  | registerExpected s => "register expected in address: " ++ quote s
  | badAddress s => "bad address: " ++ quote s
  | badFloat e => "float literal: " ++ e.message
  | noLiterals t => t.name ++ " literals are not supported"
  | badInteger e => e.message
  | doesNotFit s t => "literal " ++ String.ofList s ++ " does not fit " ++ t.name

/-- What is wrong with a line. -/
inductive LineError
  | predicateExpected (text : List Char)
  | opcodeExpected
  | unknownOpcode (text : List Char)
  | unknownSuffix (opcode : Opcode) (text : List Char)
  | tooManyTypes (opcode : Opcode) (types : List DataType)
  | unbalanced (bracket : Char) (position : Nat)
  | emptyOperand (position : Nat)
  | unclosed
  | tooManyOperands (count : Nat)
  | operand (index : Nat) (e : OperandError)
deriving DecidableEq, Repr

/-- The wording of a line's fault. -/
def LineError.message : LineError → String
  | predicateExpected s => "guard: predicate register expected: " ++ quote s
  | opcodeExpected => "opcode expected"
  | unknownOpcode s => "unknown opcode: " ++ quote s
  | unknownSuffix op s => op.name ++ ": unknown suffix: " ++ quote s
  | tooManyTypes op ts =>
    op.name ++ ": too many types: [" ++ Text.joined " " (ts.map DataType.name) ++ "]"
  | unbalanced c p => "unbalanced " ++ Text.quoteChar c ++ " at " ++ Text.decimal p
  | emptyOperand p => "empty operand at " ++ Text.decimal p
  | unclosed => "unbalanced brackets"
  | tooManyOperands n => "too many operands: " ++ Text.decimal n
  | operand j e => "operand " ++ Text.decimal j ++ ": " ++ e.message

/-- A line that could not be read, and why. -/
structure ParseError where
  line : List Char
  cause : LineError
deriving DecidableEq, Repr

/-- The report about a line. -/
def ParseError.message (e : ParseError) : String :=
  "parse " ++ quote e.line ++ ": " ++ e.cause.message

end KernelIR.Source
