import KernelIR.Source.Operand
import KernelIR.Source.Parser.Literal
import KernelIR.Source.Scope
import KernelIR.Text.Blank

/-!
# Reading an operand

The first character tells the kind of an operand: `[` an address, `%` a register, a digit, sign or
point a literal, a letter a symbol.  A register that is spelled like a special register is one,
unless the kernel knows the whole spelling as a name of its own.  Reading may give numbers to new
register names; they stay given even when the rest of the line turns out to be wrong.
-/

namespace KernelIR.Source

/-- A reader in the scope of a kernel.  What it adds to the scope outlives its failure. -/
abbrev Reader (ε : Type) (α : Type) : Type := ExceptT ε (StateM Scope) α

/-- The number of a register name in the kernel. -/
def internName {ε : Type} (name : String) : Reader ε UInt32 := do
  let (id, s) := (← get).intern name
  set s
  return id

/-! ### Identifiers -/

/-- The characters that may begin an identifier. -/
def isIdentStart (c : Char) : Bool :=
  ('a' ≤ c && c ≤ 'z') || ('A' ≤ c && c ≤ 'Z') || c == '_' || c == '$'

/-- The characters that may continue an identifier. -/
def isIdentRest (c : Char) : Bool :=
  isIdentStart c || ('0' ≤ c && c ≤ '9')

/-- Whether a text is an identifier. -/
def isIdent : List Char → Bool
  | [] => false
  | c :: rest => isIdentStart c && rest.all isIdentRest

/-! ### Registers -/

/-- Splits a text at the first point, if there is one. -/
def cutPoint (cs : List Char) : List Char × Option (List Char) :=
  match cs.dropWhile (· ≠ '.') with
  | [] => (cs, none)
  | _ :: after => (cs.takeWhile (· ≠ '.'), some after)

/-- The special register that a spelling without its percent sign denotes, if its first part is the
name of one. -/
def specialForm? (whole body : List Char) : Except OperandError (Option Form) :=
  let (name, lane) := cutPoint body
  match Special.ofName? (String.ofList name) with
  | none => .ok none
  | some r =>
    match lane with
    | none => .ok (some (.special r .x))
    | some lane =>
      if !r.isVector then .error (.noLanes r)
      else match Lane.ofName? (String.ofList lane) with
        | some l => .ok (some (.special r l))
        | none => .error (.badLane whole)

/-- Reads a spelling that begins with a percent sign. -/
def readRegister (s : List Char) : Reader OperandError Form := do
  let name := String.ofList s
  let special ← match (← get).idOf? name with
    | some _ => pure none
    | none => liftM (specialForm? s (s.drop 1))
  match special with
  | some form => return form
  | none =>
    if s.length = 1 then throw .nameExpected
    return .register ⟨← internName name, name⟩

/-! ### Addresses -/

/-- Splits the inside of an address into its base and its offset, which begins with the first sign
after the first character.  Spaces inside the offset do not count, nor does a plus before a
minus. -/
def splitOffset (s : List Char) : List Char × List Char :=
  let isSign (c : Char) : Bool := c == '+' || c == '-'
  match (s.drop 1).dropWhile (!isSign ·) with
  | [] => (s, [])
  | sign =>
    let offset := sign.filter (· ≠ ' ')
    let base := Text.trim (s.take 1 ++ (s.drop 1).takeWhile (!isSign ·))
    (base, match offset with
      | '+' :: '-' :: rest => '-' :: rest
      | _ => offset)

/-- Reads the offset of an address; no text is no offset. -/
def offset? (s : List Char) : Except OperandError Int :=
  if s.isEmpty then .ok 0
  else match Text.integer? s with
    | .ok v => .ok v
    | .error fault => .error (.badOffset ⟨.signed, s, fault⟩)

/-- Reads the inside of an address in brackets. -/
def readAddress (inside : List Char) : Reader OperandError Form := do
  let s := Text.trim inside
  let (base, offsetText) := splitOffset s
  let offset ← liftM (offset? offsetText)
  if base.head? = some '%' then
    match ← readRegister base with
    | .register r => return .indirect r offset
    | _ => throw (.registerExpected base)
  else if isIdent base then
    let name := String.ofList base
    return .address name offset ((← get).isParam name)
  else throw (.badAddress s)

/-! ### Operands -/

/-- Whether a literal begins with the character. -/
def beginsLiteral (c : Char) : Bool :=
  ('0' ≤ c && c ≤ '9') || c == '-' || c == '+' || c == '.'

/-- Reads the form of an operand of type `t`.  With `label`, a bare identifier names a label. -/
def readForm (t : DataType) (label : Bool) (s : List Char) : Reader OperandError Form :=
  match s with
  | ['_'] => return .sink
  | '[' :: inside =>
    if inside.getLast? = some ']' then readAddress inside.dropLast
    else throw (.unclosedBracket s)
  | '%' :: _ => readRegister s
  | c :: _ =>
    if beginsLiteral c then return .immediate (← liftM (literal? t s))
    else if !isIdent s then throw (.unexpected s)
    else
      let name := String.ofList s
      if label then return .label name
      else return .address name 0 ((← get).isParam name)
  | [] => throw (.unexpected s)

/-- Reads an operand of type `t`. -/
def readOperand (t : DataType) (label : Bool) (s : List Char) : Reader OperandError Operand :=
  return ⟨t, ← readForm t label s⟩

end KernelIR.Source
