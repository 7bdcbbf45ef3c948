import KernelIR.Text.Quoted

/-!
# Integer numerals

The reader of integer literals.  A literal without a fixed base may carry a mark for its base:
`0x`, `0o`, `0b`, or a plain leading `0` for octal.  An underscore may then stand between two
digits, or between the mark and a digit.  Digits are read from the left and the first character that
does not fit decides the outcome, so a number that has already grown too large is out of range
whatever follows it.  Main definitions: `natural?` reads an unsigned number below a limit,
`integer?` a number with an optional sign; `decimal` and `decimalInt` write them back.
-/

namespace KernelIR.Text

/-- Why a text is not a number of the wanted kind. -/
inductive NumeralFault
  | malformed
  | outOfRange
deriving DecidableEq, Repr

/-- The wording of a numeral fault. -/
def NumeralFault.message : NumeralFault → String
  | malformed => "invalid syntax"
  | outOfRange => "value out of range"

/-- The kinds of number a text may be read as. -/
inductive NumeralKind
  | unsigned
  | signed
  | float
deriving DecidableEq, Repr

/-- The name under which a failed reading is reported. -/
def NumeralKind.reader : NumeralKind → String
  | unsigned => "strconv.ParseUint"
  | signed => "strconv.ParseInt"
  | float => "strconv.ParseFloat"

/-- A failed reading: what was wanted, the text, and what is wrong with it. -/
structure NumeralError where
  kind : NumeralKind
  text : List Char
  fault : NumeralFault
deriving DecidableEq, Repr

/-- The report of a failed reading. -/
def NumeralError.message (e : NumeralError) : String :=
  e.kind.reader ++ ": parsing " ++ quote e.text ++ ": " ++ e.fault.message

/-! ### Digits -/

/-- The lower-case form of an ASCII letter; other characters are unchanged. -/
def lower (c : Char) : Char :=
  if 'A' ≤ c ∧ c ≤ 'Z' then Char.ofNat (c.toNat + 32) else c

/-- The value of a digit, the letters standing for ten to thirty-five. -/
def digitValue? (c : Char) : Option Nat :=
  if '0' ≤ c ∧ c ≤ '9' then some (c.toNat - '0'.toNat)
  else
    let l := lower c
    if 'a' ≤ l ∧ l ≤ 'z' then some (l.toNat - 'a'.toNat + 10) else none

/-- Reads digits of the given base onto `n`.  With `loose`, underscores are passed over.  The first
character that is no digit of the base, or that takes the number past `limit`, ends the reading. -/
def digits? (base limit : Nat) (loose : Bool) : Nat → List Char → Except NumeralFault Nat
  | n, [] => .ok n
  | n, c :: rest =>
    if loose ∧ c = '_' then digits? base limit loose n rest
    else match digitValue? c with
      | none => .error .malformed
      | some d =>
        if base ≤ d then .error .malformed
        else if limit < n * base + d then .error .outOfRange
        else digits? base limit loose (n * base + d) rest

/-! ### Base marks and underscores -/

/-- The base that a mark letter stands for. -/
def baseOfMark? (c : Char) : Option Nat :=
  match lower c with
  | 'b' => some 2
  | 'o' => some 8
  | 'x' => some 16
  | _ => none

/-- Splits a literal into its base and its digits.  A mark letter counts only when a character
follows it. -/
def splitBase (cs : List Char) : Nat × List Char :=
  match cs with
  | '0' :: mark :: d :: rest =>
    match baseOfMark? mark with
    | some base => (base, d :: rest)
    | none => (8, mark :: d :: rest)
  | '0' :: rest => (8, rest)
  | _ => (10, cs)

/-- What the reader of underscores saw last. -/
inductive Seen
  | start
  | digit
  | underscore
  | other
deriving DecidableEq

/-- Whether every underscore stands after a digit and before one. -/
def underscoresSeparate (hex : Bool) : Seen → List Char → Bool
  | seen, [] => seen ≠ .underscore
  | seen, c :: rest =>
    if ('0' ≤ c ∧ c ≤ '9') ∨ (hex ∧ 'a' ≤ lower c ∧ lower c ≤ 'f') then
      underscoresSeparate hex .digit rest
    else if c = '_' then seen = .digit && underscoresSeparate hex .underscore rest
    else seen ≠ .underscore && underscoresSeparate hex .other rest

/-- Whether the underscores of a literal are well placed.  The sign does not count, and a base mark
counts as a digit. -/
def underscoresOk (cs : List Char) : Bool :=
  let body := match cs with
    | '+' :: rest => rest
    | '-' :: rest => rest
    | _ => cs
  match body with
  | '0' :: mark :: rest =>
    if (baseOfMark? mark).isSome then underscoresSeparate (lower mark = 'x') .digit rest
    else underscoresSeparate false .start body
  | _ => underscoresSeparate false .start body

/-! ### Readers -/

/-- Reads an unsigned number of at most `limit` in a fixed base. -/
def naturalInBase? (base limit : Nat) (cs : List Char) : Except NumeralFault Nat :=
  if cs.isEmpty then .error .malformed else digits? base limit false 0 cs

/-- Reads an unsigned number of at most `limit`, in the base that its mark says. -/
def natural? (limit : Nat) (cs : List Char) : Except NumeralFault Nat :=
  if cs.isEmpty then .error .malformed
  else
    let (base, body) := splitBase cs
    match digits? base limit true 0 body with
    | .error fault => .error fault
    | .ok n => if '_' ∈ body ∧ !underscoresOk cs then .error .malformed else .ok n

/-- The largest unsigned 64-bit number. -/
def maxWord : Nat := Nat.pow 2 64 - 1

/-- Splits a literal into its sign, `true` for minus, and the rest. -/
def splitSign : List Char → Bool × List Char
  | '+' :: rest => (false, rest)
  | '-' :: rest => (true, rest)
  | cs => (false, cs)

/-- Gives a magnitude its sign, within the range of a signed 64-bit number. -/
def signed64? (negative : Bool) : Except NumeralFault Nat → Except NumeralFault Int
  | .error fault => .error fault
  | .ok n =>
    if negative then
      if Nat.pow 2 63 < n then .error .outOfRange else .ok (-(n : Int))
    else if Nat.pow 2 63 ≤ n then .error .outOfRange else .ok n

/-- Reads a signed 64-bit number, in the base that its mark says. -/
def integer? (cs : List Char) : Except NumeralFault Int :=
  let (negative, body) := splitSign cs
  signed64? negative (natural? maxWord body)

/-- Reads a signed 64-bit number in a fixed base. -/
def integerInBase? (base : Nat) (cs : List Char) : Except NumeralFault Int :=
  let (negative, body) := splitSign cs
  signed64? negative (naturalInBase? base maxWord body)

/-! ### Writing -/

/-- A number in decimal. -/
def decimal (n : Nat) : String :=
  String.ofList (Nat.toDigits 10 n)

/-- A signed number in decimal. -/
def decimalInt (i : Int) : String :=
  if i < 0 then "-" ++ decimal i.natAbs else decimal i.natAbs

end KernelIR.Text
