import KernelIR.Floating.Format
import KernelIR.Text.Numeral

/-!
# Float literals

`literal?` reads a float literal as the nearest double: digits with an optional point and an
optional decimal exponent; or, behind `0x`, hexadecimal digits with an obligatory binary exponent;
or the name of an infinity.  Underscores stand between digits as in integer numerals.  A literal
beyond the largest double is out of range; one below the smallest reads as zero.
-/

namespace KernelIR.Floating

open Text (NumeralFault lower)

/-! ### Parts of a literal -/

/-- The digits read so far: their value, how many stand after the point, and what was met. -/
structure Mantissa where
  value : Nat := 0
  fraction : Nat := 0
  sawDigit : Bool := false
  sawPoint : Bool := false
  sawUnderscore : Bool := false

/-- Adds a digit. -/
def Mantissa.push (m : Mantissa) (base d : Nat) : Mantissa :=
  { m with
    value := m.value * base + d
    fraction := if m.sawPoint then m.fraction + 1 else m.fraction
    sawDigit := true }

/-- Reads digits, one point and underscores, and stops at anything else. -/
def mantissa (base : Nat) : Mantissa → List Char → Mantissa × List Char
  | m, [] => (m, [])
  | m, c :: rest =>
    if c = '_' then mantissa base { m with sawUnderscore := true } rest
    else if c = '.' then
      if m.sawPoint then (m, c :: rest) else mantissa base { m with sawPoint := true } rest
    else match Text.digitValue? c with
      | some d => if d < base then mantissa base (m.push base d) rest else (m, c :: rest)
      | none => (m, c :: rest)

/-- Reads the digits of an exponent.  Beyond five digits the exact number no longer matters. -/
def exponentDigits : Nat → Bool → List Char → Nat × Bool × List Char
  | e, underscore, [] => (e, underscore, [])
  | e, underscore, c :: rest =>
    if c = '_' then exponentDigits e true rest
    else if '0' ≤ c ∧ c ≤ '9' then
      exponentDigits (if e < 10000 then e * 10 + (c.toNat - '0'.toNat) else e) underscore rest
    else (e, underscore, c :: rest)

/-- Reads the exponent behind its mark: the number, whether it holds an underscore, and the rest. -/
def exponent? (cs : List Char) : Option (Int × Bool × List Char) :=
  let (negative, body) := Text.splitSign cs
  match body with
  | c :: _ =>
    if '0' ≤ c ∧ c ≤ '9' then
      let (e, underscore, rest) := exponentDigits 0 false body
      some (if negative then -(e : Int) else e, underscore, rest)
    else none
  | [] => none

/-! ### Values -/

/-- The double nearest to `value · 10 ^ e`.  Numbers far outside the range need no powers. -/
def ofDecimal (value : Nat) (e : Int) : Nat :=
  let top := ((Nat.toDigits 10 value).length : Int) + e
  if value = 0 ∨ top < -330 then 0
  else if 310 < top then Format.binary64.infinity
  else Format.binary64.round (value * Nat.pow 10 e.toNat) (Nat.pow 10 (-e).toNat)

/-- The double nearest to `value · 2 ^ e`. -/
def ofBinary (value : Nat) (e : Int) : Nat :=
  let top := (Nat.log2 value : Int) + 1 + e
  if value = 0 ∨ top < -1100 then 0
  else if 1100 < top then Format.binary64.infinity
  else Format.binary64.round (value * Nat.pow 2 e.toNat) (Nat.pow 2 (-e).toNat)

/-- The magnitude of a literal without its sign; `whole` is the literal with it, on which the place
of underscores is judged. -/
def magnitude? (whole cs : List Char) : Except NumeralFault Nat :=
  let (hex, body) := match cs with
    | '0' :: x :: d :: rest => if lower x = 'x' then (true, d :: rest) else (false, cs)
    | _ => (false, cs)
  let (m, rest) := mantissa (if hex then 16 else 10) {} body
  let tail : Option (Int × Bool × List Char) :=
    match rest with
    | c :: more => if lower c = (if hex then 'p' else 'e') then exponent? more else none
    | [] => if hex then none else some (0, false, [])
  match tail with
  | some (e, underscore, []) =>
    if !m.sawDigit || ((m.sawUnderscore || underscore) && !Text.underscoresOk whole) then
      .error .malformed
    else
      let magnitude :=
        if hex then ofBinary m.value (e - 4 * m.fraction) else ofDecimal m.value (e - m.fraction)
      if Format.binary64.infinity ≤ magnitude then .error .outOfRange else .ok magnitude
  | _ => .error .malformed

/-- Whether the text, in any case, is a name of infinity. -/
def namesInfinity (cs : List Char) : Bool :=
  let l := String.ofList (cs.map lower)
  l == "inf" || l == "infinity"

/-- Reads a float literal as the bits of the nearest double. -/
def literal? (cs : List Char) : Except NumeralFault Nat :=
  let (negative, body) := Text.splitSign cs
  let signed (magnitude : Nat) : Nat :=
    if negative then Format.binary64.signBit + magnitude else magnitude
  if namesInfinity body then .ok (signed Format.binary64.infinity)
  else if String.ofList (cs.map lower) == "nan" then
    -- quiet, and the lowest bit is set
    .ok (Format.binary64.infinity + Format.binary64.stride / 2 + 1)
  else (magnitude? cs body).map signed

/-- The bits in single precision of a double. -/
def toSingle (bits : Nat) : Nat :=
  let magnitude := bits % Format.binary64.signBit
  let single := Format.binary64.convert Format.binary32 magnitude
  if magnitude = bits then single else Format.binary32.signBit + single

/-- The integer part of a finite double, towards zero. -/
def truncate (bits : Nat) : Option Int :=
  let magnitude := bits % Format.binary64.signBit
  if Format.binary64.infinity ≤ magnitude then none
  else
    let (m, e) := Format.binary64.decode magnitude
    let whole : Int := (m * Nat.pow 2 e.toNat / Nat.pow 2 (-e).toNat : Nat)
    some (if magnitude = bits then whole else -whole)

end KernelIR.Floating
