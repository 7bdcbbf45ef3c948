import KernelIR.Floating.Format
import KernelIR.Text.Numeral

/-!
# The shortest decimal of a float

A float stands for an interval of reals that round to it; the ends belong to it when the significand
is even.  `shortest` gives the decimal `n · 10 ^ k` in that interval with the fewest digits and,
among those, the one nearest to the float: it looks at the grids of multiples of `10 ^ k` from the
coarsest, and on each at the two neighbours of the float.  `render` lays the digits out: positional
for decimal exponents from `-4` to `5`, and with an exponent of at least two digits elsewhere.
-/

namespace KernelIR.Floating

/-! ### Digits -/

/-- The interval of reals that round to a float, in quarters of its last bit: the float is
`centre · 2 ^ exponent`. -/
structure Interval where
  low : Nat
  centre : Nat
  high : Nat
  closed : Bool
  exponent : Int
deriving Repr

/-- The interval of the positive float `m · 2 ^ e`.  Below a power of two the neighbour is half as
far away, unless the exponent is the smallest. -/
def Format.interval (f : Format) (m : Nat) (e : Int) : Interval :=
  let gap := if m = f.stride ∧ f.minExponent < e then 1 else 2
  { low := 4 * m - gap, centre := 4 * m, high := 4 * m + 2, closed := m % 2 = 0, exponent := e - 2 }

/-- The multiple of `10 ^ k` in the interval that is nearest to its centre, a tie going to the even
multiple. -/
def Interval.nearest? (i : Interval) (k : Int) : Option Nat :=
  let unit := Nat.pow 2 i.exponent.toNat * Nat.pow 10 (-k).toNat
  let step := Nat.pow 10 k.toNat * Nat.pow 2 (-i.exponent).toNat
  let below := i.centre * unit / step
  let above := below + 1
  let fits (n : Nat) : Bool :=
    if i.closed then i.low * unit ≤ n * step && n * step ≤ i.high * unit
    else i.low * unit < n * step && n * step < i.high * unit
  let down := i.centre * unit - below * step
  let up := above * step - i.centre * unit
  match fits below, fits above with
  | true, true => some (if up < down ∨ (up = down ∧ below % 2 = 1) then above else below)
  | true, false => some below
  | false, true => some above
  | false, false => none

/-- A bound on the decimal exponent of `m · 2 ^ e`, at most two above it. -/
def decimalBound (m : Nat) (e : Int) : Int :=
  ((Nat.log2 m : Int) + 1 + e) * 30103 / 100000 + 1

/-- The shortest decimal `n · 10 ^ k` that rounds to the positive float `m · 2 ^ e`. -/
def shortest (f : Format) (m : Nat) (e : Int) : Nat × Int :=
  let i := f.interval m e
  let top := decimalBound m e
  ((List.range 24).findSome? fun j =>
    let k := top - (j : Nat)
    (i.nearest? k).map (·, k)).getD (m, 0)

/-! ### Layout -/

/-- How decimals are laid out: the range of exponents that are written positionally, and the least
number of digits of a written exponent. -/
structure Layout where
  minPositional : Int
  maxPositional : Int
  exponentDigits : Nat

/-- Positional from `0.0001` up to six digits before the point; exponents have two digits. -/
def Layout.general : Layout := ⟨-4, 5, 2⟩

/-- The digits `ds` with the point after `exponent + 1` of them. -/
def positional (ds : List Char) (exponent : Int) : List Char :=
  if exponent < 0 then
    '0' :: '.' :: List.replicate (-exponent - 1).toNat '0' ++ ds
  else
    let whole := exponent.toNat + 1
    let padded := ds ++ List.replicate (whole - ds.length) '0'
    let fraction := padded.drop whole
    padded.take whole ++ if fraction.isEmpty then [] else '.' :: fraction

/-- The digits `ds` with the point after the first, and the exponent behind. -/
def scientific (width : Nat) (ds : List Char) (exponent : Int) : List Char :=
  let fraction := ds.drop 1
  let digits := Nat.toDigits 10 exponent.natAbs
  ds.take 1 ++ (if fraction.isEmpty then [] else '.' :: fraction) ++
    'e' :: (if exponent < 0 then '-' else '+') ::
      List.replicate (width - digits.length) '0' ++ digits

/-- A decimal `n · 10 ^ k` as text. -/
def Layout.write (l : Layout) (n : Nat) (k : Int) : List Char :=
  let ds := Nat.toDigits 10 n
  let exponent := k + ds.length - 1
  if exponent < l.minPositional ∨ l.maxPositional < exponent then
    scientific l.exponentDigits ds exponent
  else positional ds exponent

/-- The text of the float with the given bits. -/
def render (f : Format) (bits : Nat) : String :=
  let magnitude := bits % f.signBit
  let sign := if magnitude = bits then "" else "-"
  if f.infinity < magnitude then "NaN"
  else if magnitude = f.infinity then if magnitude = bits then "+Inf" else "-Inf"
  else if magnitude = 0 then sign ++ "0"
  else
    let (m, e) := f.decode magnitude
    let (n, k) := shortest f m e
    sign ++ String.ofList (Layout.general.write n k)

end KernelIR.Floating
