/-!
# Binary floating-point formats

A format has a number of significand bits and a number of exponent bits.  The bits of a number
without its sign, its *magnitude*, order the non-negative numbers as integers do: the finite ones
come first, then infinity, then the NaNs.  `Format.decode` takes a finite magnitude apart into an
integer times a power of two, and `Format.round` gives the magnitude nearest to a ratio, a tie going
to the even neighbour.
-/

namespace KernelIR.Floating

/-- A binary format: bits of significand, the leading one included, and bits of exponent. -/
structure Format where
  precision : Nat
  exponentBits : Nat
deriving DecidableEq, Repr

/-- Single precision. -/
def Format.binary32 : Format := ⟨24, 8⟩

/-- Double precision. -/
def Format.binary64 : Format := ⟨53, 11⟩

namespace Format

/-- The number of magnitudes that share an exponent field. -/
def stride (f : Format) : Nat := Nat.pow 2 (f.precision - 1)

/-- The exponent of the last bit of the smallest numbers. -/
def minExponent (f : Format) : Int :=
  3 - Nat.pow 2 (f.exponentBits - 1) - f.precision

/-- The magnitude of infinity. -/
def infinity (f : Format) : Nat := (Nat.pow 2 f.exponentBits - 1) * f.stride

/-- The bit that holds the sign. -/
def signBit (f : Format) : Nat := Nat.pow 2 f.exponentBits * f.stride

/-- A finite magnitude as `m · 2 ^ e`. -/
def decode (f : Format) (magnitude : Nat) : Nat × Int :=
  let field := magnitude / f.stride
  let fraction := magnitude % f.stride
  if field = 0 then (fraction, f.minExponent)
  else (f.stride + fraction, f.minExponent + (field - 1 : Nat))

/-- The integer nearest to `num / den`, a tie going to the even one. -/
def roundDiv (num den : Nat) : Nat :=
  let q := num / den
  let r := num % den
  if den < 2 * r ∨ (2 * r = den ∧ q % 2 = 1) then q + 1 else q

/-- `num / den` in units of `2 ^ e`, as a ratio of integers. -/
def scale (num den : Nat) (e : Int) : Nat × Nat :=
  (num * Nat.pow 2 (-e).toNat, den * Nat.pow 2 e.toNat)

/-- The magnitude nearest to `num / den`.  The last bit gets the exponent that leaves `precision`
bits before it, but none below the smallest; a significand that rounds up to the next power of two
carries into the exponent field by itself. -/
def round (f : Format) (num den : Nat) : Nat :=
  if num = 0 then 0
  else
    let guess : Int := (Nat.log2 num : Int) - Nat.log2 den - f.precision
    let low := max f.minExponent guess
    let (n, d) := scale num den low
    let e := if Nat.pow 2 f.precision ≤ n / d then low + 1 else low
    let (n, d) := scale num den e
    min f.infinity ((e - f.minExponent).toNat * f.stride + roundDiv n d)

/-- The magnitude in format `g` of a magnitude in format `f`.  Infinity stays infinity and a NaN
stays a NaN. -/
def convert (f g : Format) (magnitude : Nat) : Nat :=
  if f.infinity < magnitude then g.infinity + g.stride / 2
  else if magnitude = f.infinity then g.infinity
  else
    let (m, e) := f.decode magnitude
    let (n, d) := scale m 1 (-e)
    g.round n d

end Format

end KernelIR.Floating
