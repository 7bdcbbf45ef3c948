import KernelIR.Text.Printable

/-!
# Quoted text

Messages show pieces of input between double quotes.  A printable character stands for itself, the
quote and the backslash are escaped, seven controls have a letter, and every other character is
written by its code point in hexadecimal: `\xNN` for the remaining ASCII controls, `\uNNNN` below
U+10000 and `\UNNNNNNNN` above.
-/

namespace KernelIR.Text

/-- A number in lower-case hexadecimal, with zeros in front up to `width` digits. -/
def hexPadded (width n : Nat) : List Char :=
  let digits := Nat.toDigits 16 n
  List.replicate (width - digits.length) '0' ++ digits

/-- The letter of a control character that is escaped by a letter. -/
def controlLetter? (c : Char) : Option Char :=
  match c.toNat with
  | 7 => some 'a'
  | 8 => some 'b'
  | 9 => some 't'
  | 10 => some 'n'
  | 11 => some 'v'
  | 12 => some 'f'
  | 13 => some 'r'
  | _ => none

/-- A character as quoted text writes it. -/
def escape (c : Char) : List Char :=
  if c = '"' ∨ c = '\\' then ['\\', c]
  else if isPrintable c then [c]
  else match controlLetter? c with
    | some letter => ['\\', letter]
    | none =>
      if c.toNat < 0x80 then '\\' :: 'x' :: hexPadded 2 c.toNat
      else if c.toNat < 0x10000 then '\\' :: 'u' :: hexPadded 4 c.toNat
      else '\\' :: 'U' :: hexPadded 8 c.toNat

/-- A text between double quotes, with its special characters escaped. -/
def quote (cs : List Char) : String :=
  "\"" ++ String.ofList (cs.flatMap escape) ++ "\""

/-- A single character between single quotes. -/
def quoteChar (c : Char) : String :=
  "'" ++ String.singleton c ++ "'"

end KernelIR.Text
