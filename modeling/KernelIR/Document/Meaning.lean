import KernelIR.Document.Node
import KernelIR.Document.Timestamp
import KernelIR.Floating.Literal

/-!
# Meanings of scalars

What a scalar stands for besides its text: nothing, a number, a truth value or a time.  Only a plain
scalar is looked at that way, unless a tag declares what a scalar is; then it must be that, or the
document is not well formed.
-/

namespace KernelIR.Document

/-- What a scalar stands for. -/
inductive Meaning
  | null
  | text (s : String)
  | integer (v : Int)
  /-- a number with a fraction, given without it; infinities and what is no number have no value -/
  | real (truncated : Option Int)
  | truth
  | time
deriving DecidableEq, Repr

/-! ### Numbers -/

/-- Whether a character is a decimal digit. -/
def isDigit (c : Char) : Bool := '0' ≤ c && c ≤ '9'

/-- Whether a text is empty or a decimal exponent. -/
def isExponent : List Char → Bool
  | [] => true
  | e :: cs =>
    let digits := (Text.splitSign cs).2
    Text.lower e == 'e' && !digits.isEmpty && digits.all isDigit

/-- Whether a text is a decimal number with an optional fraction and exponent. -/
def isDecimal (cs : List Char) : Bool :=
  let cs := (Text.splitSign cs).2
  let whole := cs.takeWhile isDigit
  match cs.dropWhile isDigit with
  | '.' :: rest =>
    !(whole.isEmpty && (rest.takeWhile isDigit).isEmpty) && isExponent (rest.dropWhile isDigit)
  | rest => !whole.isEmpty && isExponent rest

/-- The value of a floating literal. -/
def real? (cs : List Char) : Option Meaning :=
  (Floating.literal? cs).toOption.map fun bits => .real (Floating.truncate bits)

/-- The value of an integer behind a binary or octal mark, where a sign may follow the mark. -/
def markedInteger? : List Char → Option Int
  | '0' :: 'b' :: cs => (Text.integerInBase? 2 cs).toOption
  | '0' :: 'o' :: cs => (Text.integerInBase? 8 cs).toOption
  | _ => none

/-- The value of an integer of 64 bits, with or without a sign. -/
def integer? (cs : List Char) : Option Int :=
  (Text.integer? cs).toOption <|> (Text.natural? Text.maxWord cs).toOption.map Int.ofNat

/-- The number that a plain scalar stands for.  Underscores between digits do not count, and a
leading zero makes an integer octal. -/
def number? (cs : List Char) : Option Meaning :=
  match cs with
  | [] => none
  | '.' :: _ => real? cs
  | c :: _ =>
    if isDigit c || c == '+' || c == '-' then
      let cs := cs.filter (· ≠ '_')
      (integer? cs).map .integer <|> (if isDecimal cs then real? cs else none) <|>
        (markedInteger? cs).map .integer
    else none

/-! ### Plain scalars -/

/-- The words that stand for nothing. -/
def nullWords : List String := ["", "~", "null", "Null", "NULL"]

/-- The words for truth values. -/
def truthWords : List String := ["true", "True", "TRUE", "false", "False", "FALSE"]

/-- The words for infinities and for what is no number. -/
def endlessWords : List String :=
  [".nan", ".NaN", ".NAN", ".inf", ".Inf", ".INF", "+.inf", "+.Inf", "+.INF", "-.inf", "-.Inf",
    "-.INF"]

/-- What a plain scalar stands for. -/
def plainMeaning (s : String) : Meaning :=
  if nullWords.contains s then .null
  else if truthWords.contains s then .truth
  else if endlessWords.contains s then .real none
  else if isTimestamp s.toList then .time
  else (number? s.toList).getD (.text s)

/-! ### Binary data -/

/-- The value of a digit of binary data, which has six bits. -/
def sextet? (c : Char) : Option Nat :=
  if 'A' ≤ c ∧ c ≤ 'Z' then some (c.toNat - 'A'.toNat)
  else if 'a' ≤ c ∧ c ≤ 'z' then some (c.toNat - 'a'.toNat + 26)
  else if '0' ≤ c ∧ c ≤ '9' then some (c.toNat - '0'.toNat + 52)
  else if c = '+' then some 62
  else if c = '/' then some 63
  else none

/-- The bytes of binary data, of which four digits give three; the last group is filled up with
equals signs. -/
def binary? : List Char → Option (List UInt8)
  | [] => some []
  | [a, b, '=', '='] => do
    let n := (← sextet? a) * 64 + (← sextet? b)
    return [UInt8.ofNat (n / 16)]
  | [a, b, c, '='] => do
    let n := ((← sextet? a) * 64 + (← sextet? b)) * 64 + (← sextet? c)
    return [UInt8.ofNat (n / 1024), UInt8.ofNat (n / 4)]
  | a :: b :: c :: d :: rest => do
    let n := (((← sextet? a) * 64 + (← sextet? b)) * 64 + (← sextet? c)) * 64 + (← sextet? d)
    return UInt8.ofNat (n / 65536) :: UInt8.ofNat (n / 256) :: UInt8.ofNat n :: (← binary? rest)
  | _ => none

/-! ### Tagged scalars -/

/-- Whether an integer fits 64 bits with a sign. -/
def isSigned64 (v : Int) : Bool :=
  -(Nat.pow 2 63 : Nat) ≤ v && v < (Nat.pow 2 63 : Nat)

/-- What a scalar stands for; nothing if it is not what its tag declares. -/
def meaning? (s : String) (tag : Tag) : Option Meaning :=
  match tag, plainMeaning s with
  | .plain, m => some m
  | .text, _ | .merge, _ | .other, _ => some (.text s)
  | .binary, _ =>
    (binary? (s.toList.filter fun c => c ≠ '\n' ∧ c ≠ '\r')).map fun bs =>
      .text (String.ofList (Text.decodeLossy bs))
  | .integer, .integer v => some (.integer v)
  | .float, .real r => some (.real r)
  | .float, .integer v => if isSigned64 v then some (.real (some v)) else none
  | .truth, .truth => some .truth
  | .null, .null => some .null
  | .time, .time => some .time
  | _, _ => none

end KernelIR.Document
