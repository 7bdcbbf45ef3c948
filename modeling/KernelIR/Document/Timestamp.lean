/-!
# Timestamps

The dates and times that a scalar may stand for: a date, or a date and a time behind a blank, or
both joined by the letter T and followed by a zone.  Months, days, hours, minutes and seconds take
one or two digits; a fraction of a second may have any number of them.
-/

namespace KernelIR.Document.Timestamp

/-- What remains behind a part of a timestamp. -/
abbrev Rest := List Char

/-- Whether a character is a decimal digit. -/
def isDigit (c : Char) : Bool := '0' ≤ c && c ≤ '9'

/-- Passes over a character. -/
def pass (mark : Char) : List Char → Option Rest
  | c :: cs => if c = mark then some cs else none
  | [] => none

/-- The number that digits spell. -/
def valueOf (digits : List Char) : Nat :=
  digits.foldl (fun n c => n * 10 + (c.toNat - '0'.toNat)) 0

/-- Reads a number of one or two digits. -/
def short? : List Char → Option (Nat × Rest)
  | a :: b :: cs =>
    if !isDigit a then none
    else if isDigit b then some (valueOf [a, b], cs)
    else some (valueOf [a], b :: cs)
  | [a] => if isDigit a then some (valueOf [a], []) else none
  | [] => none

/-- Reads a number of one or two digits below a limit. -/
def below? (limit : Nat) (cs : List Char) : Option Rest := do
  let (n, cs) ← short? cs
  if n < limit then some cs else none

/-- The number of days of a month. -/
def daysIn (year month : Nat) : Nat :=
  if month = 2 then
    if year % 4 = 0 ∧ (year % 100 ≠ 0 ∨ year % 400 = 0) then 29 else 28
  else if [4, 6, 9, 11].contains month then 30
  else 31

/-- Reads a date. -/
def date? (cs : List Char) : Option Rest := do
  let year := cs.take 4
  if year.length ≠ 4 ∨ !year.all isDigit then none
  let (month, cs) ← short? (← pass '-' (cs.drop 4))
  let (day, cs) ← short? (← pass '-' cs)
  if 1 ≤ month ∧ month ≤ 12 ∧ 1 ≤ day ∧ day ≤ daysIn (valueOf year) month then some cs else none

/-- Passes over a fraction, if there is one. -/
def skipFraction : List Char → Rest
  | mark :: d :: cs =>
    if (mark = '.' ∨ mark = ',') ∧ isDigit d then cs.dropWhile isDigit else mark :: d :: cs
  | cs => cs

/-- Reads a time of day. -/
def clock? (cs : List Char) : Option Rest := do
  let cs ← pass ':' (← below? 24 cs)
  let cs ← pass ':' (← below? 60 cs)
  return skipFraction (← below? 60 cs)

/-- Whether a text is a zone: the letter Z, or an offset in hours and minutes. -/
def isZone : List Char → Bool
  | ['Z'] => true
  | [sign, h₁, h₂, ':', m₁, m₂] =>
    (sign == '+' || sign == '-') && [h₁, h₂, m₁, m₂].all isDigit &&
      valueOf [h₁, h₂] ≤ 24 && valueOf [m₁, m₂] ≤ 60
  | _ => false

end KernelIR.Document.Timestamp

namespace KernelIR.Document

/-- Whether a text is a timestamp. -/
def isTimestamp (cs : List Char) : Bool :=
  match Timestamp.date? cs with
  | none => false
  | some [] => true
  | some (mark :: cs) =>
    match Timestamp.clock? cs with
    | none => false
    | some rest =>
      if mark = ' ' then rest.isEmpty else (mark == 'T' || mark == 't') && Timestamp.isZone rest

end KernelIR.Document
