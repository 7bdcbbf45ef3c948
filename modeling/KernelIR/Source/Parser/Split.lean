import KernelIR.Source.LineError
import KernelIR.Text.Blank
import KernelIR.Text.Utf8

/-!
# Splitting the operands of a line

Operands are separated by the commas that stand outside all brackets.  Blanks around an operand and
one pair of parentheses around it do not belong to it.
-/

namespace KernelIR.Source

/-- Removes one opening parenthesis from the front and one closing parenthesis from the end. -/
def stripParens (cs : List Char) : List Char :=
  let inner := match cs with
    | '(' :: rest => rest
    | _ => cs
  if inner.getLast? = some ')' then inner.dropLast else inner

/-- The text of an operand without what surrounds it. -/
def operandText (cs : List Char) : List Char :=
  Text.trim (stripParens (Text.trim cs))

/-- The text of the operand that starts at a position, which must not be empty. -/
def finishOperand (start : Nat) (cs : List Char) : Except LineError (List Char) :=
  let text := operandText cs
  if text.isEmpty then .error (.emptyOperand start) else .ok text

/-- Splits what follows: `position` is the place of the next character, `start` that of the current
operand, `depth` the number of open brackets and `current` the operand so far, in reverse. -/
def splitFrom (position start depth : Nat) (current : List Char) :
    List Char → Except LineError (List (List Char))
  | [] => do
    let last ← finishOperand start current.reverse
    if depth = 0 then return [last] else throw .unclosed
  | c :: rest =>
    let next := position + c.utf8Size
    if c = '[' ∨ c = '(' ∨ c = '\x7b' then splitFrom next start (depth + 1) (c :: current) rest
    else if c = ']' ∨ c = ')' ∨ c = '\x7d' then
      if depth = 0 then .error (.unbalanced c position)
      else splitFrom next start (depth - 1) (c :: current) rest
    else if c = ',' ∧ depth = 0 then do
      let first ← finishOperand start current.reverse
      return first :: (← splitFrom next next 0 [] rest)
    else splitFrom next start depth (c :: current) rest

/-- What is left of a line's end without spaces and semicolons. -/
def dropTerminators (cs : List Char) : List Char :=
  (cs.reverse.dropWhile fun c => Text.isSpace c || c == ';').reverse

/-- Splits the rest of a line, which begins at `position`, into the texts of its operands. -/
def splitOperands (position : Nat) (rest : List Char) : Except LineError (List (List Char)) :=
  let start := position + Text.byteLength (rest.takeWhile Text.isSpace)
  let body := dropTerminators (rest.dropWhile Text.isSpace)
  if body.isEmpty then .ok [] else splitFrom start start 0 [] body

end KernelIR.Source
