import KernelIR.Source.Parser.Mnemonic
import KernelIR.Source.Parser.Operand
import KernelIR.Source.Parser.Split

/-!
# Reading an instruction line

    [@[!]%p] opcode[.suffix...] [operand[, operand...]][;]

Everything from `//` on is a comment.  `Scope.parse` reads a line in the scope of a kernel and gives
the instruction or the reason why there is none, together with the scope after it.
-/

namespace KernelIR.Source

/-- A line up to its comment. -/
def beforeComment : List Char → List Char
  | [] => []
  | [c] => [c]
  | c :: d :: rest => if c = '/' ∧ d = '/' then [] else c :: beforeComment (d :: rest)

/-- Reads the predicate of a guard, and gives what follows it. -/
def readPredicate (inverse : Bool) (cs : List Char) : Reader LineError (Guard × List Char) := do
  let text := cs.takeWhile (!Text.isSpace ·)
  let rest := cs.dropWhile (!Text.isSpace ·)
  let name := String.ofList text
  if name = "pt" then return (if inverse then .never else .always, rest)
  if text.head? ≠ some '%' ∨ text.length = 1 then throw (.predicateExpected text)
  let r : RegisterUse := ⟨← internName name, name⟩
  return (if inverse then .inverse r else .straight r, rest)

/-- Reads the guard behind its `@`, and gives what follows it. -/
def readGuard : List Char → Reader LineError (Guard × List Char)
  | '!' :: rest => readPredicate true rest
  | cs => readPredicate false cs

/-- Reads an optional guard. -/
def readGuard? (cs : List Char) : Reader LineError (Guard × List Char) :=
  match cs with
  | '@' :: rest => readGuard rest
  | _ => return (.always, cs)

/-- Reads the operands of a mnemonic from the `j`-th on. -/
def readOperands (m : Mnemonic) : Nat → List (List Char) → Reader LineError (List Operand)
  | _, [] => return []
  | j, s :: rest => do
    let x ← (readOperand (m.operandType j) m.opcode.takesLabel s).adapt (LineError.operand j)
    return x :: (← readOperands m (j + 1) rest)

/-- Whether a mnemonic ends before the character. -/
def endsMnemonic (c : Char) : Bool :=
  Text.isSpace c || c == ';'

/-- Reads a line without its comment. -/
def readLine (cs : List Char) : Reader LineError Instruction := do
  let (guard, rest) ← readGuard? (cs.dropWhile Text.isSpace)
  let rest := rest.dropWhile Text.isSpace
  let word := rest.takeWhile (!endsMnemonic ·)
  let tail := rest.dropWhile (!endsMnemonic ·)
  if word.isEmpty then throw .opcodeExpected
  let m ← liftM (mnemonic? word)
  let texts ← liftM (splitOperands (Text.byteLength cs - Text.byteLength tail) tail)
  if 4 < texts.length then throw (.tooManyOperands texts.length)
  let xs ← readOperands m 0 texts
  return { m with guard, d := xs[0]?, a := xs[1]?, b := xs[2]?, c := xs[3]? }

/-- Reads an instruction line in the scope of a kernel. -/
def Scope.parse (s : Scope) (line : String) : Except ParseError Instruction × Scope :=
  let (result, s) := (readLine (beforeComment line.toList)).run.run s
  (result.mapError (⟨line.toList, ·⟩), s)

end KernelIR.Source
