import KernelIR.Document.Cursor
import KernelIR.Text.Numeral

/-!
# Scalars

The three ways to write a text in a document: plain, quoted, and as an indented block.  A line end
inside a plain or quoted scalar reads as a space, and `n + 1` line ends in a row as `n`; blanks
around them vanish.  Block scalars keep their lines (`|`) or fold them (`>`), and a chomping mark
decides what becomes of the line ends at their end.  Each reader gives the text and leaves the
cursor behind it, or refuses a scalar that is not well formed; as `steps` it takes a number above
that of the characters that remain.  Texts are gathered in pieces, the latest first.
-/

namespace KernelIR.Document

open Scan

/-! ### Gaps -/

/-- What was passed over since the last word: nothing, blanks, or line ends, of which the first is
kept apart.  Blanks and further line ends stand with the latest first. -/
inductive Gap
  | none
  | blanks (back : List Char)
  | breaks (first back : List Char)

/-- Whether a gap holds a line end. -/
def Gap.hasBreak : Gap → Bool
  | breaks .. => true
  | none | blanks _ => false

/-- What a gap reads as when a word follows it. -/
def Gap.text : Gap → List Char
  | none => []
  | blanks back => back.reverse
  | breaks first back =>
    if first.head? = some '\n' then if back.isEmpty then [' '] else back.reverse
    else first ++ back.reverse

/-- Adds a blank to a gap.  Blanks after a line end do not count. -/
def Gap.addBlank (g : Gap) (c : Char) : Gap :=
  match g with
  | none => blanks [c]
  | blanks back => blanks (c :: back)
  | breaks first back => breaks first back

/-- Adds a line end to a gap.  Blanks before it do not count. -/
def Gap.addBreak (g : Gap) (cs : List Char) : Gap :=
  match g with
  | none | blanks _ => breaks cs []
  | breaks first back => breaks first (cs ++ back)

/-- Reads blanks and line ends onto a gap.  After a line end, a tab left of `indent` is refused. -/
def readGap (indent : Int) : (steps : Nat) → Gap → Scan Gap
  | 0, _ => failure
  | steps + 1, g => do
    let c ← get
    match c.rest.head? with
    | none => return g
    | some ch =>
      if isBlank ch then
        if g.hasBreak ∧ c.column < indent ∧ ch = '\t' then failure
        else
          skip
          need 1
          readGap indent steps (g.addBlank ch)
      else if isBreak ch then
        need 2
        let cs ← readBreak
        need 1
        readGap indent steps (g.addBreak cs)
      else return g

/-! ### Plain scalars -/

/-- Whether a word of a plain scalar ends here. -/
def endsPlain (inFlow : Bool) (cs : List Char) : Bool :=
  match cs with
  | [] => true
  | c :: rest =>
    isBlank c || isBreak c || (c == ':' && endsWord rest) ||
      (inFlow && (c == ',' || c == '?' || c == '[' || c == ']' || c == '\x7b' || c == '\x7d'))

/-- Reads the words of a plain scalar.  It goes on over lines that are indented, and stops at a
comment and at a document marker.  Also tells whether it ended behind a line end. -/
def readPlainWords (inFlow : Bool) (indent : Int) :
    (steps : Nat) → (pieces : List (List Char)) → Gap → Scan (List (List Char) × Bool)
  | 0, _, _ => failure
  | steps + 1, pieces, gap => do
    need 4
    let c ← get
    if c.atDocumentMarker || c.next (· == '#') then return (pieces, gap.hasBreak)
    else
      let word ← readOn (endsPlain inFlow) 2 steps []
      let (pieces, gap) :=
        if word.isEmpty then (pieces, gap) else (word :: gap.text :: pieces, Gap.none)
      if ← next fun ch => isBlank ch || isBreak ch then
        need 1
        let gap ← readGap indent steps gap
        let c ← get
        if !inFlow ∧ c.column < indent then return (pieces, gap.hasBreak)
        else readPlainWords inFlow indent steps pieces gap
      else return (pieces, gap.hasBreak)

/-- Reads a plain scalar inside a block indented by `indent`. -/
def readPlain (inFlow : Bool) (indent : Int) (steps : Nat) : Scan (List Char × Bool) := do
  let (pieces, broken) ← readPlainWords inFlow (indent + 1) steps [] .none
  return (pieces.reverse.flatten, broken)

/-! ### Quoted scalars -/

/-- The number that exactly `count` hexadecimal digits spell at the start of a text. -/
def hexDigits? (count : Nat) (cs : List Char) : Option Nat :=
  if (cs.take count).length < count then none
  else (cs.take count).foldlM (fun n c =>
    (Text.digitValue? c).bind fun d => if d < 16 then some (n * 16 + d) else none) 0

/-- The character that a letter behind a backslash stands for. -/
def escaped? : Char → Option Char
  | '0' => some '\x00'
  | 'a' => some '\x07'
  | 'b' => some '\x08'
  | 't' | '\t' => some '\t'
  | 'n' => some '\n'
  | 'v' => some '\x0b'
  | 'f' => some '\x0c'
  | 'r' => some '\r'
  | 'e' => some '\x1b'
  | ' ' => some ' '
  | '"' => some '"'
  | '\'' => some '\''
  | '\\' => some '\\'
  | 'N' => some '\u0085'
  | '_' => some '\u00a0'
  | 'L' => some '\u2028'
  | 'P' => some '\u2029'
  | _ => none

/-- How many hexadecimal digits follow a letter behind a backslash. -/
def escapeDigits? : Char → Option Nat
  | 'x' => some 2
  | 'u' => some 4
  | 'U' => some 8
  | _ => none

/-- Reads the digits of an escape sequence as the number of a character. -/
def readNumbered (count : Nat) : Scan Char := do
  need count
  let c ← get
  match hexDigits? count c.rest with
  | none => failure
  | some n =>
    if (0xD800 ≤ n ∧ n ≤ 0xDFFF) ∨ 0x10FFFF < n then failure
    else
      skipMany count
      return Char.ofNat n

/-- Reads an escape sequence from its backslash on. -/
def readEscape : Scan Char := do
  skip
  let c ← get
  match c.rest.head? with
  | none => failure
  | some ch =>
    skip
    match escapeDigits? ch with
    | some count => readNumbered count
    | none => liftM (escaped? ch)

/-- Reads the characters of a double-quoted scalar up to a blank, a line end or the closing quote;
`read` is what was read so far, the latest first.  Also tells whether it stopped behind an escaped
line end. -/
def readDoublePiece : (steps : Nat) → (read : List Char) → Scan (List Char × Bool)
  | 0, _ => failure
  | steps + 1, read => do
    let c ← get
    match c.rest with
    | [] => return (read.reverse, false)
    | ch :: rest =>
      if isBlank ch || isBreak ch || ch == '"' then return (read.reverse, false)
      else if ch = '\\' then
        if rest.head?.any isBreak then
          need 3
          skip
          skipBreak
          return (read.reverse, true)
        else
          let out ← readEscape
          need 2
          readDoublePiece steps (out :: read)
      else
        skip
        need 2
        readDoublePiece steps (ch :: read)

/-- Reads the characters of a single-quoted scalar up to a blank, a line end or the closing quote,
which is a quote that is not doubled. -/
def readSinglePiece : (steps : Nat) → (read : List Char) → Scan (List Char)
  | 0, _ => failure
  | steps + 1, read => do
    let c ← get
    match c.rest with
    | [] => return read.reverse
    | '\'' :: '\'' :: _ =>
      skipMany 2
      need 2
      readSinglePiece steps ('\'' :: read)
    | ch :: _ =>
      if isBlank ch || isBreak ch || ch == '\'' then return read.reverse
      else
        skip
        need 2
        readSinglePiece steps (ch :: read)

/-- Reads a piece of a scalar in the given quotes. -/
def readPiece (mark : Char) (steps : Nat) : Scan (List Char × Bool) :=
  if mark = '"' then readDoublePiece steps []
  else do return (← readSinglePiece steps [], false)

/-- Reads a quoted scalar behind its opening quote. -/
def readQuotedPieces (mark : Char) :
    (steps : Nat) → (pieces : List (List Char)) → Scan (List (List Char))
  | 0, _ => failure
  | steps + 1, pieces => do
    need 4
    let c ← get
    if c.atDocumentMarker || c.rest.isEmpty then failure
    else
      let (piece, broken) ← readPiece mark steps
      need 1
      if ← next (· == mark) then
        skip
        return piece :: pieces
      else
        let gap ← readGap 0 steps (if broken then .breaks [] [] else .none)
        readQuotedPieces mark steps (gap.text :: piece :: pieces)

/-- Reads a quoted scalar from its opening quote on. -/
def readQuoted (mark : Char) (steps : Nat) : Scan (List Char) := do
  skip
  return (← readQuotedPieces mark steps []).reverse.flatten

/-! ### Block scalars -/

/-- What becomes of the line ends at the end of a block scalar. -/
inductive Chomping
  | strip
  | clip
  | keep
deriving DecidableEq

/-- The chomping that a mark asks for. -/
def chomping? : Char → Option Chomping
  | '+' => some .keep
  | '-' => some .strip
  | _ => none

/-- The indentation that a digit asks for. -/
def increment? (c : Char) : Option Nat :=
  if '0' ≤ c ∧ c ≤ '9' then some (c.toNat - '0'.toNat) else none

/-- Reads a chomping mark, if there is one. -/
def readChomping : Scan (Option Chomping) := do
  need 1
  let mark := (← get).rest.head?.bind chomping?
  if mark.isSome then skip
  return mark

/-- Reads an indentation digit, which may not be zero.  No digit is given as zero. -/
def readIncrement : Scan Nat := do
  need 1
  match (← get).rest.head?.bind increment? with
  | none => return 0
  | some 0 => failure
  | some n =>
    skip
    return n

/-- Reads the header of a block scalar behind its indicator: a chomping mark and an indentation
digit in either order. -/
def readHeader : Scan (Chomping × Nat) := do
  match ← readChomping with
  | some chomping => return (chomping, ← readIncrement)
  | none =>
    let increment ← readIncrement
    if increment = 0 then return (.clip, 0)
    else return ((← readChomping).getD .clip, increment)

/-- Passes over blanks and a comment up to the end of the line, which must come next. -/
def skipToLineEnd (steps : Nat) : Scan Unit := do
  skipWhile isBlank steps
  if ← next (· == '#') then skipLine steps
  let c ← get
  if !c.atLineEnd then failure
  if c.next isBreak then
    need 2
    skipBreak

/-- Passes over at most `most` spaces. -/
def skipSpaces : (most : Nat) → Scan Unit
  | 0 => return
  | most + 1 => do
    if ← next (· == ' ') then
      skip
      need 1
      skipSpaces most

/-- Reads the indentation and the empty lines before a line of a block scalar: the line ends, the
latest first, and the widest indentation seen.  With `indent` zero, any indentation is passed over.
-/
def readIndentation (indent : Nat) :
    (steps : Nat) → (breaks : List Char) → (widest : Nat) → Scan (List Char × Nat)
  | 0, _, _ => failure
  | steps + 1, breaks, widest => do
    need 1
    let c ← get
    skipSpaces (if indent = 0 then steps else indent - c.column)
    let c ← get
    let widest := max widest c.column
    if (indent = 0 ∨ c.column < indent) ∧ c.next (· == '\t') then failure
    else if c.next isBreak then
      need 2
      let cs ← readBreak
      readIndentation indent steps (cs ++ breaks) widest
    else return (breaks, widest)

/-- Reads the lines of a block scalar indented by `indent`.  `lineBreak` and `breaks` are the end of
the line before and the empty lines after it; `wasBlank` tells whether that line began with a
blank. -/
def readBlockLines (folded : Bool) (indent : Nat) :
    (steps : Nat) → (pieces : List (List Char)) → (lineBreak breaks : List Char) →
      (wasBlank : Bool) → Scan (List (List Char) × List Char × List Char)
  | 0, _, _, _, _ => failure
  | steps + 1, pieces, lineBreak, breaks, wasBlank => do
    let c ← get
    if c.column ≠ indent ∨ c.rest.isEmpty then return (pieces, lineBreak, breaks)
    else
      let blank := c.next isBlank
      let joint :=
        if folded ∧ !wasBlank ∧ !blank ∧ lineBreak.head? = some '\n' then
          if breaks.isEmpty then [' '] else []
        else lineBreak
      let line ← readWhile (!isBreak ·) steps
      need 2
      let lineBreak ← readBreak
      let (more, _) ← readIndentation indent steps [] 0
      let pieces := line :: breaks :: joint :: pieces
      readBlockLines folded indent steps pieces lineBreak more.reverse blank

/-- Reads a block scalar from its indicator on, inside a block indented by `parent`. -/
def readBlock (folded : Bool) (parent : Int) (steps : Nat) : Scan (List Char) := do
  skip
  let (chomping, increment) ← readHeader
  skipToLineEnd steps
  let given := if increment = 0 then 0 else (max parent 0).toNat + increment
  let (breaks, widest) ← readIndentation given steps [] 0
  let indent := if given = 0 then max widest (max (parent + 1) 1).toNat else given
  need 1
  let (pieces, lineBreak, breaks) ←
    readBlockLines folded indent steps [] [] breaks.reverse false
  let tail := match chomping with
    | .strip => []
    | .clip => lineBreak
    | .keep => lineBreak ++ breaks
  return (tail :: pieces).reverse.flatten

end KernelIR.Document
