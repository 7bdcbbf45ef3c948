/-!
# Positions in a document

A cursor is what remains of a document's text together with its place: line, column and index count
characters from zero.  Line ends are LF, CR, CR LF and the three Unicode line ends; all but the
line and paragraph separators read as LF.

A text is not taken in at once but in windows of 512 bytes, when a reader asks for characters that
are not at hand (`Cursor.need`).  So a forbidden character is a fault only for those who come near
it: it spoils its whole window, and a reader that never asks for that window never learns of it.
-/

namespace KernelIR.Document

/-! ### Characters -/

/-- Space and tab. -/
def isBlank (c : Char) : Bool :=
  c == ' ' || c == '\t'

/-- The line ends of Unicode, which take more than one byte. -/
def isWideBreak (c : Char) : Bool :=
  c == '\u0085' || c == '\u2028' || c == '\u2029'

/-- The characters that end a line. -/
def isBreak (c : Char) : Bool :=
  c == '\n' || c == '\r' || isWideBreak c

/-- Whether a text is empty or begins with a blank or a line end. -/
def endsWord : List Char → Bool
  | [] => true
  | c :: _ => isBlank c || isBreak c

/-- The characters of names: ASCII letters and digits, underscore and dash. -/
def isNameChar (c : Char) : Bool :=
  c.isAlphanum || c == '_' || c == '-'

/-- The byte order mark. -/
def byteOrderMark : Char := '\ufeff'

/-- The characters a document may hold. -/
def isAllowed (c : Char) : Bool :=
  let n := c.toNat
  n == 0x09 || n == 0x0A || n == 0x0D || (0x20 ≤ n && n ≤ 0x7E) || n == 0x85 ||
    (0xA0 ≤ n && n ≤ 0xFFFD) || 0x10000 ≤ n

/-! ### Windows -/

/-- A stretch of text that is taken in at once. -/
structure Window where
  /-- the number of its characters -/
  length : Nat := 0
  /-- whether all of them are allowed -/
  sound : Bool := true
deriving Repr, Inhabited

/-- The number of bytes that are taken in at once. -/
def windowSize : Nat := 512

/-- A window with one more character. -/
def Window.add (w : Window) (c : Char) : Window :=
  { length := w.length + 1, sound := w.sound && isAllowed c }

/-- Divides a text into windows, where `w` is the window so far and has `room` bytes left.  A
character never lies in two windows. -/
def windowsOf (w : Window) (room : Nat) : List Char → List Window
  | [] => [w]
  | c :: cs =>
    if c.utf8Size ≤ room then windowsOf (w.add c) (room - c.utf8Size) cs
    else w :: windowsOf (Window.add {} c) (windowSize - c.utf8Size) cs

/-! ### Cursors -/

/-- What remains of a text, and where it stands. -/
structure Cursor where
  rest : List Char
  line : Nat := 0
  column : Nat := 0
  index : Nat := 0
  /-- whether a line end was passed, and nothing but blanks since -/
  fresh : Bool := false
  /-- the number of characters that were taken in; the end of the text counts as one whenever it is
  met -/
  loaded : Nat := 0
  /-- what was not taken in yet -/
  windows : List Window := []
  /-- whether a byte order mark stood at the cursor when text was taken in last -/
  marked : Bool := false
deriving Repr, Inhabited

namespace Cursor

/-- The start of a text.  A byte order mark there does not count, but it takes its room in the first
window.  An empty text reads as an empty line. -/
def start (text : List Char) : Cursor :=
  match text with
  | [] => { rest := ['\n'], windows := windowsOf {} windowSize ['\n'] }
  | c :: cs =>
    if c = byteOrderMark then { rest := cs, windows := windowsOf {} (windowSize - c.utf8Size) cs }
    else { rest := text, windows := windowsOf {} windowSize text }

/-- Takes in windows until `goal` characters are there or the text ends; an unsound window is
refused. -/
def load (goal : Nat) : (windows : List Window) → (loaded : Nat) → Option (Nat × List Window)
  | [], loaded => some (loaded + 1, [])
  | w :: ws, loaded =>
    if !w.sound then none
    else if goal ≤ loaded + w.length then some (loaded + w.length, ws)
    else load goal ws (loaded + w.length)

/-- Sees to it that the next `n` characters are at hand, as far as there are so many. -/
def need (c : Cursor) (n : Nat) : Option Cursor :=
  if c.index + n ≤ c.loaded then some c
  else
    match load (c.index + n) c.windows c.loaded with
    | none => none
    | some (loaded, windows) =>
      some { c with loaded, windows, marked := c.rest.head? == some byteOrderMark }

/-- Passes over one character. -/
def skip (c : Cursor) : Cursor :=
  match c.rest with
  | [] => c
  | ch :: rest =>
    { c with rest, column := c.column + 1, index := c.index + 1, fresh := c.fresh && isBlank ch }

/-- Passes over `n` characters. -/
def skipMany (c : Cursor) (n : Nat) : Cursor :=
  n.repeat skip c

/-- Reads a line end, if there is one. -/
def readBreak (c : Cursor) : List Char × Cursor :=
  match c.rest with
  | '\r' :: '\n' :: rest =>
    (['\n'], { c with rest, line := c.line + 1, column := 0, index := c.index + 2, fresh := true })
  | b :: rest =>
    if isBreak b then
      (if b = '\u2028' ∨ b = '\u2029' then [b] else ['\n'],
        { c with rest, line := c.line + 1, column := 0, index := c.index + 1, fresh := true })
    else ([], c)
  | [] => ([], c)

/-- Passes over a line end, if there is one. -/
def skipBreak (c : Cursor) : Cursor :=
  c.readBreak.2

/-- Whether the next character satisfies `p`. -/
def next (c : Cursor) (p : Char → Bool) : Bool :=
  c.rest.head?.any p

/-- Whether the line or the text ends here. -/
def atLineEnd (c : Cursor) : Bool :=
  c.rest.isEmpty || c.next isBreak

/-- Whether three times `ch`, alone on its line or before a blank, stand at the start of a line. -/
def atMarker (c : Cursor) (ch : Char) : Bool :=
  c.column == 0 && c.rest.take 3 == [ch, ch, ch] && endsWord (c.rest.drop 3)

/-- Whether the start or the end of a document is marked here. -/
def atDocumentMarker (c : Cursor) : Bool :=
  c.atMarker '-' || c.atMarker '.'

end Cursor

/-! ### Scanning -/

/-- A step over a text, which refuses a text that is not well formed. -/
abbrev Scan := StateT Cursor Option

namespace Scan

/-- Sees to it that the next `n` characters are at hand. -/
def need (n : Nat) : Scan Unit := fun c => (c.need n).map ((), ·)

/-- Passes over one character. -/
def skip : Scan Unit := modify Cursor.skip

/-- Passes over `n` characters. -/
def skipMany (n : Nat) : Scan Unit := modify (·.skipMany n)

/-- Reads a line end, if there is one. -/
def readBreak : Scan (List Char) := modifyGet Cursor.readBreak

/-- Passes over a line end, if there is one. -/
def skipBreak : Scan Unit := modify Cursor.skipBreak

/-- Whether the next character satisfies `p`. -/
def next (p : Char → Bool) : Scan Bool := do return (← get).next p

/-- Reads on until what remains satisfies `stops`, with `ahead` characters at hand after each;
`read` is what was read so far, the latest first. -/
def readOn (stops : List Char → Bool) (ahead : Nat) :
    (steps : Nat) → (read : List Char) → Scan (List Char)
  | 0, _ => failure
  | steps + 1, read => do
    let c ← get
    match c.rest with
    | [] => return read.reverse
    | ch :: rest =>
      if stops (ch :: rest) then return read.reverse
      else
        skip
        need ahead
        readOn stops ahead steps (ch :: read)

/-- Reads characters while `p` holds, with one at hand before and after each. -/
def readWhile (p : Char → Bool) (steps : Nat) : Scan (List Char) := do
  need 1
  readOn (fun cs => !cs.head?.any p) 1 steps []

/-- Passes over characters while `p` holds. -/
def skipWhile (p : Char → Bool) (steps : Nat) : Scan Unit :=
  discard (readWhile p steps)

/-- Passes over the rest of the line. -/
def skipLine (steps : Nat) : Scan Unit :=
  skipWhile (!isBreak ·) steps

end Scan

end KernelIR.Document
