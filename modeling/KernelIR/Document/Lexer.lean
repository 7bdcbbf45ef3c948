import KernelIR.Document.Comment
import KernelIR.Document.Token

/-!
# Reading tokens

The lexer turns indentation into tokens: a block opens where a first entry or key stands further to
the right than the block around it, and closes where a line begins further to the left.  A key is
recognized by the `:` behind it, so every place where one may begin is remembered until the line
ends; its token is put in afterwards.

Tokens are taken on demand (`Lexer.fill`).  One is handed out only when two more stand behind it and
no key can begin with it any more, so a fault in the text shows before the tokens just in front of
it do.
-/

namespace KernelIR.Document

/-- A place where a key may have begun, or where none can begin yet. -/
structure KeySlot where
  /-- whether a key may still begin there -/
  possible : Bool := false
  /-- whether nothing but a key may stand there -/
  required : Bool := false
  /-- the number of its first token -/
  number : Nat := 0
  line : Nat := 0
  column : Nat := 0
  index : Nat := 0
deriving Repr, Inhabited

/-- The state of the lexer. -/
structure Lexer where
  cursor : Cursor
  /-- the tokens that are not handed out yet -/
  queue : List Token := []
  /-- the number of tokens that were handed out -/
  taken : Nat := 0
  /-- the columns of the open blocks, the innermost first -/
  indents : List Nat := []
  /-- the number of open flow collections -/
  level : Nat := 0
  /-- for every open flow collection, the innermost first, and for the block around them, where its
  key may have begun -/
  slots : List KeySlot := [{}]
  /-- the numbers of the tokens at which a key may begin, each with the level of its slot -/
  starts : List (Nat × Nat) := []
  /-- whether a key may begin here -/
  keyAllowed : Bool := true
  /-- a bound on the number of steps that a loop over the text takes -/
  limit : Nat
deriving Inhabited

namespace Lexer

/-- The column of the innermost block, or `-1` outside all blocks. -/
def indent (l : Lexer) : Int :=
  match l.indents with
  | [] => -1
  | column :: _ => column

/-- Whether the cursor is inside a flow collection. -/
def inFlow (l : Lexer) : Bool := 0 < l.level

/-- The number of the token that is added next. -/
def nextNumber (l : Lexer) : Nat := l.taken + l.queue.length

/-- Adds a token. -/
def push (l : Lexer) (t : Token) : Lexer := { l with queue := l.queue ++ [t] }

/-- Adds a token that gets the given number, or the last one if that number was handed out. -/
def insert (l : Lexer) (number : Nat) (t : Token) : Lexer :=
  if number < l.taken then l.push t
  else { l with queue := l.queue.insertIdx (number - l.taken) t }

/-- Passes over the characters of an indicator and adds its token. -/
def indicator (l : Lexer) (length : Nat) (t : Token) : Lexer :=
  { l with cursor := l.cursor.skipMany length }.push t

/-- Moves the cursor. -/
def scan (l : Lexer) (step : Scan Unit) : Option Lexer := do
  let ((), cursor) ← step l.cursor
  return { l with cursor }

/-- Reads a token at the cursor and adds it. -/
def scanToken (l : Lexer) (step : Scan Token) : Option Lexer := do
  let (t, cursor) ← step l.cursor
  return { l with cursor }.push t

/-! ### Indentation -/

/-- The number of blocks, and of flow collections, that may be open at a time. -/
def maxDepth : Nat := 10000

/-- Opens a block at a column unless one is open there; its token gets the given number. -/
def openBlock (l : Lexer) (column number : Nat) (t : Token) : Option Lexer :=
  if !l.inFlow ∧ l.indent < column then
    if maxDepth ≤ l.indents.length then none
    else some { l.insert number t with indents := column :: l.indents }
  else some l

/-- Closes the blocks to the right of a column. -/
def closeBlocks (l : Lexer) (column : Int) : Lexer :=
  if l.inFlow then l
  else
    let closed := l.indents.takeWhile fun (c : Nat) => column < c
    { l with
      indents := l.indents.drop closed.length
      queue := l.queue ++ closed.map fun _ => Token.blockEnd }

/-! ### Keys -/

/-- The number of characters within which a key must end. -/
def keyReach : Nat := 1024

/-- Whether a key may still begin at the slot of a level: it must end on the same line, and soon.  A
required one that cannot is a fault. -/
def checkKey (l : Lexer) (level : Nat) : Option (Bool × Lexer) :=
  match l.slots[l.level - level]? with
  | none => some (false, l)
  | some k =>
    if !k.possible then some (false, l)
    else if k.line < l.cursor.line ∨ k.index + keyReach < l.cursor.index then
      if k.required then none
      else
        some (false, { l with
          slots := l.slots.set (l.level - level) { k with possible := false } })
    else some (true, l)

/-- Forgets that a key may begin with a token. -/
def forget (l : Lexer) (number : Nat) : Lexer :=
  { l with starts := l.starts.filter (·.1 ≠ number) }

/-- Gives up the key of the innermost collection, which must not be required. -/
def dropKey (l : Lexer) : Option Lexer :=
  match l.slots with
  | k :: outer =>
    if !k.possible then some l
    else if k.required then none
    else some ({ l with slots := { k with possible := false } :: outer }.forget k.number)
  | [] => some l

/-- Remembers that a key may begin here. -/
def saveKey (l : Lexer) : Option Lexer :=
  if l.keyAllowed then do
    let l ← l.dropKey
    let c := l.cursor
    let k : KeySlot :=
      { possible := true, required := !l.inFlow && l.indent == c.column, number := l.nextNumber,
        line := c.line, column := c.column, index := c.index }
    some { l with slots := k :: l.slots.drop 1, starts := (k.number, l.level) :: l.starts }
  else some l

/-! ### Between tokens -/

/-- Passes over the blanks and comments at the start of a line.  A byte order mark there does not
count. -/
def skipLineStart (tabs : Bool) (steps : Nat) : Scan Unit := do
  Scan.need 1
  let c ← get
  if c.column = 0 ∧ c.marked then Scan.skip
  Scan.skipWhile (fun ch => ch == ' ' || (tabs && ch == '\t')) steps
  if ← Scan.next (· == '#') then skipComments steps

/-- Passes over blanks, comments and line ends.  Tabs count as blanks where no key may begin. -/
def skipBlanks : (steps : Nat) → Lexer → Option Lexer
  | 0, _ => none
  | steps + 1, l => do
    let l ← l.scan (skipLineStart (l.inFlow || !l.keyAllowed) l.limit)
    if l.cursor.next isBreak then
      let l ← l.scan (do Scan.need 2; Scan.skipBreak)
      skipBlanks steps { l with keyAllowed := l.keyAllowed || !l.inFlow }
    else some l

/-- Goes to the next token and closes the blocks that end before it. -/
def advance (l : Lexer) : Option Lexer := do
  let l ← skipBlanks l.limit l
  (l.closeBlocks l.cursor.column).scan (Scan.need 4)

/-! ### Single tokens -/

/-- Leaves all blocks and forbids a key. -/
def leaveBlocks (l : Lexer) : Option Lexer := do
  let l ← (l.closeBlocks (-1)).dropKey
  some { l with keyAllowed := false }

/-- Ends the stream, at the start of a line. -/
def endStream (l : Lexer) : Option Lexer := do
  let c := l.cursor
  let cursor := if c.column = 0 then c else { c with column := 0, line := c.line + 1 }
  let l ← { l with cursor }.leaveBlocks
  some (l.push .streamEnd)

/-- Takes a directive. -/
def directive (l : Lexer) : Option Lexer := do
  (← l.leaveBlocks).scanToken (readDirective l.limit)

/-- Takes a document marker. -/
def documentMarker (l : Lexer) (t : Token) : Option Lexer := do
  some ((← l.leaveBlocks).indicator 3 t)

/-- Opens a flow collection.  No key can begin in it yet; the number of its slot is that of its own
first token. -/
def openFlow (l : Lexer) (t : Token) : Option Lexer := do
  let l ← l.saveKey
  if maxDepth ≤ l.level then none
  let slots := { number := l.nextNumber } :: l.slots
  some ({ l with slots, level := l.level + 1, keyAllowed := true }.indicator 1 t)

/-- Leaves the innermost flow collection, if one is open. -/
def leaveFlow (l : Lexer) : Lexer :=
  match l.slots with
  | k :: outer =>
    if l.inFlow then { l with slots := outer, level := l.level - 1 }.forget k.number else l
  | [] => l

/-- Closes a flow collection. -/
def closeFlow (l : Lexer) (t : Token) : Option Lexer := do
  let l := (← l.dropKey).leaveFlow
  some ({ l with keyAllowed := false }.indicator 1 t)

/-- Takes a comma between the entries of a flow collection. -/
def flowEntry (l : Lexer) : Option Lexer := do
  let l ← l.dropKey
  some ({ l with keyAllowed := true }.indicator 1 .flowEntry)

/-- Opens a block for an entry or key that stands at the cursor, where a key must be allowed. -/
def openBlockHere (l : Lexer) (t : Token) : Option Lexer :=
  if l.inFlow then some l
  else if l.keyAllowed then l.openBlock l.cursor.column l.nextNumber t
  else none

/-- Takes the dash of a block entry. -/
def blockEntry (l : Lexer) : Option Lexer := do
  let l ← (← l.openBlockHere .blockSequenceStart).dropKey
  some ({ l with keyAllowed := true }.indicator 1 .blockEntry)

/-- Takes the question mark of an explicit key. -/
def explicitKey (l : Lexer) : Option Lexer := do
  let l ← (← l.openBlockHere .blockMappingStart).dropKey
  some ({ l with keyAllowed := !l.inFlow }.indicator 1 .key)

/-- Puts in the token of the key that began at the innermost slot, and before it that of the block
that the key may open. -/
def insertKey (l : Lexer) : Option Lexer :=
  match l.slots with
  | k :: outer => do
    let l ← (l.insert k.number .key).openBlock k.column k.number .blockMappingStart
    let slots := { k with possible := false } :: outer
    some ({ l with slots, keyAllowed := false }.forget k.number)
  | [] => none

/-- Takes the colon of a value, behind a key on this line or an explicit one. -/
def value (l : Lexer) : Option Lexer := do
  let (found, l) ← l.checkKey l.level
  let l ←
    if found then l.insertKey
    else do
      let l ← l.openBlockHere .blockMappingStart
      some { l with keyAllowed := !l.inFlow }
  some (l.indicator 1 .value)

/-- Takes a token with which a key may begin, but none right behind it. -/
def keyToken (l : Lexer) (step : Scan Token) : Option Lexer := do
  let l ← l.saveKey
  { l with keyAllowed := false }.scanToken step

/-- Takes a quoted scalar. -/
def quotedScalar (l : Lexer) (mark : Char) : Option Lexer :=
  l.keyToken do return .scalar (String.ofList (← readQuoted mark l.limit)) false

/-- Takes a block scalar. -/
def blockScalar (l : Lexer) (folded : Bool) : Option Lexer := do
  let l ← l.dropKey
  { l with keyAllowed := true }.scanToken do
    return .scalar (String.ofList (← readBlock folded l.indent l.limit)) false

/-- Takes a plain scalar.  Behind a line end a key may begin. -/
def plainScalar (l : Lexer) : Option Lexer := do
  let l ← l.saveKey
  let ((text, broken), cursor) ← readPlain l.inFlow l.indent l.limit l.cursor
  some ({ l with cursor, keyAllowed := broken }.push (.scalar (String.ofList text) true))

/-- The characters that may not begin a plain scalar. -/
def isIndicator (c : Char) : Bool :=
  "-?:,[]\x7b\x7d#&*!|>'\"%@`".toList.contains c

/-- Takes the token that begins with `c` and goes on with `rest`. -/
def takeToken (l : Lexer) (c : Char) (rest : List Char) : Option Lexer :=
  match c with
  | '[' => l.openFlow .flowSequenceStart
  | '\x7b' => l.openFlow .flowMappingStart
  | ']' => l.closeFlow .flowSequenceEnd
  | '\x7d' => l.closeFlow .flowMappingEnd
  | ',' => l.flowEntry
  | '-' => if endsWord rest then l.blockEntry else l.plainScalar
  | '?' => if l.inFlow || endsWord rest then l.explicitKey else l.plainScalar
  | ':' => if l.inFlow || endsWord rest then l.value else l.plainScalar
  | '*' => l.keyToken (Token.reference <$> readName l.limit)
  | '&' => l.keyToken (Token.anchor <$> readName l.limit)
  | '!' => l.keyToken (readTag l.limit)
  | '|' => if l.inFlow then none else l.blockScalar false
  | '>' => if l.inFlow then none else l.blockScalar true
  | '\'' => l.quotedScalar '\''
  | '"' => l.quotedScalar '"'
  | _ => if isIndicator c || isBlank c then none else l.plainScalar

/-- Takes the next token.  A comment on its line goes with it, except behind the dash of an entry.
-/
def fetch (l : Lexer) : Option Lexer := do
  let l ← l.advance
  match l.cursor.rest with
  | [] => l.endStream
  | c :: rest =>
    if l.cursor.column = 0 ∧ c = '%' then l.directive
    else if l.cursor.atMarker '-' then l.documentMarker .documentStart
    else if l.cursor.atMarker '.' then l.documentMarker .documentEnd
    else
      let l ← l.takeToken c rest
      if l.queue.getLast? = some .blockEntry then some l else l.scan (skipLineComment l.limit)

/-! ### Handing out -/

/-- Whether the first token can be handed out. -/
def ready (l : Lexer) : Option (Bool × Lexer) :=
  match l.queue with
  | _ :: _ :: _ :: _ =>
    match l.starts.lookup l.taken with
    | none => some (true, l)
    | some level => do
      let (pending, l) ← l.checkKey level
      some (!pending, l)
  | _ => some (false, l)

/-- Takes tokens until the first can be handed out. -/
def fill : (steps : Nat) → Lexer → Option Lexer
  | 0, _ => none
  | steps + 1, l => do
    let (done, l) ← l.ready
    if done then some l else fill steps (← l.fetch)

/-- Hands out the first token. -/
def pop (l : Lexer) : Lexer :=
  { l with
    queue := l.queue.drop 1
    taken := l.taken + 1
    starts := l.starts.filter (l.taken < ·.1) }

/-- The lexer at the start of a text. -/
def start (text : List Char) : Lexer :=
  { cursor := .start text, limit := 2 * text.length + 100 }

end Lexer

end KernelIR.Document
