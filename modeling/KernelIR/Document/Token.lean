import KernelIR.Document.Scalar
import KernelIR.Text.Utf8

/-!
# Tokens of a document

The units that a document is made of, and the readers of those that are neither punctuation nor a
scalar: the name of an anchor or alias, a tag, and a directive.
-/

namespace KernelIR.Document

open Scan

/-- A token of a document. -/
inductive Token
  | blockSequenceStart
  | blockMappingStart
  | blockEnd
  | flowSequenceStart
  | flowSequenceEnd
  | flowMappingStart
  | flowMappingEnd
  | blockEntry
  | flowEntry
  | key
  | value
  | scalar (text : String) (plain : Bool)
  /-- the name that the node behind it gets -/
  | anchor (name : String)
  /-- an alias of the node with that name -/
  | reference (name : String)
  /-- a tag, whose handle is empty if the suffix is all of it -/
  | tag (handle suffix : String)
  /-- a directive that gives the version of the format -/
  | version (major minor : Nat)
  /-- a directive that says what a tag handle stands for -/
  | tagHandle (handle lead : String)
  | documentStart
  | documentEnd
  | streamEnd
deriving DecidableEq, Repr, Inhabited

/-! ### Anchors and aliases -/

/-- Whether a name may end before the character. -/
def endsName (c : Char) : Bool :=
  isBlank c || isBreak c || "?:,]\x7d%@`".toList.contains c

/-- Reads the name of an anchor or alias from its indicator on. -/
def readName (steps : Nat) : Scan String := do
  skip
  let name ← readWhile isNameChar steps
  let c ← get
  if name.isEmpty || !(c.rest.head?.all endsName) then failure
  return String.ofList name

/-! ### Tags -/

/-- The characters of a tag besides those of names. -/
def isTagMark (c : Char) : Bool :=
  ";/?:@&=+$,.!~*'()[]%".toList.contains c

/-- Reads the octets of an escaped character of a tag, of which `count` are left; `read` are those
read so far, the latest first. -/
def readOctets : (count : Nat) → (read : List UInt8) → Scan (List UInt8)
  | 0, read => return read.reverse
  | count + 1, read => do
    need 3
    let c ← get
    match c.next (· == '%'), hexDigits? 2 (c.rest.drop 1) with
    | true, some octet =>
      if octet / 64 ≠ 2 then failure
      skipMany 3
      readOctets count (UInt8.ofNat octet :: read)
    | _, _ => failure

/-- The number of octets of a character by the first of them. -/
def octetCount? (octet : Nat) : Option Nat :=
  if octet < 0x80 then some 1
  else if octet / 32 = 6 then some 2
  else if octet / 16 = 14 then some 3
  else if octet / 8 = 30 then some 4
  else none

/-- Reads an escaped character of a tag: a percent sign and two digits for each of its octets. -/
def readTagEscape : Scan (List Char) := do
  need 3
  let c ← get
  match hexDigits? 2 (c.rest.drop 1) with
  | none => failure
  | some octet =>
    match octetCount? octet with
    | none => failure
    | some count =>
      skipMany 3
      return Text.decodeLossy (← readOctets (count - 1) [UInt8.ofNat octet])

/-- Reads the characters of a tag; `pieces` are those read so far, the latest first. -/
def readTagText : (steps : Nat) → (pieces : List (List Char)) → Scan (List Char)
  | 0, _ => failure
  | steps + 1, pieces => do
    need 1
    let c ← get
    match c.rest.head? with
    | none => return pieces.reverse.flatten
    | some ch =>
      if ch = '%' then
        let cs ← readTagEscape
        readTagText steps (cs :: pieces)
      else if isNameChar ch || isTagMark ch then
        skip
        readTagText steps ([ch] :: pieces)
      else return pieces.reverse.flatten

/-- Reads the handle of a tag: a mark, and a name and a second mark if there are such. -/
def readTagHandle (steps : Nat) : Scan (List Char) := do
  need 1
  if !(← next (· == '!')) then failure
  skip
  let name ← readWhile isNameChar steps
  if ← next (· == '!') then
    skip
    return '!' :: name ++ ['!']
  else return '!' :: name

/-- Whether a handle is enclosed by two marks. -/
def isNamedHandle (handle : List Char) : Bool :=
  1 < handle.length && handle.getLast? == some '!'

/-- Reads a tag between angle brackets. -/
def readVerbatimTag (steps : Nat) : Scan Token := do
  skipMany 2
  let text ← readTagText steps []
  if text.isEmpty || !(← next (· == '>')) then failure
  skip
  return .tag "" (String.ofList text)

/-- Reads a tag with or without a handle.  A mark alone is a tag of its own. -/
def readShortTag (steps : Nat) : Scan Token := do
  let handle ← readTagHandle steps
  if isNamedHandle handle then
    let suffix ← readTagText steps []
    if suffix.isEmpty then failure
    return .tag (String.ofList handle) (String.ofList suffix)
  else
    let suffix ← readTagText steps [handle.drop 1]
    if suffix.isEmpty then return .tag "" "!"
    else return .tag "!" (String.ofList suffix)

/-- Reads a tag, behind which a blank or a line end must stand. -/
def readTag (steps : Nat) : Scan Token := do
  need 2
  let c ← get
  let tag ← if c.rest[1]? = some '<' then readVerbatimTag steps else readShortTag steps
  need 1
  if endsWord (← get).rest then return tag else failure

/-! ### Directives -/

/-- Reads a number of one or two digits. -/
def readVersionNumber (steps : Nat) : Scan Nat := do
  let digits ← readWhile (increment? · |>.isSome) steps
  if digits.isEmpty || 2 < digits.length then failure
  return digits.foldl (fun n c => n * 10 + (increment? c).getD 0) 0

/-- Reads the version of the format. -/
def readVersion (steps : Nat) : Scan Token := do
  skipWhile isBlank steps
  let major ← readVersionNumber steps
  if !(← next (· == '.')) then failure
  skip
  return .version major (← readVersionNumber steps)

/-- Reads a tag handle and what it stands for. -/
def readTagHandleMeaning (steps : Nat) : Scan Token := do
  skipWhile isBlank steps
  let handle ← readTagHandle steps
  if handle ≠ ['!'] ∧ !isNamedHandle handle then failure
  need 1
  if !(← next isBlank) then failure
  skipWhile isBlank steps
  let lead ← readTagText steps []
  need 1
  if lead.isEmpty || !endsWord (← get).rest then failure
  return .tagHandle (String.ofList handle) (String.ofList lead)

/-- Reads a directive from its indicator to the end of its line. -/
def readDirective (steps : Nat) : Scan Token := do
  skip
  let name ← readWhile isNameChar steps
  if !endsWord (← get).rest then failure
  let token ← match String.ofList name with
    | "YAML" => readVersion steps
    | "TAG" => readTagHandleMeaning steps
    | _ => failure
  skipToLineEnd steps
  return token

end KernelIR.Document
