import KernelIR.Document.Cursor

/-!
# Comments

A comment reaches from its mark to the end of the line.  Behind a comment the next lines are
searched for further ones, which belong to it whatever blanks stand before them, so such blanks are
never indentation.  The search ends after 511 characters, and at a line end that takes more than one
byte.
-/

namespace KernelIR.Document

open Scan

/-- The number of characters within which a comment is looked for. -/
def commentReach : Nat := 512

/-- Looks for a comment behind blanks and line ends, in at most `left` characters that begin with
`rest`, `distance` characters ahead of the cursor.  Gives the distance of its mark. -/
def findComment : (left distance : Nat) → (rest : List Char) → Scan (Option Nat)
  | 0, _, _ => return none
  | left + 1, distance, rest => do
    need (distance + 1)
    match rest with
    | [] => return none
    | ch :: rest =>
      if isBlank ch || ch == '\n' || ch == '\r' then findComment left (distance + 1) rest
      else if isWideBreak ch then
        if left ≠ 0 then need (distance + 2)
        return none
      else if ch = '#' then return some distance
      else return none

/-- Goes on, over blanks and line ends, to the character of the given index. -/
def skipTo (index : Nat) : (steps : Nat) → Scan Unit
  | 0 => failure
  | steps + 1 => do
    let c ← get
    if c.index < index then
      need 1
      if c.next isBreak then
        need 2
        skipBreak
      else skip
      skipTo index steps

/-- Passes over the comment at the cursor and those on the lines behind it.  The cursor stays at the
end of the last one. -/
def skipComments : (steps : Nat) → Scan Unit
  | 0 => failure
  | steps + 1 => do
    skipLine steps
    let c ← get
    if c.next isWideBreak then need 2
    else
      match ← findComment (commentReach - 1) 1 (c.rest.drop 1) with
      | none => return
      | some distance =>
        skipTo (c.index + distance) steps
        skipComments steps

/-- Whether nothing but blanks stands before a comment on this line, in at most `left` characters
that begin with `rest`, `distance` characters ahead of the cursor. -/
def findLineComment : (left distance : Nat) → (rest : List Char) → Scan Bool
  | 0, _, _ => return false
  | left + 1, distance, rest => do
    need (distance + 1)
    match rest with
    | [] => return false
    | ch :: rest =>
      if isBlank ch then findLineComment left (distance + 1) rest else return ch == '#'

/-- Passes over a comment on the line of a token that ends at the cursor. -/
def skipLineComment (steps : Nat) : Scan Unit := do
  let c ← get
  if !c.fresh then
    if ← findLineComment commentReach 0 c.rest then skipLine steps

end KernelIR.Document
