import KernelIR.Text.Utf8
import KernelIR.Virtual.Module

/-!
# Log records

How registers, blocks and instructions are written into a binary log: as maps from texts to texts
and integers.  Every value starts with a byte that holds a tag in its upper three bits and a number,
a length or the value itself, in the others; a number above 23 follows in one, two, four or eight
bytes, the highest first.
-/

namespace KernelIR.Virtual.Wire

/-- The kind of a value in the log. -/
inductive Tag
  | integer
  | negative
  | text
  | map

/-- The bits of a tag. -/
def Tag.bits : Tag → Nat
  | integer => 0x00
  | negative => 0x20
  | text => 0x60
  | map => 0xa0

/-- The lowest `count` bytes of a number, the highest first. -/
def bigEndian (count n : Nat) : List UInt8 :=
  ((List.range count).map fun j => UInt8.ofNat (n / Nat.pow 256 j)).reverse

/-- A tag with its number. -/
def head (t : Tag) (n : Nat) : List UInt8 :=
  let first (low : Nat) : UInt8 := UInt8.ofNat (t.bits + low)
  if n < 24 then [first n]
  else if n < 0x100 then first 24 :: bigEndian 1 n
  else if n < 0x10000 then first 25 :: bigEndian 2 n
  else if n < 0x100000000 then first 26 :: bigEndian 4 n
  else first 27 :: bigEndian 8 n

/-- A text behind its length in bytes. -/
def text (s : String) : List UInt8 :=
  let bytes := Text.bytes s
  head .text bytes.length ++ bytes

/-- An integer; a negative one is written by one more than its distance from zero. -/
def integer (v : Int) : List UInt8 :=
  if 0 ≤ v then head .integer v.toNat else head .negative ((-v).toNat + 1)

/-- A map of the given keys and written values. -/
def map (pairs : List (String × List UInt8)) : List UInt8 :=
  head .map pairs.length ++ (pairs.map fun (key, value) => text key ++ value).flatten

/-- The record of a register. -/
def register (r : Register) : List UInt8 :=
  map [("id", integer r.id), ("type", text (typeText r.type)), ("name", text r.name)]

/-- The record of a block. -/
def block (b : Block) : List UInt8 :=
  map [("id", integer b.id), ("name", text b.name), ("len", integer b.code.length)]

/-- The number of an optional block; none is -1. -/
def blockNumber : Option Nat → Int
  | some id => id
  | none => -1

/-- The record of an instruction. -/
def instr (i : Instr) : List UInt8 :=
  map [("id", integer i.id), ("block", integer (blockNumber i.block)), ("text", text i.text)]

end KernelIR.Virtual.Wire
