import KernelIR.Text.Utf8
import KernelIR.Virtual.Module

/-!
# Symbol tables

The container of a module has a data, a code and a string section, each divided into pages.  Globals
are laid out in the data section one after the other, each aligned to the size of its type, and
functions in the code section without gaps.  The string section holds the names, each ended by a
zero byte.  `SymbolTable.ofModule` computes the layout in words, which wrap around beyond their
width.
-/

namespace KernelIR.Container

open Virtual (Linkage)

/-- What a symbol is. -/
inductive SymbolKind
  | global
  | function
  | invalid (code : UInt8)
deriving DecidableEq, Repr

/-- The kind with the given code. -/
def SymbolKind.ofCode (code : UInt8) : SymbolKind :=
  if code = 1 then global else if code = 2 then function else invalid code

/-- The spelling of a kind. -/
def SymbolKind.name : SymbolKind → String
  | global => "variable"
  | function => "function"
  | invalid _ => "invalid"

/-- A section of a container. -/
inductive Section
  | data
  | code
  | string
  | invalid (code : UInt8)
deriving DecidableEq, Repr

/-- The section with the given code. -/
def Section.ofCode (c : UInt8) : Section :=
  [data, code, string][c.toNat]?.getD (invalid c)

/-- The spelling of a section. -/
def Section.name : Section → String
  | data => "data"
  | code => "code"
  | string => "string"
  | invalid _ => "invalid"

/-- The number of bytes in a page. -/
def pageSize : Nat := Nat.pow 2 15

/-- The number of bytes that an instruction takes. -/
def instructionSize : Nat := 8

/-- The mark of a container: `VIR` and a zero byte, the lowest byte first. -/
def magic : UInt32 := 0x00524956

/-- The head of a container. -/
structure Header where
  magic : UInt32 := 0
  dataPages : UInt32 := 0
  codePages : UInt32 := 0
  stringPages : UInt32 := 0
  symbols : UInt32 := 0
  stringBytes : UInt32 := 0
deriving DecidableEq, Repr, Inhabited

/-- A symbol of a container. -/
structure Entry where
  kind : SymbolKind
  linkage : Linkage
  part : Section
  /-- where its name starts in the string section -/
  nameOffset : UInt32 := 0
  page : UInt32 := 0
  /-- where it starts in its page -/
  offset : UInt32 := 0
  size : UInt64
deriving DecidableEq, Repr

/-- The address of a symbol within its section. -/
def Entry.address (e : Entry) : UInt64 :=
  e.page.toUInt64 * UInt64.ofNat pageSize + e.offset.toUInt64

/-- A symbol table. -/
structure SymbolTable where
  header : Header := {}
  entries : List Entry := []
  strings : List UInt8 := []
deriving DecidableEq, Repr, Inhabited

/-- Why a module has no layout. -/
inductive LayoutError
  | untyped (name : String)
deriving DecidableEq, Repr

/-- The wording of a layout error. -/
def LayoutError.message : LayoutError → String
  | untyped name => "global " ++ name ++ ": no type"

/-! ### Layout -/

/-- The first multiple of `a` that is not below `x`. -/
def align (x a : UInt64) : UInt64 :=
  if a ≤ 1 then x else (x + a - 1) / a * a

/-- The least number of pages that hold so many bytes. -/
def pages (size : UInt64) : UInt32 :=
  ((size + UInt64.ofNat pageSize - 1) / UInt64.ofNat pageSize).toUInt32

namespace SymbolTable

/-- Adds a symbol with a name at an address of its section. -/
def add (t : SymbolTable) (kind : SymbolKind) (linkage : Linkage) (part : Section) (name : String)
    (address size : UInt64) : SymbolTable :=
  { t with
    entries := t.entries ++ [{
      kind, linkage, part, size
      nameOffset := UInt32.ofNat t.strings.length
      page := (address / UInt64.ofNat pageSize).toUInt32
      offset := (address % UInt64.ofNat pageSize).toUInt32 }]
    strings := t.strings ++ Text.bytes name ++ [0] }

/-- Lays a global out behind the data so far. -/
def addGlobal (acc : SymbolTable × UInt64) (g : Virtual.Global) :
    Except LayoutError (SymbolTable × UInt64) :=
  match g.type, g.size? with
  | some type, some bytes =>
    let size := UInt64.ofInt bytes
    let address := align acc.2 (UInt64.ofInt type.bytes)
    .ok (acc.1.add .global g.linkage .data g.name address size, address + size)
  | _, _ => .error (.untyped g.name)

/-- Lays a function out behind the code so far. -/
def addFunction (acc : SymbolTable × UInt64) (f : Virtual.Function) : SymbolTable × UInt64 :=
  let size := UInt64.ofNat f.length * UInt64.ofNat instructionSize
  (acc.1.add .function f.linkage .code f.name acc.2 size, acc.2 + size)

/-- Fills in the header of a table, given where its data and its code end. -/
def withHeader (t : SymbolTable) (data code : UInt64) : SymbolTable :=
  { t with
    header := {
      magic
      dataPages := pages data
      codePages := pages code
      stringPages := pages (UInt64.ofNat t.strings.length)
      symbols := UInt32.ofNat t.entries.length
      stringBytes := UInt32.ofNat t.strings.length } }

/-- The symbol table of a module. -/
def ofModule (m : Virtual.Module) : Except LayoutError SymbolTable := do
  let (t, data) ← m.globals.foldlM addGlobal ({}, 0)
  let (t, code) := m.functions.foldl addFunction (t, 0)
  return t.withHeader data code

/-! ### Names -/

/-- The bytes of a symbol's name: those from its place in the string section to the next zero. -/
def nameBytes (t : SymbolTable) (e : Entry) : List UInt8 :=
  (t.strings.drop e.nameOffset.toNat).takeWhile (· ≠ 0)

/-- The name of a symbol. -/
def nameOf (t : SymbolTable) (e : Entry) : String :=
  String.ofList (Text.decodeLossy (t.nameBytes e))

/-- The place of the first symbol with the given name. -/
def find? (t : SymbolTable) (name : String) : Option Nat :=
  t.entries.findIdx? fun e => t.nameBytes e = Text.bytes name

end SymbolTable

/-! ### Writing -/

/-- Why a container could not be written. -/
inductive WriteError
  /-- there is no writer for what is named -/
  | notImplemented (subject : String)
deriving DecidableEq, Repr

/-- The wording of a write error. -/
def WriteError.message : WriteError → String
  | notImplemented subject => "write binary " ++ subject ++ ": not implemented"

/-- Writing a container is not implemented. -/
def write (m : Virtual.Module) : Except WriteError (List UInt8) :=
  .error (.notImplemented m.name)

/-- Writing a bare module is not implemented either. -/
def writeModule (m : Virtual.Module) : Except WriteError (List UInt8) :=
  .error (.notImplemented ("module " ++ m.name))

end KernelIR.Container
