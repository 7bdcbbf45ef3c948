import KernelIR.Container.SymbolTable

/-!
# Listings of symbol tables

A symbol table as a text: a line about the module and a line for every symbol, in columns.
-/

namespace KernelIR.Container

/-- A text with blanks behind it, at least `width` characters in all. -/
def padRight (width : Nat) (s : String) : String :=
  s ++ String.ofList (List.replicate (width - s.length) ' ')

/-- A number with blanks before it, at least `width` characters in all. -/
def padNumber (width n : Nat) : String :=
  let s := Text.decimal n
  String.ofList (List.replicate (width - s.length) ' ') ++ s

namespace SymbolTable

/-- The line of a symbol. -/
def line (t : SymbolTable) (e : Entry) : String :=
  "  " ++ padRight 8 e.kind.name ++ " " ++ padRight 8 e.linkage.name ++ " "
    ++ padRight 6 e.part.name ++ " page " ++ padNumber 3 e.page.toNat
    ++ " off " ++ padNumber 6 e.offset.toNat ++ " size " ++ padNumber 6 e.size.toNat
    ++ "  " ++ t.nameOf e ++ "\n"

/-- The listing of the symbol table of a module with the given name. -/
def listing (t : SymbolTable) (name : String) : String :=
  let h := t.header
  "module " ++ name ++ ": " ++ Text.decimal h.symbols.toNat ++ " symbols, pages: data "
    ++ Text.decimal h.dataPages.toNat ++ " code " ++ Text.decimal h.codePages.toNat ++ " string "
    ++ Text.decimal h.stringPages.toNat ++ " (" ++ Text.decimal pageSize ++ " bytes each)\n"
    ++ Text.concat (t.entries.map t.line)

end SymbolTable

end KernelIR.Container
