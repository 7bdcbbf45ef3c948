import KernelIR.Virtual.Module

/-!
# Assembly texts

How a module is written out: a heading, a line for every global, and for every function its
signature, its registers, and its blocks with an instruction a line.
-/

namespace KernelIR.Virtual

/-- The line of a global. -/
def Global.assembly (g : Global) : String :=
  "global " ++ g.linkage.name ++ " " ++ typeText g.type ++ " @" ++ g.name
    ++ (match g.init with
      | some c => " = " ++ c.display
      | none => "")
    ++ "\n"

/-- An argument in a signature. -/
def Argument.signature (a : Argument) : String :=
  "$" ++ a.name ++ " " ++ typeText a.type

/-- The line that declares a register. -/
def Register.declaration (r : Register) : String :=
  "\treg " ++ typeText r.type ++ " " ++ r.text ++ "\n"

/-- The lines of a block. -/
def Block.assembly (b : Block) : String :=
  b.name ++ ":\n" ++ Text.concat (b.code.map fun i => "\t" ++ i.text ++ "\n")

/-- The lines of a function. -/
def Function.assembly (f : Function) : String :=
  "func " ++ f.linkage.name ++ " " ++ f.name
    ++ "(" ++ Text.joined ", " (f.arguments.map Argument.signature) ++ ") \x7b\n"
    ++ Text.concat (f.registers.map Register.declaration)
    ++ Text.concat (f.blocks.map Block.assembly)
    ++ "\x7d\n"

/-- The text of a module. -/
def Module.assembly (m : Module) : String :=
  "// module " ++ m.name ++ "\n"
    ++ (if m.globals.isEmpty then "" else "\n")
    ++ Text.concat (m.globals.map Global.assembly)
    ++ Text.concat (m.functions.map fun f => "\n" ++ f.assembly)

end KernelIR.Virtual
