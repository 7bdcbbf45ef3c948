import KernelIR.Compile

/-!
# The log of a compilation

What happens while a text is compiled, as a list of events.  The events that only some readers want
belong to a topic; `Event.select` keeps those of the wanted topics.  The log follows the same steps
as the compilation and ends where that ends.
-/

namespace KernelIR.Trace

open Lowering

/-- The topics of a log. -/
inductive Topic
  | load
  | global
  | lower
  | functions
  | modules
deriving DecidableEq, Repr

/-- The name of a topic. -/
def Topic.name : Topic → String
  | load => "load"
  | global => "global"
  | lower => "lower"
  | functions => "dump_func"
  | modules => "dump_vir"

/-- Something that happened. -/
inductive Event
  | kernelLoaded (name : String) (params registers blocks : Nat)
  | moduleStarted (path : String)
  | globalLowered (name : String) (type : String) (linkage : String) (bytes : Nat)
  | kernelStarted (name : String)
  | instructionLowered (source result : String)
  | functionDone (text : String)
  | moduleDone (text : String)
  /-- What was started last has ended, possibly with a fault. -/
  | ended (fault : Option String)
deriving DecidableEq, Repr

/-- The topic of an event, if it has one. -/
def Event.topic? : Event → Option Topic
  | kernelLoaded .. => some .load
  | globalLowered .. => some .global
  | instructionLowered .. => some .lower
  | functionDone _ => some .functions
  | moduleDone _ => some .modules
  | moduleStarted _ | kernelStarted _ | ended _ => none

/-- The events that a reader of some topics wants. -/
def Event.select (topics : List String) (events : List Event) : List Event :=
  events.filter fun e => (e.topic?.map fun t => topics.contains t.name).getD true

/-- A value on a line of the log. -/
inductive Item
  | absent
  | text (s : String)
  | number (n : Nat)
deriving DecidableEq, Repr

/-- The line of an event: values under their names, a message first.  An end has no message of its
own. -/
def Event.line : Event → List (String × Item)
  | kernelLoaded name params registers blocks =>
    [("_m", .text "kernel loaded"), ("name", .text name), ("params", .number params),
      ("regs", .number registers), ("blocks", .number blocks)]
  | moduleStarted path => [("_m", .text "translate: module"), ("path", .text path)]
  | globalLowered name type linkage bytes =>
    [("_m", .text "global"), ("name", .text name), ("type", .text type), ("linkage", .text linkage),
      ("init_bytes", .number bytes)]
  | kernelStarted name => [("_m", .text "translate: kernel"), ("name", .text name)]
  | instructionLowered source result =>
    [("_m", .text "lower"), ("ptx", .text source), ("vir", .text result)]
  | functionDone s => [("_m", .text "function"), ("text", .text s)]
  | moduleDone s => [("_m", .text "translated"), ("module", .text s)]
  | ended fault => [("err", fault.elim .absent .text)]

/-- The first results of a list of steps, up to the first that failed. -/
def successes {ε α : Type} : List (Except ε α) → List α
  | .ok x :: rest => x :: successes rest
  | _ => []

/-! ### Loading -/

/-- The log of loading a described module. -/
def loading (d : Source.Description) : List Event :=
  if d.globals.all fun g => g.load.isOk then
    (successes (d.kernels.map Source.KernelDescription.load)).map fun k =>
      .kernelLoaded k.name k.scope.params.length k.scope.registers.length k.graph.blocks.length
  else []

/-! ### Lowering -/

/-- The log of lowering the instructions of a block, and the frame after it unless one failed. -/
def loweringCode (s : Scope) (block : Nat) :
    List Source.Instruction → Frame → List Event × Option Frame
  | [], frame => ([], some frame)
  | i :: rest, frame =>
    match lowerInstruction s block i frame with
    | .error _ => ([], none)
    | .ok (x, frame) =>
      let (events, frame) := loweringCode s block rest frame
      (.instructionLowered i.text x.text :: events, frame)

/-- The log of lowering the blocks of a kernel. -/
def loweringBody (g : Source.Graph) (s : Scope) : List (Nat × Source.Node) → Frame → List Event
  | [], _ => []
  | (block, n) :: rest, frame =>
    match loweringCode s block (g.code n) frame with
    | (events, some frame) => events ++ loweringBody g s rest frame
    | (events, none) => events

/-- The log of lowering a kernel. -/
def loweringKernel (o : Options) (globals : List Virtual.Global) (k : Source.Kernel) : List Event :=
  let body := match openKernel o globals k with
    | .ok opening => loweringBody k.graph opening.scope opening.body opening.frame
    | .error _ => []
  let outcome : List Event := match lowerKernel o globals k with
    | .ok f => [.functionDone f.assembly, .ended none]
    | .error e => [.ended (some e.message)]
  .kernelStarted k.name :: body ++ outcome

/-- The log of lowering kernels, up to the first that fails. -/
def loweringKernels (o : Options) (globals : List Virtual.Global) :
    List Source.Kernel → List Event
  | [] => []
  | k :: rest =>
    loweringKernel o globals k ++
      if (lowerKernel o globals k).isOk then loweringKernels o globals rest else []

/-- The log of lowering globals, up to the first that fails. -/
def loweringGlobals (gs : List Source.Global) : List Event :=
  (successes (gs.map fun g => (lowerGlobal g).map fun v => (g, v))).map fun (g, v) =>
    .globalLowered g.name (Virtual.typeText v.type) v.linkage.name g.init.length

/-- The log of lowering a module. -/
def lowering (o : Options) (m : Source.Module) : List Event :=
  let kernels := match lowerGlobals m.globals with
    | .ok globals => loweringKernels o globals m.kernels
    | .error _ => []
  let outcome : List Event := match lower o m with
    | .ok v => [.moduleDone v.assembly, .ended none]
    | .error e => [.ended (some e.message)]
  .moduleStarted m.path :: loweringGlobals m.globals ++ kernels ++ outcome

/-! ### Compiling -/

/-- The log of compiling a text. -/
def compiling (o : Options) (path text : String) : List Event :=
  match Source.Description.ofText text with
  | .error _ => []
  | .ok d =>
    loading d ++ match d.load path with
      | .ok m => lowering o m
      | .error _ => []

end KernelIR.Trace
