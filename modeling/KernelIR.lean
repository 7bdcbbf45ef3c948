import KernelIR.BitSet
import KernelIR.CommandLine.Console
import KernelIR.CommandLine.Location
import KernelIR.CommandLine.Request
import KernelIR.CommandLine.Run
import KernelIR.CommandLine.World
import KernelIR.Compile
import KernelIR.Container.Listing
import KernelIR.Container.SymbolTable
import KernelIR.Document.Comment
import KernelIR.Document.Cursor
import KernelIR.Document.Lexer
import KernelIR.Document.Meaning
import KernelIR.Document.Node
import KernelIR.Document.Scalar
import KernelIR.Document.Timestamp
import KernelIR.Document.Token
import KernelIR.Document.Value
import KernelIR.Floating.Format
import KernelIR.Floating.Literal
import KernelIR.Floating.Shortest
import KernelIR.Lowering.Fault
import KernelIR.Lowering.Instruction
import KernelIR.Lowering.Kernel
import KernelIR.Lowering.Module
import KernelIR.Lowering.Operand
import KernelIR.Lowering.Scope
import KernelIR.Lowering.Selection
import KernelIR.Lowering.Session
import KernelIR.Main
import KernelIR.Proofs.BitSet
import KernelIR.Proofs.Container.Layout
import KernelIR.Proofs.Container.Names
import KernelIR.Proofs.Fallible
import KernelIR.Proofs.Lowering.Acceptance
import KernelIR.Proofs.Lowering.Access
import KernelIR.Proofs.Lowering.Apart
import KernelIR.Proofs.Lowering.Arithmetic
import KernelIR.Proofs.Lowering.Capture
import KernelIR.Proofs.Lowering.Classified
import KernelIR.Proofs.Lowering.Closed
import KernelIR.Proofs.Lowering.Conversion
import KernelIR.Proofs.Lowering.Correspondence
import KernelIR.Proofs.Lowering.Faithful
import KernelIR.Proofs.Lowering.Flow
import KernelIR.Proofs.Lowering.Frame
import KernelIR.Proofs.Lowering.Instruction
import KernelIR.Proofs.Lowering.Kernel
import KernelIR.Proofs.Lowering.Labels
import KernelIR.Proofs.Lowering.Layout
import KernelIR.Proofs.Lowering.Literal
import KernelIR.Proofs.Lowering.Module
import KernelIR.Proofs.Lowering.Naming
import KernelIR.Proofs.Lowering.Operand
import KernelIR.Proofs.Lowering.RegisterUse
import KernelIR.Proofs.Lowering.Session
import KernelIR.Proofs.Lowering.Step
import KernelIR.Proofs.Lowering.Success
import KernelIR.Proofs.Lowering.Symbols
import KernelIR.Proofs.Lowering.Unread
import KernelIR.Proofs.Related
import KernelIR.Proofs.Source.Coverage
import KernelIR.Proofs.Source.Decomposition
import KernelIR.Proofs.Source.Load
import KernelIR.Proofs.Source.Loaded
import KernelIR.Proofs.Source.Names
import KernelIR.Proofs.Source.Numbering
import KernelIR.Proofs.Source.Parser.Faults
import KernelIR.Proofs.Source.Parser.Independence
import KernelIR.Proofs.Source.Parser.Joining
import KernelIR.Proofs.Source.Parser.Line
import KernelIR.Proofs.Source.Parser.Literal
import KernelIR.Proofs.Source.Parser.Masking
import KernelIR.Proofs.Source.Parser.Mnemonic
import KernelIR.Proofs.Source.Parser.Operand
import KernelIR.Proofs.Source.Parser.Padding
import KernelIR.Proofs.Source.Parser.Printed
import KernelIR.Proofs.Source.Parser.Range
import KernelIR.Proofs.Source.Parser.Reading
import KernelIR.Proofs.Source.Parser.Shadowing
import KernelIR.Proofs.Source.Parser.Split
import KernelIR.Proofs.Source.Parser.SuffixOrder
import KernelIR.Proofs.Source.Placement
import KernelIR.Proofs.Source.Sequence
import KernelIR.Proofs.Table
import KernelIR.Proofs.Text.Grammar
import KernelIR.Proofs.Text.Numeral
import KernelIR.Proofs.Text.Utf8
import KernelIR.Proofs.Virtual.BlockList
import KernelIR.Proofs.Virtual.Blocks
import KernelIR.Proofs.Virtual.Change
import KernelIR.Proofs.Virtual.Join
import KernelIR.Proofs.Virtual.Layout
import KernelIR.Proofs.Virtual.Listing
import KernelIR.Proofs.Virtual.Operation
import KernelIR.Proofs.Virtual.Ownership
import KernelIR.Proofs.Virtual.Refusal
import KernelIR.Proofs.Virtual.Representation
import KernelIR.Source.DataType
import KernelIR.Source.Description
import KernelIR.Source.Graph
import KernelIR.Source.Instruction
import KernelIR.Source.LineError
import KernelIR.Source.Load
import KernelIR.Source.Modifier
import KernelIR.Source.Module
import KernelIR.Source.Opcode
import KernelIR.Source.Operand
import KernelIR.Source.Parser.Line
import KernelIR.Source.Parser.Literal
import KernelIR.Source.Parser.Mnemonic
import KernelIR.Source.Parser.Operand
import KernelIR.Source.Parser.Split
import KernelIR.Source.Scope
import KernelIR.Source.Sequence
import KernelIR.Source.Special
import KernelIR.Source.Tag
import KernelIR.Text.Blank
import KernelIR.Text.Joined
import KernelIR.Text.Numeral
import KernelIR.Text.Printable
import KernelIR.Text.Quoted
import KernelIR.Text.Utf8
import KernelIR.Trace
import KernelIR.Virtual.Assembly
import KernelIR.Virtual.Constant
import KernelIR.Virtual.Defect
import KernelIR.Virtual.Instr
import KernelIR.Virtual.Module
import KernelIR.Virtual.Opcode
import KernelIR.Virtual.Operand
import KernelIR.Virtual.Tag
import KernelIR.Virtual.ValueType
import KernelIR.Virtual.Wire
import KernelIR.Virtual.Workspace
