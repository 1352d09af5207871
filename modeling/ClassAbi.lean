import ClassAbi.Outcome
import ClassAbi.Word
import ClassAbi.Descent
import ClassAbi.Text.Basic
import ClassAbi.Text.JsonString
import ClassAbi.Text.Utf8
import ClassAbi.Text.Number
import ClassAbi.Text.Space
import ClassAbi.Text.Printable
import ClassAbi.Text.Quoted
import ClassAbi.Text.Ascii
import ClassAbi.LinkerName.Error
import ClassAbi.LinkerName.Ident
import ClassAbi.LinkerName.Encode
import ClassAbi.LinkerName.Decode
import ClassAbi.Mode
import ClassAbi.Target
import ClassAbi.Access
import ClassAbi.Hash
import ClassAbi.Version
import ClassAbi.Type.Basic
import ClassAbi.Type.Text
import ClassAbi.Layout.Basic
import ClassAbi.Layout.Engine
import ClassAbi.Text.Scientific
import ClassAbi.Program.Op
import ClassAbi.Program.Constant
import ClassAbi.Graph.Basic
import ClassAbi.Program.Basic
import ClassAbi.Module.Type
import ClassAbi.Module.Symbol
import ClassAbi.Module.Constant
import ClassAbi.Module.Instruction
import ClassAbi.Module.Basic
import ClassAbi.Module.Error
import ClassAbi.Module.Content
import ClassAbi.Module.Body
import ClassAbi.Module.Emit
import ClassAbi.Class.Type
import ClassAbi.Class.Basic
import ClassAbi.Class.Error
import ClassAbi.Class.Descriptor
import ClassAbi.Trace.Level
import ClassAbi.Trace.Event
import ClassAbi.Trace.Recorder
import ClassAbi.Trace.Tracer
import ClassAbi.Abi.Error
import ClassAbi.Manifest.Error
import ClassAbi.Lowering.Error
import ClassAbi.Error
import ClassAbi.Abi.ClassRecord
import ClassAbi.Abi.Session
import ClassAbi.Workspace
import ClassAbi.Class.Hierarchy
import ClassAbi.Class.Declare
import ClassAbi.Class.Instance
import ClassAbi.Class.Slots
import ClassAbi.Class.Members
import ClassAbi.Abi.Pool
import ClassAbi.Abi.Start
import ClassAbi.Abi.Record
import ClassAbi.Abi.Vtable
import ClassAbi.Abi.Descriptor
import ClassAbi.Abi.Dynamic
import ClassAbi.Lowering.Op
import ClassAbi.Lowering.Body
import ClassAbi.Reach.Index
import ClassAbi.Reach.Snapshot
import ClassAbi.Reach.IndexFile
import ClassAbi.Manifest.Basic
import ClassAbi.Manifest.RuntimeLibrary
import ClassAbi.Manifest.Populate
import ClassAbi.Manifest.Read
import ClassAbi.Manifest.Write
import ClassAbi.Compile.Watch
import ClassAbi.Compile.Output
import ClassAbi.CommandLine.Run
import ClassAbi.Main
import ClassAbi.Files.World
import ClassAbi.Text.Duration
import ClassAbi.Proofs.Text.Numeral
import ClassAbi.Proofs.Text.Parts
import ClassAbi.Proofs.Text.Utf8
import ClassAbi.Proofs.LinkerName.Escape
import ClassAbi.Proofs.LinkerName.Segment
import ClassAbi.Proofs.LinkerName.Path
import ClassAbi.Proofs.LinkerName.Parameter
import ClassAbi.Proofs.LinkerName.Member
import ClassAbi.Proofs.LinkerName.Symbol
import ClassAbi.Proofs.LinkerName.Inverse
import ClassAbi.Proofs.LinkerName.Initializer
import ClassAbi.Proofs.LinkerName.Unique
import ClassAbi.Proofs.LinkerName.Outside
import ClassAbi.Proofs.Action
import ClassAbi.Proofs.Class.Hierarchy
import ClassAbi.Proofs.Class.SlotTable
import ClassAbi.Proofs.Class.Declared
import ClassAbi.Proofs.Layout.DataType
import ClassAbi.Proofs.Layout.Words
import ClassAbi.Proofs.Layout.Engine
import ClassAbi.Proofs.Workspace
import ClassAbi.Proofs.Program
import ClassAbi.Proofs.Class.Slots
import ClassAbi.Proofs.Class.Dispatch
import ClassAbi.Proofs.Class.Instance
import ClassAbi.Proofs.Module.Packing
import ClassAbi.Proofs.Module.Content
import ClassAbi.Proofs.Class.Entities
import ClassAbi.Proofs.Class.Members
import ClassAbi.Proofs.Abi.Start
import ClassAbi.Proofs.Abi.Change
import ClassAbi.Proofs.Abi.Record
import ClassAbi.Proofs.Abi.Build
import ClassAbi.Proofs.Abi.Works
import ClassAbi.Proofs.Abi.Operation
import ClassAbi.Proofs.Abi.Session
import ClassAbi.Proofs.Class.Known
import ClassAbi.Proofs.Abi.Descriptor
import ClassAbi.Proofs.Abi.Vtable
import ClassAbi.Proofs.Lowering.Graph
import ClassAbi.Proofs.Lowering.Operation
import ClassAbi.Proofs.Lowering.Body
import ClassAbi.Proofs.Abi.Inventory
import ClassAbi.Proofs.Abi.Pool
import ClassAbi.Proofs.Abi.Built
import ClassAbi.Proofs.Lowering.Arguments
import ClassAbi.Proofs.Lowering.MultiArray
import ClassAbi.Proofs.Abi.Objects
import ClassAbi.Proofs.Abi.Vptr
import ClassAbi.Proofs.Class.Renaming
import ClassAbi.Proofs.Manifest.Populate
import ClassAbi.Proofs.Manifest.Order
import ClassAbi.Proofs.Reach.Index
import ClassAbi.Proofs.Compile.Stage
import ClassAbi.Proofs.Compile.Reports
import ClassAbi.Proofs.Trace.Nesting
import ClassAbi.Proofs.Trace.Actions
import ClassAbi.Proofs.Compile.Spans
import ClassAbi.Proofs.Compile.Assembly
import ClassAbi.Proofs.Compile.Bodies
import ClassAbi.Proofs.LinkerName.Recognized
import ClassAbi.Proofs.Reach.Attribution
import ClassAbi.Proofs.MessagePack.Takes
import ClassAbi.Proofs.Reach.IndexFile
import ClassAbi.Proofs.Layout.Sized
import ClassAbi.Proofs.Layout.Queries
import ClassAbi.Proofs.Type.Text
import ClassAbi.Proofs.Abi.Closed
import ClassAbi.Proofs.Abi.TypeDescriptor
import ClassAbi.Proofs.Files.Path
import ClassAbi.Proofs.Files.Tree
import ClassAbi.Proofs.Files.Seen
import ClassAbi.Proofs.Compile.Output
import ClassAbi.Proofs.LinkerName.Method
import ClassAbi.Proofs.Layout.Leaves
import ClassAbi.Proofs.Hash
import ClassAbi.Proofs.Trace.Ring
import ClassAbi.Proofs.Class.Sorting
import ClassAbi.Proofs.Abi.ArrayHeader
import ClassAbi.Proofs.Module.Body
