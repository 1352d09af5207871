import Std.Data.HashMap
import ClassAbi.Descent
import ClassAbi.Layout.Basic

/-!
# Computing layouts

Layouts are computed on demand and remembered for each type, errors included; what is remembered stays even if the type is
changed later. The types under computation are kept on a stack: one that comes up again contains itself. Each step down
takes a type that was not on the stack, so the computation ends.
-/

namespace ClassAbi

abbrev Layouts := Std.HashMap TypeId (Except LayoutError TypeLayout)

namespace Layout

abbrev Engine := ExceptT (Failure LayoutError) (StateM Layouts)

def fault {α : Type} : Engine α := throw .fault

def textOf (types : TypeTable) (t : TypeId) : Engine Text :=
  match types.text? t with
  | some text => pure text
  | none => fault

/-- The outcome of `action`, which is also remembered as that of `t` unless it is a fault. -/
def remember (t : TypeId) (action : Engine TypeLayout) : Engine TypeLayout := fun known =>
  let (result, known) := action known
  match result with
  | .ok l => (.ok l, known.insert t (.ok l))
  | .error (.error e) => (.error (.error e), known.insert t (.error e))
  | .error .fault => (.error .fault, known)

def contained {α : Type} (t : Option TypeId) (f : TypeId → Engine α) : Engine α :=
  match t with
  | none => fault
  | some t => f t

/-- The layout of a type inside the compounds and arrays on the stack, the innermost of which comes first. -/
def layoutIn (types : TypeTable) (target : Target) (stack : List TypeId) (t : TypeId) : Engine TypeLayout := do
  match (← get)[t]? with
  | some (.ok l) => pure l
  | some (.error e) => throw (.error e)
  | none =>
    if onStack : t ∈ stack then
      remember t do
        let cycle ← (t :: ((stack.takeWhile (· ≠ t)).reverse ++ [t])).mapM (textOf types)
        throw (.error (.recursive (← textOf types t) cycle))
    else if bound : t < types.shapes.size then
      match types.shapes[t] with
      | .primitive mode => remember t (pure (scalar target mode))
      | .struct _ members => remember t do
        let p ← members.foldlM (fun p m => do return p.append (← contained m.type (layoutIn types target (t :: stack)))) Partial.empty
        return p.finish
      | .union _ members => remember t do
        let p ← members.foldlM (fun p m => do return p.overlay (← contained m.type (layoutIn types target (t :: stack)))) Partial.empty
        return p.finish
      | .array elem length => remember t do return array (← contained elem (layoutIn types target (t :: stack))) length
      | .routine _ | .unknown => remember t do throw (.error (.unsized (← textOf types t)))
    else fault
termination_by unvisited types.shapes.size stack
decreasing_by all_goals exact unvisited_cons_lt bound onStack

def layoutOf (types : TypeTable) (target : Target) (t : TypeId) : Engine TypeLayout := layoutIn types target [] t

end Layout

end ClassAbi
