import ClassAbi.Text.Basic
import ClassAbi.Word

/-!
# Stages of a compilation

The stages run one after the other. Each reports when it starts and when it ends, and how long it took.
-/

namespace ClassAbi

inductive Stage where
  | load
  | layout
  | dispatch
  | describe
  | lower
  | reach
  | emit
  deriving Repr, DecidableEq, BEq, Inhabited

namespace Stage

def all : List Stage := [load, layout, dispatch, describe, lower, reach, emit]

def name : Stage → Text
  | load => "load"
  | layout => "layout"
  | dispatch => "dispatch"
  | describe => "rtti"
  | lower => "lower"
  | reach => "rta"
  | emit => "emit"

end Stage

inductive Status where
  | working
  | done
  | failed
  deriving Repr, DecidableEq, BEq, Inhabited

def Status.name : Status → Text
  | working => "working"
  | done => "done"
  | failed => "error"

def Status.all : List Status := [.working, .done, .failed]

structure Progress where
  stage : Stage
  status : Status
  /-- How long the stage took, in nanoseconds. -/
  elapsed : Int := 0
  deriving Repr, DecidableEq, BEq, Inhabited

def Progress.label (p : Progress) : Text := p.stage.name ++ " " ++ p.status.name

/-- How long stages took, in nanoseconds, under their names. -/
abbrev Timings := List (Text × Int)

namespace Timings

def set (t : Timings) (stage : Text) (elapsed : Int) : Timings := (stage, elapsed) :: t.filter (·.1 != stage)

def has (t : Timings) (stage : Text) : Bool := (t.lookup stage).isSome

def get (t : Timings) (stage : Text) : Int := (t.lookup stage).getD 0

def sum (t : Timings) (stages : List Text) : Int := stages.foldl (fun total stage => wrap (total + get t stage)) 0

end Timings

end ClassAbi
