import ClassAbi.Reach.Index

/-!
# Snapshots

The part of the reachability index that is written to a file. Entities are known by their linker names, and an empty name
stands for none.
-/

namespace ClassAbi.Reach

structure ClassEntry where
  cls : Text := []
  descriptor : Text := []
  init : Text := []
  deriving Repr, DecidableEq, BEq, Inhabited

structure CallEntry where
  caller : Text := []
  cls : Text := []
  init : Text := []
  deriving Repr, DecidableEq, BEq, Inhabited

/-- The content of an index file. A list may be absent, which differs from an empty one. -/
structure Snapshot where
  schema : UInt16 := 0
  target : Text := []
  classes : Option (List ClassEntry) := none
  calls : Option (List CallEntry) := none
  deriving Repr, DecidableEq, BEq, Inhabited

def currentSchema : UInt16 := 1

def ldOf (p : Program) (e : Option EntityId) : Text := ((e.bind p.entity?).map Entity.ld).getD []

def Index.snapshot (x : Index) (p : Program) (r : Registry) (triple : Text) (calls : List InitCall) : Snapshot where
  schema := currentSchema
  target := triple
  classes := some (x.classes.map fun c =>
    ⟨r.nameOf c, ldOf p ((r.class? c).bind Class.descriptor), ldOf p x.initializers[c]?⟩)
  calls := some (calls.map fun call => ⟨ldOf p call.caller, (call.cls.map r.nameOf).getD [], ldOf p call.init⟩)

end ClassAbi.Reach
