import ClassAbi.Hash
import ClassAbi.Workspace

/-!
# The pool of name constants

The runtime compares names that are stored with their hash and length and end in a zero byte. Each text has one constant,
made when it is first needed.
-/

namespace ClassAbi.Abi

open ClassAbi.Action

def session : Action Session := do need (← get).session

def modifySession (f : Session → Session) : Action Unit := modify fun w => { w with session := w.session.map f }

def checkOpen (cls : Text) : Action Unit := do
  if (← session).closed then refuse cls .closed

def poolInit (text : Text) : Init :=
  .compound [.word .uint16 (nameHash text).toNat, .word .uint16 text.length,
    .compound (text.map (fun b => .word .uint8 b.toNat) ++ [.word .uint8 0])]

def intern (text : Text) : Action PoolConstant := do
  checkOpen []
  match (← session).pool[text]? with
  | some c => return c
  | none =>
    if 0xFFFF < text.length then refuse [] (.longConstant text.length)
    let type := (← session).types.utf8
    let id ← onProgram (·.uniqueName "_Utf8")
    let entity ← newEntity id id type
    modifyEntity entity fun e =>
      { e with init := some (poolInit text), visibility := .hidden, linkage := { e.linkage with constant := true } }
    let c : PoolConstant := ⟨text, nameHash text, entity⟩
    modifySession fun s => { s with pool := s.pool.insert text c, constants := s.constants.push c }
    return c

/-- The constant for a name as the runtime spells it, with dots instead of slashes. -/
def internDotted (name : Text) : Action PoolConstant := intern (Text.replace 0x2F 0x2E name)

end ClassAbi.Abi
