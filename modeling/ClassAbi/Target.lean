import ClassAbi.Text.Quoted
import ClassAbi.Text.Space

/-!
# Targets

The platforms for which classes are compiled: the size of a reference, and the decoration that the platform's linker puts
in front of every global name.
-/

namespace ClassAbi

structure Target where
  triple : Text
  pointerSize : Int
  pointerAlign : Int
  /-- What stands before every global linker name. -/
  decoration : Text
  deriving Repr, DecidableEq, BEq, Inhabited

structure UnsupportedTarget where
  triple : Text
  deriving Repr, DecidableEq, BEq

def UnsupportedTarget.message (e : UnsupportedTarget) : Text :=
  "unsupported target " ++ e.triple.quote ++ " (supported: x86_64-linux-gnu, i686-linux-gnu, x86_64-apple-darwin)"

namespace Target

def linux64 : Target := ⟨"x86_64-linux-gnu", 8, 8, []⟩

def linux32 : Target := ⟨"i686-linux-gnu", 4, 4, []⟩

/-- 64-bit macOS, whose linker names begin with an underscore. -/
def darwin64 : Target := ⟨"x86_64-apple-darwin", 8, 8, "_"⟩

/-- The triples of the supported platforms. The empty triple is that of the default platform. -/
def supported : List (Text × Target) :=
  [("", linux64), ("x86_64-linux-gnu", linux64), ("x86_64-unknown-linux-gnu", linux64),
    ("i686-linux-gnu", linux32), ("i386-linux-gnu", linux32),
    ("x86_64-apple-darwin", darwin64), ("x86_64-apple-macosx", darwin64)]

def ofTriple (triple : Text) : Except UnsupportedTarget Target :=
  match supported.lookup triple.keyword with
  | some target => .ok target
  | none => .error ⟨triple⟩

def decorate (target : Target) (name : Text) : Text := target.decoration ++ name

def undecorate? (target : Target) (name : Text) : Option Text := Text.after? target.decoration name

end Target

end ClassAbi
