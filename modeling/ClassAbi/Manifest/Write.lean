import ClassAbi.Manifest.Basic
import ClassAbi.Text.Number

/-!
# Writing manifests

The TOML document of a manifest: the table of settings, and one table for every class, method and field, with all its
values. Texts stand in quotation marks, with escapes for quotation marks, backslashes and control characters.
-/

namespace ClassAbi.Manifest

def escapeByte (b : UInt8) : Text :=
  if b = 0x22 ∨ b = 0x5C then [0x5C, b]
  else if b < 0x20 ∨ b = 0x7F then "\\u00" ++ Text.ofByteHex b
  else [b]

def quoted (t : Text) : Text := "\"" ++ t.flatMap escapeByte ++ "\""

def entry (key value : Text) : Text := key ++ " = " ++ value ++ "\n"

def textEntry (key : String) (t : Text) : Text := entry key (quoted t)

def boolEntry (key : String) (b : Bool) : Text := entry key (if b then "true" else "false" : String)

def textsEntry (key : String) (ts : List Text) : Text := entry key ("[" ++ Text.join ", " (ts.map quoted) ++ "]")

def writeBuild (b : BuildSettings) : Text :=
  "[build]\n" ++ textEntry "target" b.target ++ boolEntry "jcr_segment" b.registers ++ textEntry "output" b.output

def writeMethod (m : MethodSpec) : Text :=
  "[[class.method]]\n" ++ textEntry "name" m.name ++ textEntry "desc" m.descriptor ++ textsEntry "access" m.access ++
    textsEntry "ops" m.ops

def writeField (f : FieldSpec) : Text :=
  "[[class.field]]\n" ++ textEntry "name" f.name ++ textEntry "desc" f.descriptor ++ textsEntry "access" f.access

def writeClass (c : ClassSpec) : Text :=
  "[[class]]\n" ++ textEntry "name" c.name ++ textEntry "super" c.super ++ textsEntry "interfaces" c.interfaces ++
    textsEntry "access" c.access ++ boolEntry "external" c.external ++ c.methods.flatMap writeMethod ++
    c.fields.flatMap writeField

def write (m : Manifest) : Text := writeBuild m.build ++ m.classes.flatMap writeClass

end ClassAbi.Manifest
