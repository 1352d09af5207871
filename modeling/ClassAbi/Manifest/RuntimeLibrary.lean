import ClassAbi.Manifest.Basic

/-!
# Classes of the runtime library

The classes that the runtime provides, with the members that compiled code refers to. A class set may declare some of them
itself, and then its declarations hold.
-/

namespace ClassAbi.Manifest

def libraryMethod (name descriptor : Text) (access : List String) : MethodSpec :=
  { name, descriptor, access := access.map Text.ofString }

def libraryInterface (name method descriptor : Text) : ClassSpec :=
  { name
    access := ["public", "interface", "abstract"].map Text.ofString
    external := true
    methods := [libraryMethod method descriptor ["public", "abstract"]] }

def runtimeLibrary : Manifest where
  path := "<runtime>"
  classes :=
    [{ name := "java/lang/Object"
       access := ["public"]
       external := true
       methods :=
        [libraryMethod "<init>" "()V" ["public"],
          libraryMethod "getClass" "()Ljava/lang/Class;" ["public", "final", "native"],
          libraryMethod "hashCode" "()I" ["public", "native"],
          libraryMethod "equals" "(Ljava/lang/Object;)Z" ["public"],
          libraryMethod "toString" "()Ljava/lang/String;" ["public"],
          libraryMethod "finalize" "()V" ["protected"]] },
      { name := "java/lang/Class"
        super := "java/lang/Object"
        access := ["public", "final"]
        external := true },
      { name := "java/lang/String"
        super := "java/lang/Object"
        interfaces := ["java/lang/CharSequence", "java/lang/Comparable"]
        access := ["public", "final"]
        external := true
        methods := [libraryMethod "length" "()I" ["public"]] },
      libraryInterface "java/lang/CharSequence" "length" "()I",
      libraryInterface "java/lang/Comparable" "compareTo" "(Ljava/lang/Object;)I",
      libraryInterface "java/lang/Runnable" "run" "()V"]

/-- The manifests after that of the runtime library, in which the classes that they declare are left out. -/
def withRuntime (ms : List Manifest) : List Manifest :=
  let declared := ms.flatMap fun m => m.classes.map ClassSpec.name
  { runtimeLibrary with classes := runtimeLibrary.classes.filter fun c => !declared.contains c.name } :: ms

end ClassAbi.Manifest
