/-!
# A working directory in memory

A working directory that holds some files and some empty folders, enough to
say what reading a path gives: the bytes of a file, or why there are none.
A path is followed name by name.  Only what is above the working directory is
unknown, and nothing is found there.
-/

namespace LoxLexer

namespace Session

/-- Why a path cannot be read. -/
inductive ReadFailure where
  | notFound
  | notDirectory
  | isDirectory
deriving DecidableEq, Repr

/-- The wording of a failure, with the number that the system gives it. -/
def ReadFailure.message : ReadFailure → List Char
  | notFound => "No such file or directory (os error 2)".toList
  | notDirectory => "Not a directory (os error 20)".toList
  | isDirectory => "Is a directory (os error 21)".toList

/-- The files in a working directory, by name, and the names of its empty folders. -/
structure Directory where
  files : List (List Char × List UInt8)
  folders : List (List Char)
deriving DecidableEq, Repr

/-- A place that a path can lead to. -/
inductive Place where
  | above
  | here
  | folder
  | file (bytes : List UInt8)
deriving DecidableEq, Repr

namespace Directory

/-- Follows one name of a path. Where two slashes meet the name is empty, and
an empty name and a dot stay where they are. -/
def enter (d : Directory) (place : Place) (name : List Char) : Except ReadFailure Place :=
  match place with
  | .file _ => .error .notDirectory
  | place =>
    if name = [] ∨ name = ['.'] then .ok place
    else
      match place with
      | .here =>
        if name = ['.', '.'] then .ok .above
        else if d.folders.contains name then .ok .folder
        else
          match d.files.lookup name with
          | some bytes => .ok (.file bytes)
          | none => .error .notFound
      | .folder => if name = ['.', '.'] then .ok .here else .error .notFound
      | _ => if name = ['.', '.'] then .ok .above else .error .notFound

/-- The bytes of the file that a path leads to. -/
def read (d : Directory) (path : List Char) : Except ReadFailure (List UInt8) := do
  let root := if path.head? = some '/' then Place.above else Place.here
  match ← (path.splitOn '/').foldlM d.enter root with
  | .file bytes => .ok bytes
  | _ => .error .isDirectory

end Directory

end Session

end LoxLexer
