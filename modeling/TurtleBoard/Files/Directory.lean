import TurtleBoard.Files
import TurtleBoard.Text

/-! A directory held in memory, and the walk along a path that names one of its files. Nothing is known of what lies
outside, but that it is made of directories. -/
namespace TurtleBoard

structure Directory where
  files : List (List String × ByteArray)

namespace Directory

inductive Place where
  | inside (parts : List String)
  | outside
  | file (bytes : ByteArray)

def maxName : Nat := 255

def maxPath : Nat := 4095

def ofFiles (files : List (String × ByteArray)) : Directory :=
  ⟨files.map fun (path, bytes) => ((Text.fields (· == '/') path.toList).map String.ofList, bytes)⟩

def enter (d : Directory) (parts : List String) : Except FileError Place :=
  match d.files.find? (·.1 == parts) with
  | some (_, bytes) => .ok (.file bytes)
  | none => if d.files.any fun file => parts.isPrefixOf file.1 then .ok (.inside parts) else .error .missing

/- One part of a path: one dot is the same directory, two are the one above. Whether a name is too long is seen before
whether it names anything. -/
def step (d : Directory) (place : Place) (part : String) : Except FileError Place :=
  match place with
  | .file _ => .error .notDirectory
  | .outside =>
      if part = "." ∨ part = ".." then .ok .outside
      else if maxName < part.utf8ByteSize then .error .nameTooLong
      else .error .missing
  | .inside parts =>
      if part = "." then .ok (.inside parts)
      else if part = ".." then .ok (if parts.isEmpty then .outside else .inside parts.dropLast)
      else if maxName < part.utf8ByteSize then .error .nameTooLong
      else d.enter (parts ++ [part])

def partsOf (path : List Char) : List String :=
  let parts := (Text.fields (· == '/') path).filter (· ≠ [])
  (parts ++ if path.getLast? = some '/' then [['.']] else []).map String.ofList

def read (d : Directory) (path : String) : Except FileError ByteArray := do
  if path.toList.contains '\x00' then throw .nulInPath
  if path = "" then throw .missing
  if maxPath < path.utf8ByteSize then throw .nameTooLong
  let start := if path.toList.head? = some '/' then Place.outside else .inside []
  match ← (partsOf path.toList).foldlM d.step start with
  | .file bytes => return bytes
  | _ => throw .directory

def readAll (d : Directory) (paths : List String) : Files := paths.map fun path => (path, d.read path)

end Directory
end TurtleBoard
