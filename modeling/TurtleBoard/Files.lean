import TurtleBoard.Utf8

/-! Files that have been read in advance, each with its bytes or with the reason why there are none. -/
namespace TurtleBoard

inductive FileError where
  | missing
  | notDirectory
  | directory
  | nameTooLong
  | nulInPath
  | notText
  | other (code : Nat) (reason : String)
  deriving DecidableEq, Repr

def systemMessage (reason : String) (code : Nat) : String := reason ++ " (os error " ++ toString code ++ ")"

def FileError.message : FileError → String
  | missing => systemMessage "No such file or directory" 2
  | notDirectory => systemMessage "Not a directory" 20
  | directory => systemMessage "Is a directory" 21
  | nameTooLong => systemMessage "File name too long" 36
  | nulInPath => "file name contained an unexpected NUL byte"
  | notText => "stream did not contain valid UTF-8"
  | other code reason => systemMessage reason code

def Files : Type := List (String × Except FileError ByteArray)

namespace Files

def bytes (files : Files) (path : String) : Except FileError ByteArray := (files.lookup path).getD (.error .missing)

def text (files : Files) (path : String) : Except FileError String :=
  match files.bytes path with
  | .ok bytes =>
      match Utf8.text? bytes with
      | some text => .ok text
      | none => .error .notText
  | .error cause => .error cause

def texts (files : Files) : List String → Except (String × FileError) (List String)
  | [] => .ok []
  | path :: paths =>
      match files.text path with
      | .error cause => .error (path, cause)
      | .ok text => (files.texts paths).map (text :: ·)

end Files
end TurtleBoard
