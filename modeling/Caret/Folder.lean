/-!
Texts in files: why one cannot be had, and a folder with what is found under a path in it.
-/

namespace Caret

inductive FileError where
  | missing
  | directory
  | notDirectory
  | nameTooLong
  | notText
  | other (message : String)
deriving DecidableEq, Repr

def FileError.message : FileError → String
  | missing => "No such file or directory (os error 2)"
  | directory => "Is a directory (os error 21)"
  | notDirectory => "Not a directory (os error 20)"
  | nameTooLong => "File name too long (os error 36)"
  | notText => "stream did not contain valid UTF-8"
  | other message => message

abbrev Content := Except FileError String

def Content.ofBytes (bytes : ByteArray) : Content :=
  match String.fromUTF8? bytes with
  | some text => .ok text
  | none => .error .notText

/-- A place as a folder sees it: how far up, and the names that lead down from there, the last one first. -/
structure Place where
  above : Nat := 0
  names : List String := []
deriving DecidableEq, Repr

namespace Place

def enter (place : Place) (segment : String) : Place :=
  match segment, place.names with
  | "", _ => place
  | ".", _ => place
  | "..", [] => { place with above := place.above + 1 }
  | "..", _ :: names => { place with names }
  | name, names => { place with names := name :: names }

def holds (place other : Place) : Bool :=
  place.above == other.above && place.names.isSuffixOf other.names

/-- Where a path starts. The root is somewhere above the folder. -/
def start (path : String) : Place :=
  if path.startsWith "/" then { above := 1 } else {}

end Place

structure Folder where
  files : List (Place × Content)

namespace Folder

def ofFiles (files : List (String × Content)) : Folder :=
  ⟨files.map fun (path, content) => ((path.splitOn "/").foldl Place.enter {}, content)⟩

/-- What is at a place. The folder itself, whatever is above it and whatever holds a file are directories. -/
def content (folder : Folder) (place : Place) : Content :=
  match folder.files.lookup place with
  | some content => content
  | none =>
    if place.names.isEmpty || folder.files.any (fun (other, _) => place.holds other) then .error .directory
    else .error .missing

def longestName : Nat := 255

def longestPath : Nat := 4095

/-- Follows one segment of a path, which leads on from directories only. -/
def step (folder : Folder) (place : Place) (segment : String) : Except FileError Place :=
  match folder.content place with
  | .error .directory => if segment.utf8ByteSize ≤ longestName then .ok (place.enter segment) else .error .nameTooLong
  | .error .missing => .error .missing
  | _ => .error .notDirectory

def read (folder : Folder) (path : String) : Content :=
  if path.isEmpty then .error .missing
  else if longestPath < path.utf8ByteSize then .error .nameTooLong
  else do folder.content (← (path.splitOn "/").foldlM folder.step (Place.start path))

end Folder

end Caret
