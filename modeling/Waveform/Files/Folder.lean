/-!
# Files and folders

A path leads step by step from the folder in which the work is done to a file or a folder. Of the
folders above that one it is known only that they are there.
-/

namespace Waveform

/-- Why nothing can be opened at a path. -/
inductive OpenFault where
  | missing
  /-- A step leads on from a file. -/
  | notFolder
  | nameTooLong
  /-- There is a zero byte in the path. -/
  | malformed
deriving DecidableEq

/-- The complaint about a path. -/
def OpenFault.message : OpenFault → String
  | .missing => "No such file or directory (os error 2)"
  | .notFolder => "Not a directory (os error 20)"
  | .nameTooLong => "File name too long (os error 36)"
  | .malformed => "file name contained an unexpected NUL byte"

/-- What can be opened at a path. -/
inductive Place where
  | file (bytes : List UInt8)
  | folder
deriving DecidableEq

namespace Place

/-- The complaint about a folder that is read like a file. -/
def folderMessage : String := "Is a directory (os error 21)"

/-- The size of a folder, whatever is in it. -/
def folderSize : Nat := 4096

/-- The size of a place, as it is known before the place is read. -/
def size : Place → Nat
  | .file bytes => bytes.length
  | .folder => folderSize

end Place

/-- What there is to be opened at each path. -/
abbrev Places := String → Except OpenFault Place

/-- A file and its bytes. -/
structure NamedFile where
  name : String
  bytes : List UInt8
deriving DecidableEq

/-- A folder that holds files and no other folder. -/
abbrev Folder := List NamedFile

namespace Folder

/-- The bytes of the file of a name; of two files of one name the later one has replaced the
other. -/
def find? (folder : Folder) (name : String) : Option (List UInt8) :=
  (folder.reverse.find? fun file => file.name = name).map NamedFile.bytes

/-- Where a path has led so far. -/
inductive Position where
  /-- In the folder itself. -/
  | inside
  /-- In one of the folders above it. -/
  | above
  | atFile (bytes : List UInt8)
deriving DecidableEq

/-- What is opened where a path ends. -/
def Position.place : Position → Place
  | .atFile bytes => .file bytes
  | _ => .folder

/-- How many bytes the name of a file may have. -/
def nameLimit : Nat := 255

/-- How many bytes a path may have. -/
def pathLimit : Nat := 4095

/-- Go to a name. -/
def enter (folder : Folder) (position : Position) (name : String) : Except OpenFault Position :=
  if nameLimit < name.utf8ByteSize then .error .nameTooLong
  else
    match position, folder.find? name with
    | .inside, some bytes => .ok (.atFile bytes)
    | _, _ => .error .missing

/-- Take one step. An empty step and a point stay in a folder, two points lead to the one above;
from a file no step leads on. -/
def step (folder : Folder) (position : Position) (name : String) : Except OpenFault Position :=
  match position with
  | .atFile _ => .error .notFolder
  | _ =>
      if name = "" ∨ name = "." then .ok position
      else if name = ".." then .ok .above
      else folder.enter position name

/-- Where a path starts. -/
def origin (path : String) : Position := if path.startsWith "/" then .above else .inside

/-- What there is at each path that starts from a folder. -/
def places (folder : Folder) : Places := fun path =>
  if path.contains '\x00' then .error .malformed
  else if path = "" then .error .missing
  else if pathLimit < path.utf8ByteSize then .error .nameTooLong
  else ((path.splitOn "/").foldlM folder.step (origin path)).map Position.place

end Folder

end Waveform
