import Relock.Text.Quoted
import Relock.Text.Utf8

/-!
# Files of a command

Places in a file tree, what stands at them, and the ways in which reading and writing fail there. A
place is written from an anchor, which is empty for the root of the tree; a word of the command line
names a place from the working directory, or from the root if it starts with a slash.
-/

namespace Relock.Command

/-- A place in a file tree: the names from an anchor down. -/
structure FilePlace where
  anchor : String := ""
  names : List String := []
  deriving DecidableEq, Repr, Inhabited

namespace FilePlace

/-- The place as messages show it. -/
def text (place : FilePlace) : String :=
  if place.names.isEmpty then (if place.anchor.isEmpty then "/" else place.anchor)
  else place.anchor ++ "/" ++ "/".intercalate place.names

/-- The place that holds a place; the top holds itself. -/
def parent (place : FilePlace) : FilePlace := { place with names := place.names.dropLast }

/-- Goes down by a name. The empty name and a point stay, and two points go up. -/
def enter (place : FilePlace) (name : String) : FilePlace :=
  if name.isEmpty || name = "." then place
  else if name = ".." then place.parent
  else { place with names := place.names ++ [name] }

/-- The place that a word names from a working directory. -/
def resolve (here : FilePlace) (word : String) : FilePlace :=
  let start : FilePlace := if word.toList.head? = some '/' then {} else here
  (word.splitOn "/").foldl enter start

end FilePlace

/-- What stands at a place. -/
inductive FileEntry where
  | missing
  /-- A name above the place is that of a file. -/
  | blocked
  | directory
  | file (bytes : List UInt8)
  deriving Inhabited

def FileEntry.exists : FileEntry → Bool
  | missing | blocked => false
  | _ => true

/-- Why a place cannot be read or written. -/
inductive StorageFault where
  | fileExists (place : FilePlace)
  | notDirectory (place : FilePlace)
  | isDirectory (place : FilePlace)
  | notFound (place : FilePlace)
  | undecodable (error : Text.Utf8Error)
  deriving Inhabited

def StorageFault.message : StorageFault → String
  | fileExists place => s!"[Errno 17] File exists: {Text.quoted place.text}"
  | notDirectory place => s!"[Errno 20] Not a directory: {Text.quoted place.text}"
  | isDirectory place => s!"[Errno 21] Is a directory: {Text.quoted place.text}"
  | notFound place => s!"[Errno 2] No such file or directory: {Text.quoted place.text}"
  | undecodable error => error.message

/-- The text of the file at a place. -/
def readText (look : FilePlace → FileEntry) (place : FilePlace) : Except StorageFault String :=
  match look place with
  | .file bytes => (Text.fileText bytes).mapError .undecodable
  | .directory => .error (.isDirectory place)
  | .blocked => .error (.notDirectory place)
  | .missing => .error (.notFound place)

/-- Whether a file can be written at a place. Directories that are missing above it are made. -/
def checkWritable (look : FilePlace → FileEntry) (place : FilePlace) : Except StorageFault Unit :=
  match look place.parent with
  | .file _ => .error (.fileExists place.parent)
  | .blocked => .error (.notDirectory place.parent)
  | _ => match look place with
    | .directory => .error (.isDirectory place)
    | _ => .ok ()

end Relock.Command
