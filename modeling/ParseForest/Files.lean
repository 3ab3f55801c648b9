import ParseForest.Error

/-!
# Files

Commands ask for the text of a file by its path. A directory in memory answers such
questions by the rules of a file system: a path is a list of names between slashes,
each name but the last has to lead to a directory, and neither a name nor a path may
be too long.
-/

namespace ParseForest

abbrev Files := String → Except FileFault String

def textOfBytes (content : ByteArray) : Except FileFault String :=
  match String.fromUTF8? content with
  | some text => .ok text
  | none => .error .notText

/-- A file with its content, or a directory with nothing in it. -/
inductive Entry where
  | file (content : ByteArray)
  | folder

/-- A directory as the list of its entries by name. -/
structure Directory where
  entries : List (String × Entry)

def maxNameBytes : Nat := 255

def maxPathBytes : Nat := 4095

namespace Directory

/-- Where a path leads: to the directory itself, to an entry, or out of the directory. -/
inductive Place where
  | outside
  | top
  | entry (e : Entry)

def step (d : Directory) (place : Place) (name : String) : Except FileFault Place :=
  match place with
  | .entry (.file _) => .error .notDirectory
  | _ =>
    if maxNameBytes < name.utf8ByteSize then .error .nameTooLong
    else if name = "" ∨ name = "." then .ok place
    else match place with
      | .top =>
        if name = ".." then .ok .outside
        else match d.entries.lookup name with
          | some e => .ok (.entry e)
          | none => .error .notFound
      | .entry _ => if name = ".." then .ok .top else .error .notFound
      | .outside => if name = ".." then .ok .outside else .error .notFound

/-- The names between the slashes of a path. -/
def names (path : String) : List String :=
  (path.toList.splitOn '/').map String.ofList

def resolve (d : Directory) (path : String) : Except FileFault Place :=
  match names path with
  | [""] => .error .notFound
  | "" :: rest => rest.foldlM d.step .outside
  | parts => parts.foldlM d.step .top

def files (d : Directory) : Files := fun path => do
  if path.toList.contains '\x00' then throw .nulInName
  if maxPathBytes < path.utf8ByteSize then throw .nameTooLong
  match ← d.resolve path with
  | .entry (.file content) => textOfBytes content
  | _ => throw .isDirectory

end Directory

/-- What follows the last dot in the last name of a path. A name has no extension if
nothing stands before that dot. -/
def extension? (path : String) : Option String :=
  let name := ((path.toList.splitOn '/').getLast?).getD []
  match name.splitOn '.' with
  | [] | [_] | [[], _] => none
  | parts => parts.getLast?.map String.ofList

end ParseForest
