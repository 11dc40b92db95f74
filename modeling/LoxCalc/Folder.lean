/-!
# Folders in memory

A folder holds files and folders under relative paths.  `Folder.read?` follows a path from the
folder: a lone dot stays where it is, two dots go up, and a path that leaves the folder, goes
through a file or ends at a folder leads to no file.
-/

namespace LoxCalc

/-- What a path leads to. -/
inductive Folder.Entry
  | file (octets : List UInt8)
  | folder

/-- Files and folders by their paths. -/
abbrev Folder := List (String × Folder.Entry)

namespace Folder

/-- The entry at a place, given by the names that lead there; the folder itself is at the empty
place, and every file makes the folders that it lies in. -/
def entry? (d : Folder) (place : List String) : Option Entry :=
  if place = [] then some .folder
  else match d.lookup (String.intercalate "/" place) with
    | some e => some e
    | none =>
      if d.any fun (name, _) => (String.intercalate "/" place ++ "/").isPrefixOf name then
        some .folder
      else none

/-- Follows the parts of a path from a place; the place is kept in reverse. -/
def walk (d : Folder) (place : List String) : List String → Option Entry
  | [] => d.entry? place.reverse
  | part :: rest =>
    match d.entry? place.reverse with
    | some .folder =>
      if part = "" ∨ part = "." then d.walk place rest
      else if part = ".." then
        match place with
        | [] => none
        | _ :: up => d.walk up rest
      else d.walk (part :: place) rest
    | _ => none

/-- The octets of the file that a path leads to. -/
def read? (d : Folder) (path : String) : Option (List UInt8) :=
  if path = "" ∨ path.startsWith "/" then none
  else match d.walk [] (path.splitOn "/") with
    | some (.file octets) => some octets
    | _ => none

end Folder

end LoxCalc
