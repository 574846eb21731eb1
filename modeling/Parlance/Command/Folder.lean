/-!
# Paths and folders

A path is written without empty parts and without parts that stand for the folder they are in. A
folder holds files under the parts of their paths.
-/

namespace Parlance.Command

/-- The parts of a path. -/
def pathParts (path : String) : List String :=
  (path.splitOn "/").filter fun part => part != "" && part != "."

/-- What stands before the parts: two slashes are kept, any other number of them is one. -/
def pathRoot (path : String) : String :=
  match (path.toList.takeWhile (· == '/')).length with
  | 0 => ""
  | 2 => "//"
  | _ => "/"

/-- A path as it is written. -/
def pathText (path : String) : String :=
  let text := pathRoot path ++ "/".intercalate (pathParts path)
  if text.isEmpty then "." else text

/-- What is found under a path. -/
inductive Entry where
  | missing
  | folder
  | file (bytes : ByteArray)
  /-- A name or a path that is too long to be looked up. -/
  | tooLong

abbrev Folder := List (List String × ByteArray)

namespace Folder

def ofFiles (files : List (String × ByteArray)) : Folder :=
  files.map fun file => (pathParts file.1, file.2)

def write (folder : Folder) (name : String) (bytes : ByteArray) : Folder :=
  (pathParts name, bytes) :: folder

/-- The longest name, in bytes. -/
def longestName : Nat := 255

/-- The longest path, in bytes. -/
def longestPath : Nat := 4095

/-- Follows parts from a place in the folder; `none` is a place around it. Below a file there is
nothing, whatever the part; in a folder, a name too long for any entry is told from a missing
one. -/
def follow (folder : Folder) : Option (List String) → List String → Entry
  | none, [] => .folder
  | none, part :: rest =>
    if part = ".." then follow folder none rest
    else if longestName < part.utf8ByteSize then .tooLong
    else .missing
  | some here, [] =>
    match folder.lookup here with
    | some bytes => .file bytes
    | none => .folder
  | some here, part :: rest =>
    if (folder.lookup here).isSome then .missing
    else if part = ".." then follow folder (if here.isEmpty then none else some here.dropLast) rest
    else if longestName < part.utf8ByteSize then .tooLong
    else if folder.any fun file => (here ++ [part]).isPrefixOf file.1 then
      follow folder (some (here ++ [part])) rest
    else .missing

/-- What a path leads to. Nothing is known of places around the folder but that they are folders,
and no path has a null character in it. -/
def find (folder : Folder) (path : String) : Entry :=
  if path.toList.contains '\x00' then .missing
  else if longestPath < (pathText path).utf8ByteSize then .tooLong
  else folder.follow (if pathRoot path = "" then some [] else none) (pathParts path)

end Folder

end Parlance.Command
