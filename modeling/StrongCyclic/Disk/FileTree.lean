import StrongCyclic.Collection.Keyed
import StrongCyclic.Disk.Fault
import StrongCyclic.Disk.Path

/-!
Trees of files and directories. A place in a tree is the list of names that leads to it from the
root, and the entry at a place is the view of a tree. A path is resolved name by name from the root
or from the working directory; every name but the last has to lead to a directory.
-/

namespace StrongCyclic

/-- A place in a file tree. -/
abbrev Place := List String

/-- What stands at a place. -/
inductive Entry
  | directory
  | file (text : String)
deriving DecidableEq, Repr, Inhabited

/-- Files and directories, and the directory that relative paths start from. -/
structure FileTree where
  entries : List (Place × Entry)
  workingDirectory : Place
deriving DecidableEq, Repr, Inhabited

namespace FileTree

/-- The entry at a place; the root is always a directory. -/
def entry? (tree : FileTree) (place : Place) : Option Entry :=
  if place = [] then some .directory else tree.entries.lookup place

/-- Replaces the entry at a place. -/
def put (tree : FileTree) (place : Place) (entry : Entry) : FileTree :=
  { tree with entries := Keyed.insert place entry tree.entries }

/-- Removes the entry at a place. -/
def erase (tree : FileTree) (place : Place) : FileTree :=
  { tree with entries := tree.entries.filter (·.1 ≠ place) }

/-- Follows names from a place. An empty name or a dot stays and two dots go up; only the last name
may lead to a place without an entry. -/
def walk (tree : FileTree) (place : Place) : List String → Except FileFault Place
  | [] => .ok place
  | name :: names =>
    match tree.entry? place with
    | some .directory =>
      if name = "" ∨ name = "." then walk tree place names
      else if name = ".." then walk tree place.dropLast names
      else walk tree (place ++ [name]) names
    | some (.file _) => .error .notADirectory
    | none => .error .notFound

/-- The place that a path leads to. -/
def resolve (tree : FileTree) (path : Path) : Except FileFault Place :=
  if path.text = "" then .error .notFound
  else if path.text.toList.any (·.toNat == 0) then .error .zeroInPath
  else walk tree (if path.isAbsolute then [] else tree.workingDirectory) path.pieces

/-- The place of a path at which there is an entry, with the entry. -/
def locate (tree : FileTree) (path : Path) : Except FileFault (Place × Entry) := do
  let place ← tree.resolve path
  match tree.entry? place with
  | some entry => return (place, entry)
  | none => .error .notFound

/-- Whether there is an entry at a path. -/
def exists? (tree : FileTree) (path : Path) : Bool :=
  (tree.locate path).isOk

/-- Whether there is a directory at a path. -/
def isDirectory (tree : FileTree) (path : Path) : Bool :=
  match tree.locate path with
  | .ok (_, .directory) => true
  | _ => false

/-- The text of the file at a path. -/
def read (tree : FileTree) (path : Path) : Except FileFault String := do
  match ← tree.locate path with
  | (_, .file text) => return text
  | (_, .directory) => .error .isADirectory

/-- The place of the file that a path names, whether or not it is there yet. A path that ends in a
slash names no file. -/
def filePlace (tree : FileTree) (path : Path) : Except FileFault Place :=
  match tree.resolve path with
  | .error .notFound =>
    if path.text.toList.getLast? = some '/' ∧
        (tree.resolve ⟨String.ofList (path.text.toList.reverse.dropWhile (· == '/')).reverse⟩).isOk
    then .error .isADirectory
    else .error .notFound
  | .error fault => .error fault
  | .ok place =>
    match tree.entry? place with
    | some .directory => .error .isADirectory
    | _ => .ok place

/-- Gives the file at a path the text that `f` makes of its old one. -/
def alter (tree : FileTree) (path : Path) (f : Option String → String) :
    Except FileFault FileTree := do
  let place ← tree.filePlace path
  let old := match tree.entry? place with
    | some (.file text) => some text
    | _ => none
  return tree.put place (.file (f old))

/-- Writes the file at a path. -/
def write (tree : FileTree) (path : Path) (text : String) : Except FileFault FileTree :=
  tree.alter path fun _ => text

/-- Writes at the end of the file at a path. -/
def append (tree : FileTree) (path : Path) (text : String) : Except FileFault FileTree :=
  tree.alter path fun old => old.getD "" ++ text

/-- Copies a file. -/
def copy (tree : FileTree) (source target : Path) : Except FileFault FileTree := do
  match ← tree.locate source with
  | (_, .file text) => tree.write target text
  | (_, .directory) => .error .notARegularFile

/-- The path of a place. -/
def pathOf (place : Place) : Path :=
  Path.ofComponents true place

/-- The absolute path of an entry, without dots. -/
def canonical (tree : FileTree) (path : Path) : Except FileFault Path := do
  let (place, _) ← tree.locate path
  return pathOf place

/-- The names in a directory. -/
def namesIn (tree : FileTree) (place : Place) : List String :=
  tree.entries.filterMap fun (p, _) => if p.dropLast = place then p.getLast? else none

/-- The names in the directory at a path. -/
def list (tree : FileTree) (path : Path) : Except FileFault (List String) := do
  match ← tree.locate path with
  | (place, .directory) => return tree.namesIn place
  | (_, .file _) => .error .notADirectory

/-- Removes the file at a path. -/
def remove (tree : FileTree) (path : Path) : Except FileFault FileTree := do
  match ← tree.locate path with
  | (place, .file _) => return tree.erase place
  | (_, .directory) => .error .isADirectory

/-- Creates the directory at a path, whose parent has to be there. -/
def createDirectory (tree : FileTree) (path : Path) : Except FileFault FileTree :=
  let trimmed := String.ofList (path.text.toList.reverse.dropWhile (· == '/')).reverse
  match tree.resolve (if trimmed = "" then path else ⟨trimmed⟩) with
  | .error fault => .error fault
  | .ok place =>
    if (tree.entry? place).isSome then .error .alreadyExists else .ok (tree.put place .directory)

/-- Creates the directory at a path and its parents; `depth` bounds the number of parents. -/
def createWithin : Nat → FileTree → Path → Except FileFault FileTree
  | 0, _, _ => .error .noWholeTree
  | depth + 1, tree, path =>
    if path.text = "" then .ok tree
    else match tree.createDirectory path with
      | .ok tree => .ok tree
      | .error .notFound =>
        match path.parent? with
        | none => .error .noWholeTree
        | some parent => do
          let tree ← createWithin depth tree parent
          match tree.createDirectory path with
          | .ok tree => .ok tree
          | .error fault => if tree.isDirectory path then .ok tree else .error fault
      | .error fault => if tree.isDirectory path then .ok tree else .error fault

/-- Creates the directory at a path and those on the way that are missing. -/
def createDirectories (tree : FileTree) (path : Path) : Except FileFault FileTree :=
  createWithin (path.components.length + 2) tree path

end FileTree

end StrongCyclic
