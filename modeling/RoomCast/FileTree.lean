namespace RoomCast

inductive FileEntry where
  | absent
  | directory
  | file (content : ByteArray)

def stepPath (path : List String) (part : String) : List String :=
  if part = "" ∨ part = "." then path
  else if part = ".." then path.dropLast
  else path ++ [part]

/-- A directory below which everything is known: its subdirectories and its files. -/
structure FileTree where
  root : String
  directories : List (List String)
  files : List (List String × ByteArray)

namespace FileTree

def pathParts (path : String) : List String := (path.splitOn "/").filter (· ≠ "")

def ofPaths (root : String) (directories : List String) (files : List (String × ByteArray)) :
    FileTree :=
  ⟨root, directories.map pathParts, files.map fun f => (pathParts f.1, f.2)⟩

/-- The entry at a path of parts. A directory exists as soon as something stands in it. -/
def entryAt (tree : FileTree) (path : List String) : FileEntry :=
  match tree.files.find? fun f => f.1 = path with
  | some f => .file f.2
  | none =>
    if path.isPrefixOf [] || tree.directories.any path.isPrefixOf ||
        tree.files.any (fun f => path.isPrefixOf f.1) then .directory
    else .absent

def follow (tree : FileTree) : List String → List String → FileEntry
  | path, [] => tree.entryAt path
  | path, part :: parts =>
    match tree.entryAt path with
    | .directory => tree.follow (stepPath path part) parts
    | _ => .absent

/-- The entry a text leads to. What is not below the root is absent. -/
def entry (tree : FileTree) (path : String) : FileEntry :=
  match path.splitOn "/" with
  | top :: parts => if top = tree.root then tree.follow [] parts else .absent
  | [] => .absent

end FileTree

end RoomCast
