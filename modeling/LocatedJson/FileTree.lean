import LocatedJson.Document

/-! A directory tree held in memory, and what reading a path in it gives. -/
namespace LocatedJson

/-- Files and directories under one root, by their path components. The directories on the way
to a file are there as well. -/
structure FileTree where
  files : List (List String × List Byte)
  directories : List (List String)

namespace FileTree

def components (path : String) : List String :=
  (path.splitOn "/").filter fun c => c != "" && c != "."

def empty : FileTree := ⟨[], []⟩

def addFile (t : FileTree) (path : String) (bytes : List Byte) : FileTree :=
  { t with files := (components path, bytes) :: t.files }

def addDirectory (t : FileTree) (path : String) : FileTree :=
  { t with directories := components path :: t.directories }

def file? (t : FileTree) (path : List String) : Option (List Byte) :=
  (t.files.find? fun f => f.1 == path).map (·.2)

def hasDirectory (t : FileTree) (path : List String) : Bool :=
  path.isEmpty || t.directories.any (path.isPrefixOf ·) ||
    t.files.any fun f => path.isPrefixOf f.1 && path != f.1

/-- Walks from a directory, given by its components in reverse. Two dots lead to the parent;
nothing is known above the root. -/
def walk (t : FileTree) : List String → List String → Except ReadFault (List Byte)
  | _, [] => .error .isDirectory
  | here, name :: rest =>
    if name = ".." then
      match here with
      | [] => .error (if rest.isEmpty then .isDirectory else .noSuchFile)
      | _ :: parent => walk t parent rest
    else
      let path := (name :: here).reverse
      match t.file? path with
      | some bytes => if rest.isEmpty then .ok bytes else .error .notDirectory
      | none => if t.hasDirectory path then walk t (name :: here) rest else .error .noSuchFile

def read (t : FileTree) (path : String) : Except ReadFault (List Byte) :=
  if path.startsWith "/" then .error .noSuchFile else walk t [] (components path)

end FileTree

end LocatedJson
