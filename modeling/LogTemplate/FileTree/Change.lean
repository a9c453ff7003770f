import LogTemplate.FileTree.Directory

/-! Filling a file system from paths and contents, and the changes that lead from one file system to
another. -/

namespace LogTemplate

inductive Change where
  | createDirectory (path : RawText)
  | write (path : RawText) (content : List UInt8)
  | remove (path : RawText)
  deriving DecidableEq, Repr

namespace FileTree

def add (t : FileTree) (path : RawText) (content : List UInt8) : Except IoError FileTree :=
  match t.createParents path with
  | (.error e, _) => .error e
  | (.ok (), t) => t.write path content

def changeAt? (old new : FileTree) (path : RawText) : Option Change :=
  if Path.endsInSlash path then
    if old.isDirectory path then none else some (.createDirectory path)
  else
    match new.read path with
    | .error _ => none
    | .ok content =>
      if (old.read path).toOption = some content then none else some (.write path content)

def changes (old new : FileTree) : List Change :=
  let gone := old.listing.filter fun path => !Path.endsInSlash path && !new.listing.contains path
  gone.map .remove ++ new.listing.filterMap (changeAt? old new)

end FileTree

end LogTemplate
