import LogTemplate.FileTree.Basic

/-! Creating directories. Those above a directory are created where they are missing, and stay also
if the directory itself cannot be created. -/

namespace LogTemplate.FileTree

def createDirectory (t : FileTree) (path : RawText) : Except IoError FileTree :=
  match t.resolveSteps .entry path (names path) with
  | .error e => .error e
  | .ok (.taken _) => .error .exists
  | .ok (.free directory name) => .ok (t.put (directory ++ [name]) (.directory []))

def ensureDirectory (t : FileTree) (path : RawText) : Except IoError FileTree :=
  match t.createDirectory path with
  | .error .exists => if t.isDirectory path then .ok t else .error .exists
  | answer => answer

/-- Makes sure of the first directory of a list. If its way is missing, the rest of the list comes
before it. -/
def ensureFirst (t : FileTree) : List RawText → Except IoError Unit × FileTree
  | [] => (.ok (), t)
  | path :: above =>
    match t.ensureDirectory path with
    | .ok t => (.ok (), t)
    | .error .notFound =>
      match t.ensureFirst above with
      | (.error e, t) => (.error e, t)
      | (.ok (), t) =>
        match t.ensureDirectory path with
        | .ok t => (.ok (), t)
        | .error e => (.error e, t)
    | .error e => (.error e, t)

def above (path : RawText) : List RawText :=
  let start : RawText := if Path.isAbsolute path then "/" else ""
  let kept := (names path).filter fun step : RawText => step ≠ "."
  (List.range (kept.length - 1)).reverse.map fun n => start ++ Path.joined (kept.take (n + 1))

def createDirectories (t : FileTree) (path : RawText) : Except IoError Unit × FileTree :=
  if (names path).isEmpty then (.ok (), t) else t.ensureFirst (path :: above path)

def createParents (t : FileTree) (path : RawText) : Except IoError Unit × FileTree :=
  t.ensureFirst (above path)

end LogTemplate.FileTree
