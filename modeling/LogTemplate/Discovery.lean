import LogTemplate.Error
import LogTemplate.FileTree.Basic
import LogTemplate.Text.Substring

/-! Which files count as dumps of calls, and where they are found. -/

namespace LogTemplate

def dumpSuffix : String := ".callsites.json"

/-- Only a name that is a text can be that of a dump. -/
def isDumpFile (path : RawText) : Bool :=
  ((Path.fileName? path).bind RawText.toText?).any fun name =>
    dumpSuffix.toList.isSuffixOf name.toList

def forwardSlashes (path : List Char) : List Char := path.map fun c => if c = '\\' then '/' else c

/-- A path is ignored if its text contains one of the patterns; backslashes in the path count as
slashes, and the empty pattern ignores nothing. -/
def isIgnored (patterns : List String) (path : String) : Bool :=
  patterns.any fun p => !p.isEmpty && Text.hasInfix p.toList (forwardSlashes path.toList)

def skippedDirectories : List String := [".git", ".tmplint", "node_modules", "target"]

/-- A name that is no text is never excluded. -/
def isExcluded (excluded : List String) (name : RawText) : Bool := name.toText?.any excluded.contains

mutual
/-- A node and all below it with their paths, except directories with an excluded name and what they
hold. Links are listed and not followed. -/
def Node.visit (excluded : List String) (path : RawText) : Node → List (RawText × Node)
  | .directory es => (path, .directory es) :: visitAll excluded path es
  | n => [(path, n)]

def Node.visitAll (excluded : List String) (path : RawText) :
    List (RawText × Node) → List (RawText × Node)
  | [] => []
  | (name, n) :: rest =>
    (if n.isDirectory && isExcluded excluded name then [] else n.visit excluded (Path.join path name))
      ++ Node.visitAll excluded path rest
end

/-- The nodes at and below a root. A root that is a link to a directory is entered and has no name
of its own to be excluded by. -/
def FileTree.visit (t : FileTree) (excluded : List String) (root : RawText) :
    Except IoError (List (RawText × Node)) :=
  match t.node? .entry root with
  | .error e => .error e
  | .ok (.link _) =>
    match t.node? .target root with
    | .error e => .error e
    | .ok n => .ok ((root, n) :: Node.visitAll excluded root n.entries)
  | .ok n =>
    if n.isDirectory && isExcluded excluded ((Path.fileName? root).getD root) then .ok []
    else .ok (n.visit excluded root)

def walkFailure (root path : RawText) (e : IoError) : Failure :=
  ⟨.other s!"IO error for operation on {path.display}: {e.message}",
    [s!"Failed to gather call-site dumps from {root.display}"]⟩

/-- All dumps at and below a root, in the order of their paths. A directory whose path is too long
cannot be entered. -/
def FileTree.dumpFiles (t : FileTree) (excluded : List String) (root : RawText) :
    Except Failure (List RawText) :=
  match t.visit (skippedDirectories ++ excluded) root with
  | .error e => .error (walkFailure root root e)
  | .ok nodes =>
    match nodes.find? fun (path, n) => n.isDirectory && isTooLong path with
    | some (path, _) => .error (walkFailure root path .nameTooLong)
    | none =>
      .ok (Path.sort ((nodes.map Prod.fst).filter fun path => t.isFile path && isDumpFile path))

end LogTemplate
