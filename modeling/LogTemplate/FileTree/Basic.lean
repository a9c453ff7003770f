import LogTemplate.FileTree.IoError
import LogTemplate.FileTree.Node
import LogTemplate.Path
import LogTemplate.Text.Utf8

/-! A file system as far as a run sees it: the nodes below its top and the working directory, and
what the usual operations on paths do to them. Names, paths and the targets of links are bytes, as the
system has them. There are no owners, permissions or times, so an operation fails only for what is at
its paths; the one exception is a disk that is full before all of a file is written. -/

namespace LogTemplate

structure FileTree where
  top : Node
  workingDirectory : List RawText

inductive Spot where
  | taken (place : List RawText)
  | free (directory : List RawText) (name : RawText)
  deriving DecidableEq, Repr

/-- What the end of a path stands for: the entry of that name itself, what it leads to, or a file
that is to be written there. -/
inductive Access where
  | entry
  | target
  | output
  deriving DecidableEq, Repr

namespace FileTree

def maxLinks : Nat := 40

def maxNameSize : Nat := 255

def maxPathSize : Nat := 4095

def isTooLong (path : RawText) : Bool := maxPathSize < path.size

def names (path : RawText) : List RawText := (Path.pieces path).filter (· ≠ "")

/-- The steps of a path. A slash at the end is an empty step and asks for a directory, as a dot
does. -/
def steps (path : RawText) : List RawText :=
  names path ++ if Path.endsInSlash path then [("" : RawText)] else []

/-- Goes on from a place. Every step starts from a directory; a link on the way is handed to `jump`
together with the place it hangs at and the steps behind it, and so is one at the end unless the
entry itself is asked for. Behind the last name of an output there can be no slash, whatever the
name stands for. -/
def walkTo (top : Node) (access : Access)
    (jump : RawText → List RawText → List RawText → Except IoError Spot) :
    List RawText → List RawText → Except IoError Spot
  | place, [] => .ok (.taken place)
  | place, step :: rest =>
    match top.at? place with
    | none => .error .notFound
    | some (.directory es) =>
      if access = .output && rest = [("" : RawText)] then .error .isDirectory
      else if step = "" || step = "." then walkTo top access jump place rest
      else if step = ".." then walkTo top access jump place.dropLast rest
      else if maxNameSize < step.size then .error .nameTooLong
      else match es.lookup step with
        | none => if rest.isEmpty then .ok (.free place step) else .error .notFound
        | some (.link target) =>
          if rest.isEmpty && access = .entry then .ok (.taken (place ++ [step]))
          else jump target place rest
        | some _ => walkTo top access jump (place ++ [step]) rest
    | some _ => .error .notDirectory

def walk (top : Node) (access : Access) : Nat → List RawText → List RawText → Except IoError Spot
  | 0 => walkTo top access fun _ _ _ => .error .tooManyLinks
  | links + 1 => walkTo top access fun target place rest =>
      walk top access links (if Path.isAbsolute target then [] else place) (steps target ++ rest)

def resolveSteps (t : FileTree) (access : Access) (path : RawText) (steps : List RawText) :
    Except IoError Spot :=
  if path.isEmpty then .error .notFound
  else if path.bytes.contains 0 then .error .nulInPath
  else if isTooLong path then .error .nameTooLong
  else walk t.top access maxLinks (if Path.isAbsolute path then [] else t.workingDirectory) steps

def resolve (t : FileTree) (access : Access) (path : RawText) : Except IoError Spot :=
  t.resolveSteps access path (steps path)

def node? (t : FileTree) (access : Access) (path : RawText) : Except IoError Node :=
  match t.resolve access path with
  | .error e => .error e
  | .ok (.free _ _) => .error .notFound
  | .ok (.taken place) =>
    match t.top.at? place with
    | some n => .ok n
    | none => .error .notFound

def pathExists (t : FileTree) (path : RawText) : Bool := (t.node? .target path).isOk

def isDirectory (t : FileTree) (path : RawText) : Bool :=
  match t.node? .target path with
  | .ok (.directory _) => true
  | _ => false

def isFile (t : FileTree) (path : RawText) : Bool :=
  match t.node? .target path with
  | .ok (.file _) => true
  | _ => false

def read (t : FileTree) (path : RawText) : Except IoError (List UInt8) :=
  match t.node? .target path with
  | .error e => .error e
  | .ok (.file content) => .ok content
  | .ok (.directory _) => .error .isDirectory
  | .ok (.link _) => .error .notFound

def readText (t : FileTree) (path : RawText) : Except IoError String :=
  match t.read path with
  | .error e => .error e
  | .ok content =>
    match Text.ofBytes? content with
    | some text => .ok text
    | none => .error .invalidText

def put (t : FileTree) (place : List RawText) (n : Node) : FileTree :=
  { t with top := Node.set n place t.top }

def take (t : FileTree) (place : List RawText) : FileTree := { t with top := t.top.erase place }

def write (t : FileTree) (path : RawText) (content : List UInt8) : Except IoError FileTree :=
  match t.resolve .output path with
  | .error e => .error e
  | .ok (.free directory name) => .ok (t.put (directory ++ [name]) (.file content))
  | .ok (.taken place) =>
    match t.top.at? place with
    | some (.file _) => .ok (t.put place (.file content))
    | some (.directory _) => .error .isDirectory
    | _ => .error .notFound

/-- Writes as much of a file as the disk has room for, if that is limited. What could not be written
whole stays as it is then. -/
def writeWithin (t : FileTree) (room : Option Nat) (path : RawText) (content : List UInt8) :
    Except IoError Unit × FileTree :=
  match t.write path (room.elim content content.take) with
  | .error e => (.error e, t)
  | .ok t => (if room.all (content.length ≤ ·) then .ok () else .error .noSpace, t)

def removeFile (t : FileTree) (path : RawText) : Except IoError FileTree :=
  match t.resolve .entry path with
  | .error e => .error e
  | .ok (.free _ _) => .error .notFound
  | .ok (.taken place) =>
    match t.top.at? place with
    | some (.directory _) => .error .isDirectory
    | _ => .ok (t.take place)

def removeAll (t : FileTree) (path : RawText) : Except IoError FileTree :=
  match t.resolve .entry path with
  | .error e => .error e
  | .ok (.free _ _) => .error .notFound
  | .ok (.taken place) => .ok (t.take place)

def rename (t : FileTree) (source target : RawText) : Except IoError FileTree :=
  match t.resolve .entry source, t.resolve .entry target with
  | .error e, _ => .error e
  | _, .error e => .error e
  | .ok (.free _ _), _ => .error .notFound
  | .ok (.taken old), .ok (.free directory name) =>
    match t.top.at? old with
    | some n => .ok ((t.put (directory ++ [name]) n).take old)
    | none => .error .notFound
  | .ok (.taken old), .ok (.taken new) =>
    match t.top.at? old, t.top.at? new with
    | none, _ => .error .notFound
    | some _, some (.directory _) => .error .isDirectory
    | some n, _ => if old = new then .ok t else .ok ((t.put new n).take old)

def createLink (t : FileTree) (path target : RawText) : Except IoError FileTree :=
  match t.resolve .entry path with
  | .error e => .error e
  | .ok (.taken _) => .error .exists
  | .ok (.free directory name) => .ok (t.put (directory ++ [name]) (.link target))

def listing (t : FileTree) : List RawText :=
  ((t.top.at? t.workingDirectory).elim [] (Node.listing "")).mergeSort fun a b => (compare a b).isLE

def empty : FileTree := ⟨.directory [("work", .directory [])], ["work"]⟩

end FileTree

end LogTemplate
