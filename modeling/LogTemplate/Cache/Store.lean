import LogTemplate.Cache.Basic
import LogTemplate.FileTree.Directory

/-! Where the cache is kept below the root of a run. -/

namespace LogTemplate

/-- What a run takes from its surroundings: the time, the number that sets its files apart from those
of another run, and how many bytes of a file the disk has room for, if that is limited. -/
structure Stamp where
  process : Nat
  nanoseconds : Nat
  room : Option Nat := none
  deriving DecidableEq, Repr, Inhabited

def Stamp.seconds (s : Stamp) : Nat := s.nanoseconds / 1000000000

namespace Cache

def directoryName : RawText := ".tmplint"

def directory (root : RawText) : RawText := Path.join root directoryName

def fileName : RawText := "cache.json"

def sizeLimit : Nat := 50000000

def file (root : RawText) : RawText := Path.join (directory root) fileName

def temporaryName (s : Stamp) : RawText := fileName ++ s!".{s.process}.{s.nanoseconds}.tmp"

def temporaryFile (root : RawText) (s : Stamp) : RawText :=
  Path.join (directory root) (temporaryName s)

def load (root : RawText) (s : Surface) (t : FileTree) : Option Cache × FileTree :=
  match t.readText (file root) with
  | .error _ => (none, t)
  | .ok text =>
    match parse text with
    | .error _ => (none, t)
    | .ok c =>
      if c.metadata.isCompatible s then (some c, t)
      else (none, (t.removeFile (file root)).toOption.getD t)

/-- Puts new content in place of the old file by way of a temporary one. If that was written it does not
stay, whether or not it can be moved; a half-written one does. -/
def replaceFile (root : RawText) (stamp : Stamp) (content : List UInt8) (t : FileTree) :
    Except Error Unit × FileTree :=
  let temporary := temporaryFile root stamp
  match t.writeWithin stamp.room temporary content with
  | (.error e, t) => (.error (.io temporary e), t)
  | (.ok (), t) =>
    match t.rename temporary (file root) with
    | .ok t => (.ok (), t)
    | .error e => (.error (.io (file root) e), (t.removeFile temporary).toOption.getD t)

def store (root : RawText) (stamp : Stamp) (c : Cache) (t : FileTree) :
    Except Error Unit × FileTree :=
  let content := Text.bytes c.text
  if content.length > sizeLimit then (.ok (), (t.removeFile (file root)).toOption.getD t)
  else replaceFile root stamp content t

def save (root : RawText) (stamp : Stamp) (c : Cache) (t : FileTree) :
    Except Error Unit × FileTree :=
  if t.pathExists (directory root) then store root stamp c t
  else
    match t.createDirectories (directory root) with
    | (.error e, t) => (.error (.io (directory root) e), t)
    | (.ok (), t) => store root stamp c t

end Cache

end LogTemplate
