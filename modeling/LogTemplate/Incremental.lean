import LogTemplate.Cache.Store
import LogTemplate.Verdict

/-! Analysing dump files, with the help of a cache: a file whose content has the digest it had
before is not read as a dump again. -/

namespace LogTemplate

structure DumpResult where
  path : RawText
  compilation : String
  callSites : UInt64
  diagnostics : List Diagnostic
  cached : Bool
  deriving DecidableEq, Repr, Inhabited

def CachedDump.result (d : CachedDump) (path : RawText) (cached : Bool) : DumpResult :=
  ⟨path, d.compilation, d.callSites, d.diagnostics, cached⟩

def Surface.examine (s : Surface) (hash : String) (d : Dump) : CachedDump :=
  ⟨hash, d.compilation, d.calls.length.toUInt64, s.diagnostics d.calls⟩

/-- The entry of a cache for a file, if it is about this content. A file is known by the text that its
path is shown as, which other paths may be shown as too. -/
def Cache.find? (c : Cache) (path : RawText) (hash : String) : Option CachedDump :=
  (c.dumps.lookup path.display).filter fun d => d.hash = hash

def Dump.load (t : FileTree) (path : RawText) : Except Error Dump :=
  match t.readText path with
  | .error e => .error (.io path e)
  | .ok content => Dump.parse path content

def Surface.process (s : Surface) (old : Option Cache) (t : FileTree) (path : RawText) :
    Except Error (CachedDump × Bool) :=
  match t.readText path with
  | .error e => .error (.io path e)
  | .ok content =>
    let hash := Sha256.hex (Text.bytes content)
    match old.bind (·.find? path hash) with
    | some d => .ok (d, true)
    | none => (Dump.parse path content).map fun d => (s.examine hash d, false)

/-- Files that cannot be read as dumps are left out, of the results as of the new cache. -/
def Surface.analyzeFiles (s : Surface) (old : Option Cache) (seconds : Nat) (t : FileTree)
    (files : List RawText) : List DumpResult × Cache :=
  let done := files.filterMap fun path =>
    (s.process old t path).toOption.map fun (d, cached) => (path, d, cached)
  (done.map fun (path, d, cached) => d.result path cached,
    ⟨.current s seconds, done.foldl (fun entries (path, d, _) => Entries.put path.display d entries) []⟩)

end LogTemplate
