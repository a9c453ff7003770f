import LogTemplate.Discovery
import LogTemplate.Incremental
import LogTemplate.Report
import LogTemplate.Total

/-! A run over a directory: discovery, analysis, and putting the results together. -/

namespace LogTemplate

structure Options where
  root : RawText
  useCache : Bool := true
  excludedDirectories : List String := []
  ignoredPatterns : List String := []
  extraTypes : List String := []
  deriving DecidableEq, Repr, Inhabited

def Options.surface (o : Options) : Surface := Surface.standard.extend o.extraTypes

structure Outcome where
  summary : Summary
  dumps : List DumpResult
  deriving DecidableEq, Repr, Inhabited

/-- Results in the order of their paths, diagnostics in the order of their places. The count of
calls starts over where a word ends. -/
def Outcome.ofDumps (dumpFiles : Nat) (results : List DumpResult) : Outcome :=
  let dumps := results.mergeSort fun a b => (Path.order a.path b.path).isLE
  let diagnostics := Diagnostic.sort (dumps.flatMap DumpResult.diagnostics)
  { dumps
    summary := {
      diagnostics
      stats := {
        dumpFiles
        analyzedFiles := dumps.length
        cachedFiles := dumps.countP DumpResult.cached
        callSites := (total (fun d => d.callSites.toNat) dumps).toUInt64
        invalidTemplates := diagnostics.length } } }

/-- The dumps a run looks at. Patterns see the part of a path below the root. -/
def Options.files (o : Options) (t : FileTree) : Except Failure (List RawText) :=
  match t.dumpFiles o.excludedDirectories o.root with
  | .error f => .error (f.inContext "Failed to gather call-site dumps")
  | .ok files => .ok (files.filter fun path =>
      !isIgnored o.ignoredPatterns ((Path.relativeTo? o.root path).getD path).display)

/-- Runs the analysis. That the cache cannot be stored is no failure of the run. -/
def Options.analyze (o : Options) (stamp : Stamp) (t : FileTree) :
    Except Failure Outcome × FileTree :=
  if !t.isDirectory o.root then
    (.error ⟨.invalidArgument s!"not a directory: {o.root.display}", []⟩, t)
  else
    match o.files t with
    | .error f => (.error f, t)
    | .ok files =>
      let (old, t) := if o.useCache then Cache.load o.root o.surface t else (none, t)
      let (results, cache) := o.surface.analyzeFiles old stamp.seconds t files
      let t := if o.useCache then (Cache.save o.root stamp cache t).2 else t
      (.ok (.ofDumps files.length results), t)

end LogTemplate
