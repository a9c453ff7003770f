import LogTemplate.Diagnostic
import LogTemplate.Json.Printer

/-! Reports of a run, in plain text and as data. -/

namespace LogTemplate

structure Stats where
  dumpFiles : Nat
  analyzedFiles : Nat
  cachedFiles : Nat
  callSites : UInt64
  invalidTemplates : Nat
  deriving DecidableEq, Repr, Inhabited

structure Summary where
  diagnostics : List Diagnostic
  stats : Stats
  deriving DecidableEq, Repr, Inhabited

namespace Summary

def isClean (s : Summary) : Bool := s.diagnostics.isEmpty

def plain (s : Summary) : String :=
  let heading :=
    if s.isClean then "No invalid message templates found.\n"
    else s!"INVALID MESSAGE TEMPLATES ({s.diagnostics.length}):\n"
  let lines := s.diagnostics.map fun d => s!"- {d.display}\n"
  let counts :=
    s!"Checked {s.stats.callSites.toNat} call site(s) in {s.stats.analyzedFiles} dump file(s)" ++
      s!" ({s.stats.cachedFiles} cached).\n"
  heading ++ String.join lines ++ counts

end Summary

def Location.report (l : Location) : Json :=
  .object [("column", .nat l.column.toNat), ("file", .string l.file),
    ("length", .nat l.length.toNat), ("line", .nat l.line.toNat)]

def Diagnostic.report (d : Diagnostic) : Json :=
  .object [("location", d.location.report), ("message", .string d.message),
    ("rule_id", .string d.ruleId), ("severity", .string d.severity.name), ("text", .string d.text)]

def Stats.report (s : Stats) : Json :=
  .object [("analyzed_files", .nat s.analyzedFiles), ("cached_files", .nat s.cachedFiles),
    ("call_sites", .nat s.callSites.toNat), ("dump_files", .nat s.dumpFiles),
    ("invalid_templates", .nat s.invalidTemplates)]

def Summary.report (s : Summary) : Json :=
  .object
    [("diagnostics", .array (s.diagnostics.map Diagnostic.report)), ("summary", s.stats.report)]

def Summary.json (s : Summary) : String := s.report.pretty

end LogTemplate
