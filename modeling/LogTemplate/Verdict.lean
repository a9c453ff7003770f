import LogTemplate.Call.Site
import LogTemplate.Diagnostic
import LogTemplate.Surface
import LogTemplate.Template.Formatter

/-! The verdict on a call. Only an invalid template is reported; every other verdict is silent. -/

namespace LogTemplate

inductive NotApplicable where
  | outsideSurface
  | noTemplateParameter
  | argumentNotBound
  | formatterRejected
  deriving DecidableEq, Repr

inductive Verdict where
  | notApplicable (reason : NotApplicable)
  | unresolvable
  | valid
  | invalid (diagnostic : Diagnostic)
  deriving DecidableEq, Repr

def Verdict.diagnostic? : Verdict → Option Diagnostic
  | invalid d => some d
  | _ => none

def Verdict.ofTemplate (text : String) (location : Location) : Verdict :=
  match Template.Formatter.ofTemplate text with
  | .error _ => .notApplicable .formatterRejected
  | .ok f =>
    if Template.isValid f.text then .valid
    else .invalid (.invalidTemplate location f.text)

variable {ε : Type} [Host ε]

def Surface.classify (s : Surface) (c : Call ε) : Verdict :=
  if s.contains c.signature.declaringType then
    match c.resolve with
    | .noTemplateParameter => .notApplicable .noTemplateParameter
    | .unbound => .notApplicable .argumentNotBound
    | .unresolvable _ => .unresolvable
    | .resolved text e => .ofTemplate text (Host.location e)
  else .notApplicable .outsideSurface

def Surface.report (s : Surface) (c : Call ε) (sink : List Diagnostic) : Bool × List Diagnostic :=
  match (s.classify c).diagnostic? with
  | some d => (true, sink ++ [d])
  | none => (false, sink)

def Surface.diagnostics (s : Surface) (calls : List (Call ε)) : List Diagnostic :=
  calls.filterMap fun c => (s.classify c).diagnostic?

end LogTemplate
