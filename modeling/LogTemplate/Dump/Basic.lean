import LogTemplate.Call.Site
import LogTemplate.Dump.Expr
import LogTemplate.Error

/-! Dumps: the calls of one compilation, as they are written to a file. -/

namespace LogTemplate

open Json

structure Dump where
  compilation : String
  calls : List (Call Expr)
  deriving DecidableEq, Inhabited

def ParameterType.cases : List (Case ParameterType) :=
  [.plain "string" .string, .carrying "other" Shape.text .other]

def ParameterType.toJson : ParameterType → Json
  | .string => .string "string"
  | .other name => .object [("other", .string name)]

def ParameterType.shape : Shape ParameterType := .choice cases toJson

def Parameter.shape : Shape Parameter :=
  .record "struct Parameter"
    [.ofShape "name" .required .text Parameter.name fun v p => { p with name := v },
     .ofShape "type" .required ParameterType.shape Parameter.type fun v p => { p with type := v }]
    default

def Signature.shape : Shape Signature :=
  .record "struct MethodSignature"
    [.ofShape "name" .required .text Signature.name fun v s => { s with name := v },
     .ofShape "declaring_type" .required .text Signature.declaringType fun v s =>
       { s with declaringType := v },
     .ofShape "parameters" .required Parameter.shape.list Signature.parameters fun v s =>
       { s with parameters := v }]
    default

def Argument.shape : Shape (Argument Expr) :=
  .record "struct Argument"
    [.ofShape "parameter" .nullable Shape.uint64.optional Argument.parameter fun v a =>
       { a with parameter := v },
     .ofShape "value" .nullable Expr.shape.optional Argument.value fun v a => { a with value := v }]
    default

def Call.shape : Shape (Call Expr) :=
  .record "struct CallSite"
    [.ofShape "method" .required Signature.shape Call.signature fun v c =>
       { c with signature := v },
     .ofShape "arguments" .required Argument.shape.list Call.arguments fun v c =>
       { c with arguments := v },
     .ofShape "location" .nullable Location.shape.optional Call.location fun v c =>
       { c with location := v }]
    default

def Dump.shape : Shape Dump :=
  .record "struct CallSiteDump"
    [.ofShape "compilation" .defaulted .text Dump.compilation fun v d =>
       { d with compilation := v },
     .ofShape "call_sites" .defaulted Call.shape.list Dump.calls fun v d => { d with calls := v }]
    default

def Dump.text (d : Dump) : String := (Dump.shape.write d).compact

def Json.Rejection.error (r : Json.Rejection) (path : RawText) : Error :=
  match r.position with
  | some p =>
    .parse path s!"{r.fault.message} at line {p.line} column {p.column}" (some (p.line, p.column))
  | none => .parse path r.fault.message none

def Dump.parse (path : RawText) (content : String) : Except Error Dump :=
  match Json.readAll (Dump.shape.stream Json.maxDepth) content with
  | .ok d => .ok d
  | .error r => .error (r.error path)

end LogTemplate
