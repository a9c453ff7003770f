import LogTemplate.Call.Location
import LogTemplate.Text.Substring

/-! The rule on message templates and what is reported when a template breaks it. -/

namespace LogTemplate

inductive Severity where
  | hidden
  | info
  | warning
  | error
  deriving DecidableEq, Repr, Inhabited

def Severity.all : List Severity := [.hidden, .info, .warning, .error]

def Severity.name : Severity → String
  | hidden => "hidden"
  | info => "info"
  | warning => "warning"
  | error => "error"

structure Rule where
  id : String
  title : String
  messageFormat : String
  category : String
  severity : Severity
  enabledByDefault : Bool
  description : String
  deriving DecidableEq, Repr

/-- The argument goes where the first slot stands; slots within the argument stay as they are. -/
def Rule.message (r : Rule) (argument : String) : String :=
  String.ofList (Text.replaceFirst ['{', '0', '}'] argument.toList r.messageFormat.toList)

def Rule.invalidTemplate : Rule where
  id := "AA0008"
  title := "Invalid logging message template"
  messageFormat := "Logging message template is invalid: '\x7b0\x7d'"
  category := "Usage"
  severity := .error
  enabledByDefault := true
  description := "Placeholders in a logging message template must be opened and closed with single "
    ++ "braces and may not nest; literal braces must be doubled."

structure Diagnostic where
  ruleId : String
  severity : Severity
  location : Location
  message : String
  text : String
  deriving DecidableEq, Repr, Inhabited

namespace Diagnostic

def invalidTemplate (location : Location) (text : String) : Diagnostic :=
  ⟨Rule.invalidTemplate.id, Rule.invalidTemplate.severity, location,
    Rule.invalidTemplate.message text, text⟩

def display (d : Diagnostic) : String :=
  s!"{d.location.display}: {d.severity.name}[{d.ruleId}]: {d.message}"

def order (a b : Diagnostic) : Ordering :=
  (a.location.order b.location).then (compare a.text b.text)

def sort (ds : List Diagnostic) : List Diagnostic := ds.mergeSort fun a b => (a.order b).isLE

end Diagnostic

end LogTemplate
