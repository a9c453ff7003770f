import LogTemplate.FileTree.IoError
import LogTemplate.Text.Raw
import LogTemplate.Text.Split

/-! Errors of the layers that read and write files, and how a failed run is told to its user. -/

namespace LogTemplate

inductive Error where
  | io (path : RawText) (source : IoError)
  | parse (path : RawText) (message : String) (position : Option (Nat × Nat))
  | cache (message : String)
  | config (path : RawText) (message : String)
  | invalidArgument (message : String)
  | other (message : String)
  deriving DecidableEq, Repr

def Error.message : Error → String
  | io path source => s!"I/O error at {path.display}: {source.message}"
  | parse path message _ => s!"Parse error in {path.display}: {message}"
  | cache message => s!"Cache error: {message}"
  | config path message => s!"Config error at {path.display}: {message}"
  | invalidArgument message => s!"Invalid argument: {message}"
  | other message => message

def Error.cause? : Error → Option String
  | io _ source => some source.message
  | _ => none

/-- An error with what was being done when it came up, the outermost activity first. -/
structure Failure where
  error : Error
  contexts : List String := []
  deriving DecidableEq, Repr

namespace Failure

def inContext (f : Failure) (context : String) : Failure :=
  { f with contexts := context :: f.contexts }

def chain (f : Failure) : List String := f.contexts ++ f.error.message :: f.error.cause?.toList

def headline (f : Failure) : String := f.contexts.headD f.error.message

def indent (mark later message : String) : String :=
  mark ++ Text.joined '\n' ((Text.splitOn '\n' message.toList).mapIdx fun i line =>
    (if i = 0 then "" else later) ++ String.ofList line)

def numberMark (i : Nat) : String :=
  let digits := toString i
  String.ofList (List.replicate (5 - digits.length) ' ') ++ digits ++ ": "

def causes : List String → String
  | [] => ""
  | [cause] => "\n\nCaused by:\n" ++ indent "    " "    " cause
  | causes => "\n\nCaused by:" ++ String.join (causes.zipIdx.map fun (cause, i) =>
      "\n" ++ indent (numberMark i) "       " cause)

def describe (f : Failure) : String := f.headline ++ causes f.chain.tail

end Failure

end LogTemplate
