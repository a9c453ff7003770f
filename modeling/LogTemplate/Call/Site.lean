import LogTemplate.Call.Text

/-! Calls and how their arguments meet the parameters of the called method. Arguments are bound by
the parameter they name, not by position. -/

namespace LogTemplate

inductive ParameterType where
  | string
  | other (name : String)
  deriving DecidableEq, Repr, Inhabited

structure Parameter where
  name : String
  type : ParameterType
  deriving DecidableEq, Repr, Inhabited

structure Signature where
  name : String
  declaringType : String
  parameters : List Parameter
  deriving DecidableEq, Repr, Inhabited

/-- One side may be missing: the parameter could not be told, or the value not be described. -/
structure Argument (ε : Type) where
  parameter : Option UInt64
  value : Option ε
  deriving DecidableEq

instance {ε : Type} : Inhabited (Argument ε) := ⟨⟨none, none⟩⟩

structure Call (ε : Type) where
  signature : Signature
  arguments : List (Argument ε)
  location : Option Location := none
  deriving DecidableEq

instance {ε : Type} : Inhabited (Call ε) := ⟨⟨default, [], none⟩⟩

def templateNames : List String := ["message", "messageFormat", "formatString"]

def Signature.bearsTemplate (s : Signature) (p : Parameter) : Bool :=
  p.type = .string && (templateNames.contains p.name || (s.name = "BeginScope" && p.name = "state"))

def Signature.templateParameter? (s : Signature) : Option Nat :=
  (s.parameters.zipIdx.filter fun (p, _) => s.bearsTemplate p).getLast?.map Prod.snd

variable {ε : Type}

/-- The value of the first argument that names the parameter; a later one does not stand in for a
missing value. -/
def Call.argument? (c : Call ε) (parameter : Nat) : Option ε :=
  (c.arguments.find? fun a => a.parameter.map UInt64.toNat = some parameter).bind Argument.value

inductive Resolution (ε : Type) where
  | noTemplateParameter
  | unbound
  | unresolvable (expression : ε)
  | resolved (text : String) (expression : ε)

def Call.resolve [Host ε] (c : Call ε) : Resolution ε :=
  match c.signature.templateParameter? with
  | none => .noTemplateParameter
  | some parameter =>
    match c.argument? parameter with
    | none => .unbound
    | some e =>
      match textOf e with
      | none => .unresolvable e
      | some text => .resolved text e

end LogTemplate
