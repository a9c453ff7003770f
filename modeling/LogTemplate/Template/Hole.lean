/-! The parts of a placeholder: a name, an alignment after a comma, a format after a colon. The
first comma or colon ends the name; after a comma the first colon ends the alignment. All three are
kept as they are written, also when empty. -/

namespace LogTemplate.Template

structure Hole where
  name : String
  alignment : Option String
  format : Option String
  deriving DecidableEq, Repr

def inName (c : Char) : Bool := c ≠ ',' && c ≠ ':'

def inAlignment (c : Char) : Bool := c ≠ ':'

def formatOf : List Char → Option String
  | ':' :: format => some (String.ofList format)
  | _ => none

def Hole.ofBody (body : String) : Hole :=
  let name := String.ofList (body.toList.takeWhile inName)
  match body.toList.dropWhile inName with
  | ',' :: rest =>
    ⟨name, some (String.ofList (rest.takeWhile inAlignment)), formatOf (rest.dropWhile inAlignment)⟩
  | rest => ⟨name, none, formatOf rest⟩

def Hole.body (h : Hole) : String :=
  h.name ++ (h.alignment.elim "" ("," ++ ·)) ++ (h.format.elim "" (":" ++ ·))

end LogTemplate.Template
