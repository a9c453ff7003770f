import LogTemplate.Template.Hole

/-! Writing a template from literal texts and placeholders. Braces of a literal are doubled; the
body of a placeholder stands between single braces. -/

namespace LogTemplate.Template

def escape : List Char → List Char
  | [] => []
  | c :: rest => if c = '{' ∨ c = '}' then c :: c :: escape rest else c :: escape rest

inductive Segment where
  | literal (text : List Char)
  | placeholder (body : List Char)
  deriving DecidableEq, Repr

def Segment.render : Segment → List Char
  | literal text => escape text
  | placeholder body => '{' :: body ++ ['}']

def render (segments : List Segment) : String :=
  String.ofList (segments.flatMap Segment.render)

end LogTemplate.Template
