import LogTemplate.Text.Quoted

/-! What is found in a document where something else is expected, in the words of a message. -/

namespace LogTemplate

inductive Found where
  | null
  | bool (value : Bool)
  | integer (value : Int)
  | decimal (text : String)
  | string (text : String)
  | sequence
  | map
  | unitVariant
  deriving DecidableEq, Repr

def Found.describe : Found → String
  | null => "null"
  | bool b => s!"boolean `{b}`"
  | integer i => s!"integer `{i}`"
  | decimal t => s!"floating point `{t}`"
  | string s => "string " ++ Text.quoted s
  | sequence => "sequence"
  | map => "map"
  | unitVariant => "unit variant"

def withElements (kind : String) (n : Nat) : String :=
  if n = 1 then s!"{kind} with 1 element" else s!"{kind} with {n} elements"

end LogTemplate
