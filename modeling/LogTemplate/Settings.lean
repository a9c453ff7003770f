import LogTemplate.Error
import LogTemplate.FileTree.Basic
import LogTemplate.Toml.Document

/-! Settings kept in a file at the root of a run. -/

namespace LogTemplate

structure Settings where
  ignoredPatterns : List String := []
  extraTypes : List String := []
  format : Option String := none
  deriving DecidableEq, Repr, Inhabited

inductive SettingsFault where
  | malformed
  | wrongType (found : Found) (expected : String)
  | empty (kind : String)
  deriving DecidableEq, Repr

def SettingsFault.message : SettingsFault → String
  | malformed => "not a well-formed document"
  | wrongType found expected => s!"invalid type: {found.describe}, expected {expected}"
  | empty kind => s!"invalid length 0, expected {withElements kind 1}"

namespace Settings

def fileName : String := "tmplint.toml"

def wantsJson (s : Settings) : Bool :=
  s.format.any fun f => f.toList.map Char.toLower = ['j', 's', 'o', 'n']

def expectString : Toml → Except SettingsFault String
  | .string s => .ok s
  | v => .error (.wrongType v.found "a string")

def expectStrings : Toml → Except SettingsFault (List String)
  | .array vs => vs.mapM expectString
  | v => .error (.wrongType v.found "a sequence")

/-- The one field of a section. The section may be written as an array, whose first item then is the
field; a date counts as a section without it. -/
def expectSection {α : Type} (kind field : String) (read : Toml → Except SettingsFault α) :
    Toml → Except SettingsFault (Option α)
  | .table entries =>
    match entries.lookup field with
    | some v => (read v).map some
    | none => .ok none
  | .date => .ok none
  | .array [] => .error (.empty kind)
  | .array (v :: _) => (read v).map some
  | v => .error (.wrongType v.found kind)

def take (s : Settings) : String × Toml → Except SettingsFault Settings
  | ("ignore", v) => do return { s with ignoredPatterns := ← expectStrings v }
  | ("surface", v) => do
    let types ← expectSection "struct SurfaceConfig" "extra_types" expectStrings v
    return { s with extraTypes := types.getD [] }
  | ("output", v) => do
    return { s with format := ← expectSection "struct OutputConfig" "format" expectString v }
  | _ => .ok s

def parse (text : String) : Except SettingsFault Settings :=
  match Toml.parse? text with
  | some entries => entries.foldlM take {}
  | none => .error .malformed

def load (t : FileTree) (root : RawText) : Except Failure (Option Settings) :=
  let path := Path.join root fileName
  if !t.pathExists path then .ok none
  else
    match t.readText path with
    | .error e => .error ⟨.io path e, []⟩
    | .ok text =>
      match parse text with
      | .ok s => .ok (some s)
      | .error e => .error ⟨.config path e.message, ["Invalid tmplint.toml"]⟩

end Settings

end LogTemplate
