import LogTemplate.Call.Expr
import LogTemplate.Json.Shape

/-! How expressions are written in a dump. An expression is an object whose field `kind` tells which
other fields it has, in any order; so it is read whole before its fields are looked at. -/

namespace LogTemplate

open Json Json.Reader

def Location.fields : List (Member Location) :=
  [.ofShape "file" .required .text Location.file fun v l => { l with file := v },
   .ofShape "line" .required .uint32 Location.line fun v l => { l with line := v },
   .ofShape "column" .required .uint32 Location.column fun v l => { l with column := v },
   .ofShape "length" .defaulted .uint32 Location.length fun v l => { l with length := v }]

def Location.shape : Shape Location := .record "struct Location" fields ⟨"", 0, 0, 0⟩

def decodeTag {α : Type} (tags : List (String × α)) : Json → Except Fault α
  | .string name =>
    match tags.lookup name with
    | some a => .ok a
    | none => .error (.unknownVariant name (tags.map Prod.fst))
  | .integer (.ofNat n) =>
    match tags[n]? with
    | some (_, a) => .ok a
    | none => .error (.wrongInteger n s!"variant index 0 <= i < {tags.length}")
  | v => .error (.wrongType v.found "variant identifier")

namespace Constant

inductive Kind where
  | string
  | other
  | null
  deriving DecidableEq, Repr

def Kind.names : List (String × Kind) := [("string", .string), ("other", .other), ("null", .null)]

def Kind.cases : List (Case Kind) := names.map fun (name, k) => .plain name k

def expected : String := "adjacently tagged enum ConstantValue"

def toJson : Constant → Json
  | .string s => .object [("type", .string "string"), ("value", .string s)]
  | .other s => .object [("type", .string "other"), ("value", .string s)]
  | .null => .object [("type", .string "null")]

def decodePayload (v : Json) : Kind → Except Fault Constant
  | .string => (Shape.expectString v).map .string
  | .other => (Shape.expectString v).map .other
  | .null =>
    match v with
    | .null => .ok .null
    | v => .error (.wrongType v.found "unit variant ConstantValue::Null")

def isPart (field : String × Json) : Bool := field.1 = "type" || field.1 = "value"

/-- The two fields of a constant in either order. What is wrong is told in the order of the text,
and a third field only after the first two. -/
def decodeFields (fields : List (String × Json)) : Except Fault Constant :=
  match fields.filter isPart with
  | [] => .error (.missingField "type")
  | ("type", t) :: rest => do
    let kind ← decodeChoice Kind.cases t
    match rest with
    | [] => if kind = .null then return .null else throw (.missingField "value")
    | ("type", _) :: _ => throw (.duplicateField "type")
    | (_, v) :: rest =>
      let constant ← decodePayload v kind
      match rest with
      | [] => return constant
      | (name, _) :: _ => throw (.duplicateField name)
  | (_, v) :: rest =>
    match rest with
    | [] => .error (.missingField "type")
    | ("type", t) :: rest => do
      let constant ← decodePayload v (← decodeChoice Kind.cases t)
      match rest with
      | [] => return constant
      | (name, _) :: _ => throw (.duplicateField name)
    | _ :: _ => .error (.duplicateField "value")

def ofJson : Json → Except Fault Constant
  | .object fields => decodeFields fields
  | .array [] => .error (.wrongLength 0 expected)
  | .array [t] => do
    let _ ← decodeTag Kind.names t
    throw (.wrongLength 1 expected)
  | .array (t :: v :: rest) => do
    let constant ← decodePayload v (← decodeTag Kind.names t)
    if rest.isEmpty then return constant
    else throw (.wrongLength (rest.length + 2) "2 elements in sequence")
  | v => .error (.wrongType v.found expected)

end Constant

namespace Expr

inductive Kind where
  | constant
  | concat
  | other
  deriving DecidableEq, Repr

def Kind.names : List (String × Kind) :=
  [("constant", .constant), ("concat", .concat), ("other", .other)]

def expected : String := "internally tagged enum Expr"

mutual
def toJson : Expr → Json
  | constant v l =>
    .object
      [("kind", .string "constant"), ("value", v.toJson), ("location", Location.shape.write l)]
  | concat es l =>
    .object [("kind", .string "concat"), ("operands", .array (toJsons es)),
      ("location", Location.shape.write l)]
  | other s l =>
    .object [("kind", .string "other"), ("syntax", .string s), ("location", Location.shape.write l)]

def toJsons : List Expr → List Json
  | [] => []
  | e :: es => e.toJson :: toJsons es
end

def slots {α : Type} (name : String) (decode : Json → Except Fault α) :
    List (Slot (α × Location)) :=
  [.ofDecode name .required decode fun v r => (v, r.2),
   .ofDecode "location" .required Location.shape.decode fun v r => (r.1, v)]

def ofContent (operand : Json → Except Fault Expr) (content : Json) : Kind → Except Fault Expr
  | .constant => do
    let (v, l) ← decodeRecord "struct variant Expr::Constant" (slots "value" Constant.ofJson)
      (.null, default) content
    return .constant v l
  | .concat => do
    let (es, l) ← decodeRecord "struct variant Expr::Concat"
      (slots "operands" (Shape.decodeList operand)) ([], default) content
    return .concat es l
  | .other => do
    let (s, l) ← decodeRecord "struct variant Expr::Other" (slots "syntax" Shape.expectString)
      ("", default) content
    return .other s l

def splitKind : List (String × Json) → Option Kind → Except Fault (Kind × List (String × Json))
  | [], none => .error (.missingField "kind")
  | [], some kind => .ok (kind, [])
  | ("kind", v) :: rest, kind =>
    if kind.isSome then .error (.duplicateField "kind")
    else do splitKind rest (← decodeTag Kind.names v)
  | field :: rest, kind => do
    let (kind, others) ← splitKind rest kind
    return (kind, field :: others)

def ofJsonBelow : Nat → Json → Except Fault Expr
  | 0, _ => .error .tooDeep
  | n + 1, .object fields => do
    let (kind, others) ← splitKind fields none
    ofContent (ofJsonBelow n) (.object others) kind
  | _ + 1, .array [] => .error (.missingField "kind")
  | n + 1, .array (t :: rest) => do
    let kind ← decodeTag Kind.names t
    ofContent (ofJsonBelow n) (.array rest) kind
  | _ + 1, v => .error (.wrongType v.found expected)

def ofJson (v : Json) : Except Fault Expr := ofJsonBelow (v.depth + 1) v

def streamKind : Reader Kind := located do
  let c ← begin
  if c = '"' then
    let name ← Reader.string
    ofExcept (decodeTag Kind.names (.string name))
  else unexpected "variant identifier" c

def streamField (levels : Nat) (key : String) :
    Option Kind × List (String × Json) → Reader (Option Kind × List (String × Json))
  | (kind, others) => do
    if key = "kind" then
      if kind.isSome then reject (.duplicateField "kind")
      else
        colon
        let kind ← streamKind
        return (some kind, others)
    else
      colon
      let v ← Reader.value levels
      return (kind, (key, v) :: others)

def streamNamed (levels : Nat) : Reader (Kind × Json) := do
  let (kind, others) ← Reader.fields (streamField levels) (← Reader.size) true (none, [])
  match kind with
  | some kind => return (kind, .object others.reverse)
  | none => reject (.missingField "kind")

def streamOrdered (levels : Nat) : Reader (Kind × Json) := do
  if ← nextItem true then
    let kind ← streamKind
    let rest ← items (Reader.value levels) (← Reader.size) false
    return (kind, .array rest)
  else reject (.missingField "kind")

def streamHead (levels : Nat) : Reader (Kind × Json) := located do
  let c ← begin
  if c = '{' then nested closeObject streamNamed levels
  else if c = '[' then nested closeList streamOrdered levels
  else
    let v ← scalar c
    reject (.wrongType v.found expected)

def shape : Shape Expr where
  write := toJson
  stream levels := do
    let (kind, content) ← streamHead levels
    ofExcept (ofContent ofJson content kind)
  decode := ofJson

end Expr

end LogTemplate
