import LogTemplate.Decimal.Text
import LogTemplate.Entries
import LogTemplate.Found

/-! Values of a settings document, and the tables they are gathered in while the document is
read. -/

namespace LogTemplate

inductive TomlFloat where
  | nan
  | infinite (negative : Bool)
  | finite (negative : Bool) (magnitude : Binary)
  deriving DecidableEq, Repr

def TomlFloat.style : Binary.Style := ⟨.up, fun _ => true⟩

def TomlFloat.text : TomlFloat → String
  | nan => "NaN"
  | infinite negative => if negative then "-inf" else "inf"
  | finite negative magnitude =>
    (if negative then "-" else "") ++ magnitude.text style

inductive Toml where
  | string (text : String)
  | integer (value : Int)
  | float (value : TomlFloat)
  | bool (value : Bool)
  | date
  | array (items : List Toml)
  | table (entries : List (String × Toml))

namespace Toml

instance : Inhabited Toml := ⟨table []⟩

def found : Toml → Found
  | string s => .string s
  | integer i => .integer i
  | float x => .decimal x.text
  | bool b => .bool b
  | date => .map
  | array _ => .sequence
  | table _ => .map

/-- How a table came to be: by a header of its own, on the way of another header, or on the way of a
dotted key. -/
inductive Origin where
  | header
  | passed
  | dotted
  deriving DecidableEq, Repr

inductive Item where
  | value (v : Toml)
  | table (origin : Origin) (entries : List (String × Item))
  | tables (elements : List (List (String × Item)))

abbrev Items := List (String × Item)

mutual
def Item.toToml : Item → Toml
  | .value v => v
  | .table _ es => .table (entriesToToml es)
  | .tables ts => .array (tablesToToml ts)

def entriesToToml : List (String × Item) → List (String × Toml)
  | [] => []
  | (k, i) :: rest => (k, i.toToml) :: entriesToToml rest

def tablesToToml : List (List (String × Item)) → List Toml
  | [] => []
  | t :: rest => .table (entriesToToml t) :: tablesToToml rest
end

/-- Changes the table at the end of a path and answers what the change says. Missing tables on the
way are made, of the given origin; of an array of tables the last one is meant. A dotted key does
not lead into a table that has a header, and nothing leads into a value. -/
def descend {β : Type} (origin : Origin) (change : Origin → Items → Option (β × Items)) :
    List String → Origin → Items → Option (β × Items)
  | [], own, items => change own items
  | key :: rest, _, items =>
    match items.lookup key with
    | none => do
      let (b, inner) ← descend origin change rest origin []
      return (b, Entries.put key (.table origin inner) items)
    | some (.value _) => none
    | some (.table own inner) =>
      if origin = .dotted ∧ own = .header then none
      else do
        let (b, inner) ← descend origin change rest own inner
        return (b, Entries.put key (.table own inner) items)
    | some (.tables elements) =>
      match elements.getLast? with
      | none => none
      | some last => do
        let (b, last) ← descend origin change rest .header last
        return (b, Entries.put key (.tables (elements.dropLast ++ [last])) items)

/-- Adds a value under a dotted key. Keys are not repeated, and a table made by dotted keys takes
entries only by dotted keys, any other only by plain ones. -/
def addValue (path : List String) (key : String) (v : Toml) (items : Items) : Option Items :=
  let change (own : Origin) (inner : Items) : Option (Unit × Items) :=
    if decide (own = .dotted) = path.isEmpty || (inner.lookup key).isSome then none
    else some ((), inner ++ [(key, .value v)])
  (descend .dotted change path .header items).map Prod.snd

structure Draft where
  closed : Items := []
  current : Items := []
  path : List String := []
  isElement : Bool := false

namespace Draft

def close (d : Draft) : Option Items :=
  match d.path.getLast? with
  | none => some d.current
  | some key =>
    let change (_ : Origin) (items : Items) : Option (Unit × Items) :=
      if d.isElement then
        match items.lookup key with
        | some (.tables elements) =>
          some ((), Entries.put key (.tables (elements ++ [d.current])) items)
        | _ => none
      else some ((), Entries.put key (.table .header d.current) items)
    (descend .passed change d.path.dropLast .header d.closed).map Prod.snd

/-- Opens a table. It may have been passed on the way of other headers before, then it goes on with
what it holds, and takes its place behind the tables closed meanwhile. -/
def openTable (d : Draft) (path : List String) (key : String) : Option Draft := do
  let change (_ : Origin) (items : Items) : Option (Items × Items) :=
    match items.lookup key with
    | none => some ([], items)
    | some (.table .passed inner) => some (inner, Entries.drop key items)
    | some _ => none
  let (current, closed) ← descend .passed change path .header (← d.close)
  return ⟨closed, current, path ++ [key], false⟩

def openElement (d : Draft) (path : List String) (key : String) : Option Draft := do
  let change (_ : Origin) (items : Items) : Option (Unit × Items) :=
    match items.lookup key with
    | none => some ((), items ++ [(key, .tables [])])
    | some (.tables _) => some ((), items)
    | some _ => none
  let ((), closed) ← descend .passed change path .header (← d.close)
  return ⟨closed, [], path ++ [key], true⟩

def add (d : Draft) (path : List String) (key : String) (v : Toml) : Option Draft := do
  let current ← addValue path key v d.current
  return { d with current }

end Draft

end Toml

end LogTemplate
