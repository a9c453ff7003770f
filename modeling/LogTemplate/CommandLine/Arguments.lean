/-! The words of a command line. Options are spelled out in full; those with values may be given
with an equals sign. -/

namespace LogTemplate

structure Arguments where
  path : Option String := none
  json : Bool := false
  noCache : Bool := false
  ignored : List String := []
  surfaceTypes : List String := []
  excludedDirectories : List String := []
  output : Option String := none
  deriving DecidableEq, Repr, Inhabited

inductive Misuse where
  | unknownOption (word : String)
  | missingValue
  | needlessValue (word : String)
  | repeated (word : String)
  | secondPath (word : String)
  deriving DecidableEq, Repr

def Misuse.message : Misuse → String
  | unknownOption word => s!"unexpected argument '{word}' found"
  | missingValue => "a value is required but none was supplied"
  | needlessValue word => s!"unexpected value for '{word}'"
  | repeated word => s!"the argument '{word}' cannot be used multiple times"
  | secondPath word => s!"unexpected argument '{word}' found"

inductive Request where
  | run (arguments : Arguments)
  | help
  | version
  | misuse (reason : Misuse)
  deriving DecidableEq, Repr

inductive ValueOption where
  | ignore
  | surfaceType
  | excludeDir
  | output
  deriving DecidableEq, Repr

def ValueOption.ofName : String → Option ValueOption
  | "--ignore" => some ignore
  | "--surface-type" => some surfaceType
  | "--exclude-dir" => some excludeDir
  | "--output" => some output
  | _ => none

inductive Awaited where
  | nothing
  | value (option : ValueOption)
  | moreIgnored
  deriving DecidableEq, Repr

namespace Arguments

def setPath (a : Arguments) (word : String) : Except Misuse Arguments :=
  if a.path.isSome then .error (.secondPath word) else .ok { a with path := some word }

def setValue (a : Arguments) (value : String) : ValueOption → Except Misuse Arguments
  | .ignore => .ok { a with ignored := a.ignored ++ [value] }
  | .surfaceType => .ok { a with surfaceTypes := a.surfaceTypes ++ [value] }
  | .excludeDir => .ok { a with excludedDirectories := a.excludedDirectories ++ [value] }
  | .output =>
    if a.output.isSome then .error (.repeated "--output") else .ok { a with output := some value }

def isOption (word : String) : Bool := word.toList.head? = some '-' && word ≠ "-"

def isLongOption (word : String) : Bool := ['-', '-'].isPrefixOf word.toList

def splitOption (word : String) : String × Option String :=
  match word.toList.dropWhile (· ≠ '=') with
  | '=' :: value => (String.ofList (word.toList.takeWhile (· ≠ '=')), some (String.ofList value))
  | _ => (word, none)

def takePaths (a : Arguments) : List String → Request
  | [] => .run a
  | word :: rest =>
    match a.setPath word with
    | .ok a => a.takePaths rest
    | .error e => .misuse e

def shortOption (word : String) : Request :=
  match word.toList with
  | _ :: 'V' :: _ => .version
  | _ :: 'h' :: _ => .help
  | _ => .misuse (.unknownOption word)

def take (a : Arguments) : Awaited → List String → Request
  | .value _, [] => .misuse .missingValue
  | _, [] => .run a
  | awaited, word :: rest =>
    if !isOption word then
      let answer : Except Misuse (Arguments × Awaited) := match awaited with
        | .nothing => (a.setPath word).map (·, .nothing)
        | .value .ignore | .moreIgnored => (a.setValue word .ignore).map (·, .moreIgnored)
        | .value o => (a.setValue word o).map (·, .nothing)
      match answer with
      | .ok (a, awaited) => a.take awaited rest
      | .error e => .misuse e
    else if awaited ≠ .nothing ∧ awaited ≠ .moreIgnored then .misuse .missingValue
    else if word = "--" then a.takePaths rest
    else if !isLongOption word then shortOption word
    else
      let (name, value) := splitOption word
      match ValueOption.ofName name, value with
      | some o, none => a.take (.value o) rest
      | some o, some value =>
        match a.setValue value o with
        | .ok a => a.take .nothing rest
        | .error e => .misuse e
      | none, some _ =>
        if ["--json", "--no-cache", "--help", "--version"].contains name then
          .misuse (.needlessValue name)
        else .misuse (.unknownOption name)
      | none, none =>
        if name = "--json" then
          if a.json then .misuse (.repeated name) else { a with json := true }.take .nothing rest
        else if name = "--no-cache" then
          if a.noCache then .misuse (.repeated name)
          else { a with noCache := true }.take .nothing rest
        else if name = "--help" then .help
        else if name = "--version" then .version
        else .misuse (.unknownOption name)

def parse (words : List String) : Request := ({} : Arguments).take .nothing words

end Arguments

end LogTemplate
