import LogTemplate.Diagnostic
import LogTemplate.Dump.Basic
import LogTemplate.Entries
import LogTemplate.Surface

/-! The cache: for every dump the digest of its content and what was found in it, together with what
all of that depends on. -/

namespace LogTemplate

open Json

def toolVersion : String := "0.1.0"

def cacheVersion : UInt32 := 1

structure CacheMetadata where
  cacheVersion : UInt32
  toolVersion : String
  surfaceHash : String
  createdAt : UInt64
  deriving DecidableEq, Repr, Inhabited

structure CachedDump where
  hash : String
  compilation : String
  callSites : UInt64
  diagnostics : List Diagnostic
  deriving DecidableEq, Repr, Inhabited

structure Cache where
  metadata : CacheMetadata
  dumps : List (String × CachedDump)
  deriving DecidableEq, Repr, Inhabited

def majorVersion (version : String) : List Char := version.toList.takeWhile (· ≠ '.')

def CacheMetadata.current (s : Surface) (seconds : Nat) : CacheMetadata :=
  ⟨LogTemplate.cacheVersion, LogTemplate.toolVersion, s.fingerprint, seconds.toUInt64⟩

def CacheMetadata.isCompatible (m : CacheMetadata) (s : Surface) : Bool :=
  m.cacheVersion = LogTemplate.cacheVersion &&
    majorVersion LogTemplate.toolVersion = majorVersion m.toolVersion &&
    m.surfaceHash = s.fingerprint

def Severity.shape : Shape Severity :=
  .choice (Severity.all.map fun s => .plain s.name s) fun s => .string s.name

def Diagnostic.shape : Shape Diagnostic :=
  .record "struct Diagnostic"
    [.ofShape "rule_id" .required .text Diagnostic.ruleId fun v d => { d with ruleId := v },
     .ofShape "severity" .required Severity.shape Diagnostic.severity fun v d =>
       { d with severity := v },
     .ofShape "location" .required Location.shape Diagnostic.location fun v d =>
       { d with location := v },
     .ofShape "message" .required .text Diagnostic.message fun v d => { d with message := v },
     .ofShape "text" .required .text Diagnostic.text fun v d => { d with text := v }]
    default

def CachedDump.shape : Shape CachedDump :=
  .record "struct CachedDump"
    [.ofShape "hash" .required .text CachedDump.hash fun v d => { d with hash := v },
     .ofShape "compilation" .required .text CachedDump.compilation fun v d =>
       { d with compilation := v },
     .ofShape "call_sites" .required .uint64 CachedDump.callSites fun v d =>
       { d with callSites := v },
     .ofShape "diagnostics" .required Diagnostic.shape.list CachedDump.diagnostics fun v d =>
       { d with diagnostics := v }]
    default

def CacheMetadata.shape : Shape CacheMetadata :=
  .record "struct CacheMetadata"
    [.ofShape "cache_version" .required .uint32 CacheMetadata.cacheVersion fun v m =>
       { m with cacheVersion := v },
     .ofShape "tmplint_version" .required .text CacheMetadata.toolVersion fun v m =>
       { m with toolVersion := v },
     .ofShape "surface_hash" .defaulted .text CacheMetadata.surfaceHash fun v m =>
       { m with surfaceHash := v },
     .ofShape "created_at" .defaulted .uint64 CacheMetadata.createdAt fun v m =>
       { m with createdAt := v }]
    default

def Json.Shape.dictionary {α : Type} (s : Shape α) : Shape (List (String × α)) where
  write entries := .object (entries.map fun (name, a) => (name, s.write a))
  stream levels := Reader.located do
    let c ← Reader.begin
    if c = '{' then
      Reader.nested Reader.closeObject (fun levels => do
        let field (name : String) (entries : List (String × α)) : Reader (List (String × α)) := do
          Reader.colon
          let a ← s.stream levels
          return Entries.put name a entries
        Reader.fields field (← Reader.size) true []) levels
    else Reader.unexpected "a map" c
  decode
    | .object fields => fields.foldlM (fun entries (name, v) => do
        return Entries.put name (← s.decode v) entries) []
    | v => .error (.wrongType v.found "a map")

def Cache.shape : Shape Cache :=
  .record "struct TmplintCache"
    [.ofShape "metadata" .defaulted CacheMetadata.shape Cache.metadata fun v c =>
       { c with metadata := v },
     .ofShape "dumps" .required CachedDump.shape.dictionary Cache.dumps fun v c =>
       { c with dumps := v }]
    default

def Cache.text (c : Cache) : String := (Cache.shape.write c).pretty

def Cache.parse (text : String) : Except Rejection Cache :=
  Json.readAll (Cache.shape.stream Json.maxDepth) text

end LogTemplate
