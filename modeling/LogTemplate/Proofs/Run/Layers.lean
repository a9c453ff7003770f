import LogTemplate.CommandLine.Command
import LogTemplate.Proofs.Cache.Invalidation
import LogTemplate.Proofs.Run.Selection
import LogTemplate.Proofs.Run.Uncached

/-! Options are put together in layers: names and settings are added one after another, by calls or
from a command line. A run depends on which names there are, not on the layers they came with. -/

namespace LogTemplate

inductive Layer where
  | excludedDirectories (names : List String)
  | ignoredPatterns (patterns : List String)
  | extraTypes (types : List String)
  | settings (s : Settings)

namespace Layer

def excluded : Layer → List String
  | excludedDirectories names => names
  | _ => []

def ignored : Layer → List String
  | ignoredPatterns patterns => patterns
  | settings s => s.ignoredPatterns
  | _ => []

def types : Layer → List String
  | extraTypes types => types
  | settings s => s.extraTypes
  | _ => []

/-- The same names of each kind, each of them wherever and however often. -/
structure SameNames (layers layers' : List Layer) : Prop where
  excluded : ∀ n, (∃ l ∈ layers, n ∈ l.excluded) ↔ ∃ l ∈ layers', n ∈ l.excluded
  ignored : ∀ p, (∃ l ∈ layers, p ∈ l.ignored) ↔ ∃ l ∈ layers', p ∈ l.ignored
  types : ∀ n, (∃ l ∈ layers, n ∈ l.types) ↔ ∃ l ∈ layers', n ∈ l.types

end Layer

namespace Options

def add (o : Options) : Layer → Options
  | .excludedDirectories names => { o with excludedDirectories := o.excludedDirectories ++ names }
  | .ignoredPatterns patterns => { o with ignoredPatterns := o.ignoredPatterns ++ patterns }
  | .extraTypes types => { o with extraTypes := o.extraTypes ++ types }
  | .settings s => o.withSettings s

/-- How options for a root come about: from no layers, by adding one after another, and by turning
the cache on or off in between. -/
inductive Assembled (root : RawText) : Bool → List Layer → Options → Prop
  | new : Assembled root true [] { root }
  | withCache {useCache layers o} (h : Assembled root useCache layers o) (useCache' : Bool) :
    Assembled root useCache' layers { o with useCache := useCache' }
  | add {useCache layers o} (h : Assembled root useCache layers o) (l : Layer) :
    Assembled root useCache (layers ++ [l]) (o.add l)

structure Agrees (o o' : Options) : Prop where
  root : o.root = o'.root
  useCache : o.useCache = o'.useCache
  excludedDirectories : ∀ n, n ∈ o.excludedDirectories ↔ n ∈ o'.excludedDirectories
  ignoredPatterns : ∀ p, p ∈ o.ignoredPatterns ↔ p ∈ o'.ignoredPatterns
  extraTypes : ∀ n, n ∈ o.extraTypes ↔ n ∈ o'.extraTypes

/-! ### Names of layers -/

section

variable {root : RawText} {useCache : Bool} {layers layers' : List Layer} {o o' : Options}

theorem mem_add_excludedDirectories {l : Layer} {n : String} :
    n ∈ (o.add l).excludedDirectories ↔ n ∈ o.excludedDirectories ∨ n ∈ l.excluded := by
  cases l with
  | excludedDirectories names => exact List.mem_append
  | ignoredPatterns | extraTypes | settings => exact (or_iff_left List.not_mem_nil).symm

theorem mem_add_ignoredPatterns {l : Layer} {p : String} :
    p ∈ (o.add l).ignoredPatterns ↔ p ∈ o.ignoredPatterns ∨ p ∈ l.ignored := by
  cases l with
  | ignoredPatterns | settings => exact List.mem_append
  | excludedDirectories | extraTypes => exact (or_iff_left List.not_mem_nil).symm

theorem mem_add_extraTypes {l : Layer} {n : String} :
    n ∈ (o.add l).extraTypes ↔ n ∈ o.extraTypes ∨ n ∈ l.types := by
  cases l with
  | extraTypes | settings => exact List.mem_append
  | excludedDirectories | ignoredPatterns => exact (or_iff_left List.not_mem_nil).symm

theorem exists_mem_append_singleton {P : Layer → Prop} {l : Layer} :
    (∃ l' ∈ layers ++ [l], P l') ↔ (∃ l' ∈ layers, P l') ∨ P l := by
  simp only [List.mem_append, List.mem_singleton, or_and_right, exists_or, exists_eq_left]

structure Gathers (root : RawText) (useCache : Bool) (layers : List Layer) (o : Options) : Prop where
  root : o.root = root
  useCache : o.useCache = useCache
  excludedDirectories : ∀ n, n ∈ o.excludedDirectories ↔ ∃ l ∈ layers, n ∈ l.excluded
  ignoredPatterns : ∀ p, p ∈ o.ignoredPatterns ↔ ∃ l ∈ layers, p ∈ l.ignored
  extraTypes : ∀ n, n ∈ o.extraTypes ↔ ∃ l ∈ layers, n ∈ l.types

theorem Assembled.gathers (h : Assembled root useCache layers o) :
    Gathers root useCache layers o := by
  induction h with
  | new =>
    have hnone {P : Layer → Prop} : ¬ ∃ l ∈ ([] : List Layer), P l := by
      rintro ⟨l, hl, -⟩
      cases hl
    exact ⟨rfl, rfl, fun n => iff_of_false List.not_mem_nil hnone,
      fun p => iff_of_false List.not_mem_nil hnone, fun n => iff_of_false List.not_mem_nil hnone⟩
  | withCache _ useCache' ih =>
    exact ⟨ih.root, rfl, ih.excludedDirectories, ih.ignoredPatterns, ih.extraTypes⟩
  | add _ l ih =>
    refine ⟨?_, ?_, fun n => ?_, fun p => ?_, fun n => ?_⟩
    · rw [← ih.root]
      cases l <;> rfl
    · rw [← ih.useCache]
      cases l <;> rfl
    · rw [mem_add_excludedDirectories, ih.excludedDirectories, exists_mem_append_singleton]
    · rw [mem_add_ignoredPatterns, ih.ignoredPatterns, exists_mem_append_singleton]
    · rw [mem_add_extraTypes, ih.extraTypes, exists_mem_append_singleton]

theorem Assembled.agrees (h : Assembled root useCache layers o)
    (h' : Assembled root useCache layers' o') (hsame : Layer.SameNames layers layers') :
    o.Agrees o' where
  root := h.gathers.root.trans h'.gathers.root.symm
  useCache := h.gathers.useCache.trans h'.gathers.useCache.symm
  excludedDirectories n := by
    rw [h.gathers.excludedDirectories, h'.gathers.excludedDirectories, hsame.excluded]
  ignoredPatterns p := by
    rw [h.gathers.ignoredPatterns, h'.gathers.ignoredPatterns, hsame.ignored]
  extraTypes n := by
    rw [h.gathers.extraTypes, h'.gathers.extraTypes, hsame.types]

theorem assembled_self (o : Options) : Assembled o.root o.useCache
    [.excludedDirectories o.excludedDirectories, .ignoredPatterns o.ignoredPatterns,
      .extraTypes o.extraTypes] o := by
  have hnew : Assembled o.root o.useCache [] { root := o.root, useCache := o.useCache } :=
    Assembled.new.withCache o.useCache
  exact ((hnew.add (.excludedDirectories o.excludedDirectories)).add
    (.ignoredPatterns o.ignoredPatterns)).add (.extraTypes o.extraTypes)

end

end Options

def Arguments.layers (a : Arguments) (settings : Option Settings) : List Layer :=
  [.excludedDirectories a.excludedDirectories, .ignoredPatterns a.ignored,
    .extraTypes a.surfaceTypes] ++ settings.toList.map .settings

theorem Arguments.assembled_options (a : Arguments) (settings : Option Settings) :
    Options.Assembled a.root (!a.noCache) (a.layers settings) (a.options settings) := by
  have hflags := Options.assembled_self (a.options none)
  cases settings with
  | none => exact hflags
  | some s => exact hflags.add (.settings s)

/-! ### Runs of options with the same names -/

namespace Options

def Stores (o : Options) (stamp : Stamp) (t : FileTree) : Prop :=
  ∀ files, o.useCache = true → o.LooksAt t files → (o.saved stamp t files).1 = .ok ()

/-- One text, or the texts of two caches with the same entries for the same surface. -/
def SameEntries (x x' : String) : Prop :=
  x = x' ∨ ∃ c c', Cache.parse x = .ok c ∧ Cache.parse x' = .ok c' ∧
    c.metadata.surfaceHash = c'.metadata.surfaceHash ∧ c.dumps = c'.dumps

variable {o o' : Options} {t : FileTree} {stamp stamp' : Stamp} {x x' : String}

theorem analyze_fst_eq (o : Options) (stamp stamp' : Stamp) (t : FileTree) :
    (o.analyze stamp t).1 = (o.analyze stamp' t).1 := by
  unfold analyze
  by_cases hroot : (!t.isDirectory o.root) = true
  · rw [if_pos hroot, if_pos hroot]
  · rw [if_neg hroot, if_neg hroot]
    cases o.files t <;> rfl

theorem Stores.readText_eq (h : o.Stores stamp t) (hcache : o.useCache = true)
    {files : List RawText} (hlooks : o.LooksAt t files)
    (hread : (o.analyze stamp t).2.readText (Cache.file o.root) = .ok x) :
    x = (o.newCache stamp t files).text := by
  have hafter := analyze_cached_snd_of_looksAt hlooks stamp
  rw [cached_eq_self hcache] at hafter
  rw [hafter] at hread
  exact Cache.readText_of_save_eq_ok (h files hcache hlooks) hread

theorem Stores.readText_file (h : o.Stores stamp t) (hcache : o.useCache = true)
    {files : List RawText} (hlooks : o.LooksAt t files) (hunused : stamp.IsUnused t)
    (hsize : (Text.bytes (o.newCache stamp t files).text).length ≤ Cache.sizeLimit)
    (hdir : (o.analyze stamp t).2.isDirectory (Cache.directory o.root) = true) :
    (o.analyze stamp t).2.readText (Cache.file o.root) = .ok (o.newCache stamp t files).text := by
  have hafter := analyze_cached_snd_of_looksAt hlooks stamp
  rw [cached_eq_self hcache] at hafter
  rw [hafter] at hdir ⊢
  have hunused' := Cache.isUnused_load o.root o.surface hunused
  exact (Cache.readText_of_saved hunused' hsize (h files hcache hlooks)).1 hdir

theorem parse_text_newCache (o : Options) (stamp : Stamp) (t : FileTree) (files : List RawText) :
    Cache.parse (o.newCache stamp t files).text = .ok (o.newCache stamp t files) :=
  Cache.parse_text (Entries.nodup_foldl_put List.nodup_nil)

namespace Agrees

variable (h : o.Agrees o')

include h

theorem surface_eq : o.surface = o'.surface := surface_congr h.extraTypes

theorem files_eq (t : FileTree) : o.files t = o'.files t :=
  files_congr h.root h.excludedDirectories h.ignoredPatterns

theorem looksAt_iff (files : List RawText) : o.LooksAt t files ↔ o'.LooksAt t files := by
  unfold LooksAt
  rw [h.root, h.files_eq]

theorem analyze_eq (stamp : Stamp) (t : FileTree) : o.analyze stamp t = o'.analyze stamp t := by
  unfold analyze
  rw [h.root, h.files_eq, h.surface_eq, h.useCache]

theorem newCache_eq (stamp stamp' : Stamp) (t : FileTree) (files : List RawText) :
    (o.newCache stamp t files).metadata.surfaceHash
        = (o'.newCache stamp' t files).metadata.surfaceHash ∧
      (o.newCache stamp t files).dumps = (o'.newCache stamp' t files).dumps := by
  unfold newCache
  rw [h.root, h.surface_eq]
  exact ⟨rfl, rfl⟩

theorem sameEntries (hstores : o.Stores stamp t) (hstores' : o'.Stores stamp' t)
    (hread : (o.analyze stamp t).2.readText (Cache.file o.root) = .ok x)
    (hread' : (o'.analyze stamp' t).2.readText (Cache.file o'.root) = .ok x') :
    SameEntries x x' := by
  by_cases hmakes : ∃ files, o.useCache = true ∧ o.LooksAt t files
  · obtain ⟨files, hcache, hlooks⟩ := hmakes
    have hcache' : o'.useCache = true := h.useCache ▸ hcache
    have hlooks' : o'.LooksAt t files := (h.looksAt_iff files).mp hlooks
    rw [hstores.readText_eq hcache hlooks hread, hstores'.readText_eq hcache' hlooks' hread']
    exact .inr ⟨_, _, o.parse_text_newCache stamp t files, o'.parse_text_newCache stamp' t files,
      h.newCache_eq stamp stamp' t files⟩
  · -- neither run touches the files
    have hnone : o.useCache = true → ∀ files, ¬ o.LooksAt t files :=
      fun hcache files hlooks => hmakes ⟨files, hcache, hlooks⟩
    have hnone' : o'.useCache = true → ∀ files, ¬ o'.LooksAt t files := by
      intro hcache files hlooks
      exact hnone (h.useCache ▸ hcache) files ((h.looksAt_iff files).mpr hlooks)
    rw [analyze_snd_eq_self hnone] at hread
    rw [analyze_snd_eq_self hnone', ← h.root, hread] at hread'
    exact .inl (Except.ok.inj hread')

end Agrees

/-- Runs of options with the same names find the same, whenever they are made. Made at the same time
they leave the same files, and else cache files with the same entries. A cache that was stored can be
read, if nothing else had the name that it was written under at first. -/
theorem analyze_layers {root : RawText} {useCache : Bool} {layers layers' : List Layer}
    (h : Assembled root useCache layers o) (h' : Assembled root useCache layers' o')
    (hsame : Layer.SameNames layers layers') (t : FileTree) :
    (∀ stamp, o.analyze stamp t = o'.analyze stamp t) ∧
    (∀ stamp stamp', (o.analyze stamp t).1 = (o'.analyze stamp' t).1 ∧
      (o.Stores stamp t → o'.Stores stamp' t → ∀ x x',
        (o.analyze stamp t).2.readText (Cache.file root) = .ok x →
        (o'.analyze stamp' t).2.readText (Cache.file root) = .ok x' → SameEntries x x')) ∧
    ∀ stamp files, useCache = true → o.LooksAt t files → stamp.IsUnused t → o.Stores stamp t →
      (Text.bytes (o.newCache stamp t files).text).length ≤ Cache.sizeLimit →
      (o.analyze stamp t).2.isDirectory (Cache.directory root) = true →
      (o.analyze stamp t).2.readText (Cache.file root) = .ok (o.newCache stamp t files).text := by
  have hagrees := h.agrees h' hsame
  obtain ⟨rfl, rfl, -, -, -⟩ := h.gathers
  refine ⟨fun stamp => hagrees.analyze_eq stamp t, fun stamp stamp' => ⟨?_, ?_⟩, ?_⟩
  · rw [analyze_fst_eq o stamp stamp', hagrees.analyze_eq]
  · intro hstores hstores' x x' hread hread'
    rw [hagrees.root] at hread'
    exact hagrees.sameEntries hstores hstores' hread hread'
  · intro stamp files hcache hlooks hunused hstores hsize hdir
    exact hstores.readText_file hcache hlooks hunused hsize hdir

/-! A command line over settings, and calls that add the same names in another order. -/

def layeredArguments : Arguments where
  path := some "/work"
  ignored := ["old"]
  surfaceTypes := ["T", "U"]

def layeredSettings : Settings := { ignoredPatterns := ["new", "old"], extraTypes := ["U"] }

def layeredCalls : List Layer :=
  [.extraTypes ["U"], .ignoredPatterns ["new"], .settings layeredSettings, .extraTypes ["T"]]

theorem sameNames_layered :
    Layer.SameNames (layeredArguments.layers (some layeredSettings)) layeredCalls where
  excluded n := by
    have hnone : (layeredArguments.layers (some layeredSettings)).flatMap Layer.excluded = [] := rfl
    have hnone' : layeredCalls.flatMap Layer.excluded = [] := rfl
    rw [← List.mem_flatMap, ← List.mem_flatMap, hnone, hnone']
  ignored p := by
    have hflags : (layeredArguments.layers (some layeredSettings)).flatMap Layer.ignored
        = ["old", "new", "old"] := rfl
    have hcalls : layeredCalls.flatMap Layer.ignored = ["new", "new", "old"] := rfl
    rw [← List.mem_flatMap, ← List.mem_flatMap, hflags, hcalls]
    grind
  types n := by
    have hflags : (layeredArguments.layers (some layeredSettings)).flatMap Layer.types
        = ["T", "U", "U"] := rfl
    have hcalls : layeredCalls.flatMap Layer.types = ["U", "U", "T"] := rfl
    rw [← List.mem_flatMap, ← List.mem_flatMap, hflags, hcalls]
    grind

def layeredOptions : Options := layeredArguments.options (some layeredSettings)

theorem layeredOptions_empty :
    (FileTree.empty.isDirectory "/work" = true ∧ (layeredOptions.files .empty).toOption = some []) ∧
    (layeredOptions.saved Sample.stamp .empty []).1.toOption = some () ∧
    (Text.bytes (layeredOptions.newCache Sample.stamp .empty []).text).length ≤ Cache.sizeLimit ∧
    (layeredOptions.analyze Sample.stamp .empty).2.isDirectory (Cache.directory "/work") = true := by
  decide +kernel

theorem analyze_layers_commandLine :
    Assembled "/work" true (layeredArguments.layers (some layeredSettings)) layeredOptions ∧
    Assembled "/work" true layeredCalls (layeredCalls.foldl add { root := "/work" }) ∧
    Layer.SameNames (layeredArguments.layers (some layeredSettings)) layeredCalls ∧
    (∀ stamp, layeredOptions.analyze stamp Sample.tree
      = (layeredCalls.foldl add { root := "/work" }).analyze stamp Sample.tree) ∧
    (layeredOptions.analyze Sample.stamp .empty).2.readText (Cache.file "/work")
      = .ok (layeredOptions.newCache Sample.stamp .empty []).text := by
  have hflags : Assembled "/work" true (layeredArguments.layers (some layeredSettings))
      layeredOptions := layeredArguments.assembled_options (some layeredSettings)
  have hcalls : Assembled "/work" true layeredCalls (layeredCalls.foldl add { root := "/work" }) :=
    (((Assembled.new.add (.extraTypes ["U"])).add (.ignoredPatterns ["new"])).add
      (.settings layeredSettings)).add (.extraTypes ["T"])
  obtain ⟨⟨hroot, hfiles⟩, hsaved, hsize, hdir⟩ := layeredOptions_empty
  have hlooks : layeredOptions.LooksAt .empty [] := ⟨hroot, Json.eq_ok_of_toOption hfiles⟩
  have hunused : Sample.stamp.IsUnused .empty := FileTree.unused_of_not_mem_names (by decide)
  have hstores : layeredOptions.Stores Sample.stamp .empty := by
    intro files _ hlooks'
    obtain rfl := Except.ok.inj (hlooks.2.symm.trans hlooks'.2)
    exact Json.eq_ok_of_toOption hsaved
  obtain ⟨-, -, hleaves⟩ := analyze_layers hflags hcalls sameNames_layered .empty
  exact ⟨hflags, hcalls, sameNames_layered,
    (analyze_layers hflags hcalls sameNames_layered Sample.tree).1,
    hleaves Sample.stamp [] rfl hlooks hunused hstores hsize hdir⟩

end Options

end LogTemplate
