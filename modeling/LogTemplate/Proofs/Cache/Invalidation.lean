import LogTemplate.Proofs.Cache.Compatibility
import LogTemplate.Proofs.Cache.Footprint
import LogTemplate.Proofs.Cache.RoundTrip

/-! A cache that was saved is what is loaded under the same surface. Under another one it is removed,
and from then on there is none to be loaded. -/

namespace LogTemplate.Cache

open FileTree Function

variable {root : RawText} {stamp : Stamp} {c : Cache} {t : FileTree}

/-! ### Loading -/

theorem load_of_not_pathExists (s : Surface) (h : ¬ t.pathExists (file root) = true) :
    load root s t = (none, t) :=
  load_of_not_readText s fun _ hread => h (pathExists_of_readText hread)

theorem load_of_compatible {s : Surface} (hread : t.readText (file root) = .ok c.text)
    (hnames : (c.dumps.map Prod.fst).Nodup) (hgood : c.metadata.isCompatible s = true) :
    load root s t = (some c, t) := by
  unfold load
  rw [hread]
  dsimp only
  rw [parse_text hnames]
  exact if_pos hgood

theorem exists_load_of_not_compatible {s : Surface} (hread : t.readText (file root) = .ok c.text)
    (hnames : (c.dumps.map Prod.fst).Nodup) (hbad : ¬ c.metadata.isCompatible s = true) :
    ∃ t', t.removeFile (file root) = .ok t' ∧ load root s t = (none, t') := by
  obtain ⟨t', hremove⟩ : ∃ t', t.removeFile (file root) = .ok t' :=
    exists_removeFile_of_readText (directory_ne_empty root) isFileName_fileName hread
  refine ⟨t', hremove, ?_⟩
  have hload : load root s t = (none, (t.removeFile (file root)).toOption.getD t) := by
    unfold load
    rw [hread]
    dsimp only
    rw [parse_text hnames]
    exact if_neg hbad
  rw [hload, hremove]
  rfl

/-! ### What was saved -/

theorem exists_store_of_save (h : stamp.IsUnused t) (hsave : (save root stamp c t).1 = .ok ()) :
    ∃ t', stamp.IsUnused t' ∧ save root stamp c t = store root stamp c t' := by
  rcases save_steps root stamp c t with ⟨-, hstore⟩ | ⟨-, ⟨e, hfails⟩ | hstore⟩
  · exact ⟨t, h, hstore⟩
  · rw [hfails] at hsave
    cases hsave
  · exact ⟨_, unused_createDirectories h (directory root), hstore⟩

theorem readText_of_saved (h : stamp.IsUnused t) (hsize : (Text.bytes c.text).length ≤ sizeLimit)
    (hsave : (save root stamp c t).1 = .ok ()) :
    ((save root stamp c t).2.isDirectory (directory root) = true →
        (save root stamp c t).2.readText (file root) = .ok c.text) ∧
      ((save root stamp c t).2.pathExists (file root) = true →
        (save root stamp c t).2.isDirectory (directory root) = true) := by
  have hdirectory := directory_ne_empty root
  obtain ⟨t', h', hstore⟩ := exists_store_of_save h hsave
  rw [hstore, store_of_small (Nat.not_lt.mpr hsize)] at hsave ⊢
  have hroom : ¬ IsCutOff root stamp (replaceFile root stamp (Text.bytes c.text) t').1 := by
    rintro ⟨-, hcut⟩
    rw [hsave] at hcut
    cases hcut
  rcases replaceFile_cases root h' (Text.bytes c.text) hroom with ⟨e, hfails⟩ |
    ⟨d, u, hreplace, hallowed, hleads, -, hupdated⟩
  · rw [hfails] at hsave
    cases hsave
  rw [hreplace]
  have hfile : u.top.view (d ++ [fileName]) = some (.file (Text.bytes c.text)) := by
    rw [hupdated.view, update_self]
  refine ⟨fun hthere => ?_, fun hfound => ?_⟩
  · obtain ⟨d', hd'⟩ := exists_leadsTo_of_isDirectory hthere
    have hplace : d' = d := (hupdated.leadsTo_of_file hd').unique hleads
    subst hplace
    exact hd'.readText hdirectory isFileName_fileName (by decide) hallowed hfile
      (Text.ofBytes?_bytes c.text)
  · obtain ⟨d', hd'⟩ := exists_leadsTo_of_pathExists hdirectory isFileName_fileName hfound
    exact hd'.isDirectory

/-- A cache that was saved is loaded as it was under each surface with the same fingerprint, if its
directory is there still and not only by way of an old cache file. Under any other surface no cache
is loaded, there is no cache file any more, and none is loaded from then on. -/
theorem load_save {s : Surface} {seconds : Nat} (h : stamp.IsUnused t)
    (hnames : (c.dumps.map Prod.fst).Nodup) (hmetadata : c.metadata = .current s seconds)
    (hsize : (Text.bytes c.text).length ≤ sizeLimit) (hsave : (save root stamp c t).1 = .ok ())
    (s' : Surface) :
    (s'.fingerprint = s.fingerprint →
        (save root stamp c t).2.isDirectory (directory root) = true →
        load root s' (save root stamp c t).2 = (some c, (save root stamp c t).2)) ∧
      (s'.fingerprint ≠ s.fingerprint →
        (load root s' (save root stamp c t).2).1 = none ∧
        (load root s' (save root stamp c t).2).2.pathExists (file root) = false ∧
        ∀ s'', load root s'' (load root s' (save root stamp c t).2).2
          = (none, (load root s' (save root stamp c t).2).2)) := by
  obtain ⟨hread, hthere⟩ := readText_of_saved h hsize hsave
  have hcompatible : c.metadata.isCompatible s' = true ↔ s'.fingerprint = s.fingerprint := by
    rw [hmetadata, CacheMetadata.isCompatible_current_iff]
    exact eq_comm
  refine ⟨fun hsame hdir => ?_, fun hother => ?_⟩
  · exact load_of_compatible (hread hdir) hnames (hcompatible.mpr hsame)
  have hgone : (load root s' (save root stamp c t).2).1 = none ∧
      ¬ (load root s' (save root stamp c t).2).2.pathExists (file root) = true := by
    by_cases hfound : (save root stamp c t).2.pathExists (file root) = true
    · obtain ⟨t', hremove, hload⟩ :=
        exists_load_of_not_compatible (hread (hthere hfound)) hnames (mt hcompatible.mp hother)
      rw [hload]
      exact ⟨rfl, not_pathExists_removeFile_self (directory_ne_empty root) isFileName_fileName hremove⟩
    · rw [load_of_not_pathExists s' hfound]
      exact ⟨rfl, hfound⟩
  exact ⟨hgone.1, Bool.eq_false_iff.mpr hgone.2, fun s'' => load_of_not_pathExists s'' hgone.2⟩

/-! ### An empty directory, and a root that is found by way of the old cache file -/

def keptCache : Cache where
  metadata := .current (.ofTypes ["T"]) 0
  dumps := [("a", ⟨"0", "\"\u0001", 1, []⟩)]

def keptTree : FileTree := (save "new" ⟨1, 2, none⟩ keptCache .empty).2

theorem keptTree_saved : (save "new" ⟨1, 2, none⟩ keptCache .empty).1.toOption = some () ∧
    (Text.bytes keptCache.text).length ≤ sizeLimit ∧
    keptTree.isDirectory (directory "new") = true := by
  decide +kernel

theorem load_save_kept :
    (⟨1, 2, none⟩ : Stamp).IsUnused .empty ∧ (save "new" ⟨1, 2, none⟩ keptCache .empty).1 = .ok () ∧
    load "new" (.ofTypes ["T"]) keptTree = (some keptCache, keptTree) ∧
    (load "new" (.ofTypes []) keptTree).1 = none ∧
    (load "new" (.ofTypes ["T"]) (load "new" (.ofTypes []) keptTree).2).1 = none := by
  obtain ⟨hok, hsize, hdir⟩ := keptTree_saved
  have hunused : (⟨1, 2, none⟩ : Stamp).IsUnused .empty := unused_of_not_mem_names (by decide)
  have hsave : (save "new" ⟨1, 2, none⟩ keptCache .empty).1 = .ok () := Json.eq_ok_of_toOption hok
  have hother : (Surface.ofTypes []).fingerprint ≠ (Surface.ofTypes ["T"]).fingerprint := by
    decide +kernel
  have hload (s' : Surface) := load_save hunused (by decide) rfl hsize hsave s'
  obtain ⟨hnone, -, hagain⟩ := (hload (.ofTypes [])).2 hother
  refine ⟨hunused, hsave, (hload (.ofTypes ["T"])).1 rfl hdir, hnone, ?_⟩
  exact congrArg Prod.fst (hagain (.ofTypes ["T"]))

def linkedTree : FileTree where
  top := .directory [(".tmplint", .directory [("cache.json", .link "..")])]
  workingDirectory := []

def linkedRoot : RawText := ".tmplint/cache.json"

def emptyCache : Cache := ⟨.current (.ofTypes []) 0, []⟩

/-- Where the link is the root the cache that is saved takes its place, and nothing leads there any
more. -/
theorem load_save_of_link :
    (⟨1, 2, none⟩ : Stamp).IsUnused linkedTree ∧ linkedTree.isDirectory linkedRoot = true ∧
    (Text.bytes emptyCache.text).length ≤ sizeLimit ∧
    (save linkedRoot ⟨1, 2, none⟩ emptyCache linkedTree).1 = .ok () ∧
    (load linkedRoot (.ofTypes []) (save linkedRoot ⟨1, 2, none⟩ emptyCache linkedTree).2).1 = none := by
  have hrun : linkedTree.isDirectory linkedRoot = true ∧
      (Text.bytes emptyCache.text).length ≤ sizeLimit ∧
      (save linkedRoot ⟨1, 2, none⟩ emptyCache linkedTree).1.toOption = some () ∧
      (load linkedRoot (.ofTypes []) (save linkedRoot ⟨1, 2, none⟩ emptyCache linkedTree).2).1 = none := by
    decide +kernel
  obtain ⟨hdir, hsize, hok, hnone⟩ := hrun
  exact ⟨unused_of_not_mem_names (by decide), hdir, hsize, Json.eq_ok_of_toOption hok, hnone⟩

end LogTemplate.Cache
