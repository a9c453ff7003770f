import LogTemplate.Proofs.Cache.Storing
import LogTemplate.Proofs.FileTree.Replacing

/-! What loading and storing a cache change in a tree: the cache file, and its directory where there
is none. The name under which a cache is written at first is used for nothing else. -/

namespace LogTemplate

open FileTree Function

/-- No file and no link has the name under which a cache is written at first. -/
def Stamp.IsUnused (s : Stamp) (t : FileTree) : Prop := Unused (Cache.temporaryName s) t.top.view

namespace Cache

variable {root : RawText} {stamp : Stamp} {t : FileTree}

theorem temporaryName_ne_directory (s : Stamp) : temporaryName s ≠ directoryName :=
  temporaryName_ne (by decide) s

theorem isUnused_of_updated {t' : FileTree} {above : List RawText} {name : RawText} {l : Option Label}
    (h : stamp.IsUnused t) (hname : name = fileName ∨ name = directoryName)
    (hupdated : t.Updated (above ++ [name]) l t') : stamp.IsUnused t' := by
  unfold Stamp.IsUnused
  rw [hupdated.view]
  refine h.update fun heq => ?_
  rcases hname with rfl | rfl
  · exact absurd heq.symm (temporaryName_ne_fileName stamp)
  · exact absurd heq.symm (temporaryName_ne_directory stamp)

/-- Nothing is stored for want of room. -/
def IsCutOff (root : RawText) (stamp : Stamp) (answer : Except Error Unit) : Prop :=
  stamp.room ≠ none ∧ answer = .error (.io (temporaryFile root stamp) .noSpace)

theorem replaceFile_of_isTooLong (h : isTooLong (temporaryFile root stamp) = true)
    (content : List UInt8) (t : FileTree) :
    ∃ e, replaceFile root stamp content t = (.error e, t) := by
  have hnot {content : List UInt8} {t' : FileTree} :
      t.write (temporaryFile root stamp) content ≠ .ok t' := by
    intro hwrite
    have hshort := (allowed_of_write hwrite).2.2
    rw [h] at hshort
    cases hshort
  have hreplaced := replaced_replaceFile root stamp content t
  generalize replaceFile root stamp content t = answer at hreplaced
  cases hreplaced with
  | notWritten e => exact ⟨e, rfl⟩
  | cutOff _ hwrite => exact absurd hwrite hnot
  | notMoved _ hwrite => exact absurd hwrite hnot
  | moved hwrite _ => exact absurd hwrite hnot

theorem replaceFile_cases (root : RawText) (h : stamp.IsUnused t) (content : List UInt8)
    (hroom : ¬ IsCutOff root stamp (replaceFile root stamp content t).1) :
    (∃ e, replaceFile root stamp content t = (.error e, t)) ∨
      ∃ d u, replaceFile root stamp content t = (.ok (), u) ∧ Allowed (file root) ∧
        t.LeadsTo (directory root) d ∧ t.top.view (d ++ [fileName]) ≠ some .directory ∧
        t.Updated (d ++ [fileName]) (some (.file content)) u := by
  have hdirectory := directory_ne_empty root
  have htemporary := isFileName_temporaryName stamp
  have hreplaced := replaced_replaceFile root stamp content t
  generalize replaceFile root stamp content t = answer at hroom hreplaced
  cases hreplaced with
  | notWritten e => exact .inl ⟨e, rfl⟩
  | cutOff hlimited _ => exact absurd ⟨hlimited ▸ Option.some_ne_none _, rfl⟩ hroom
  | notMoved e hwrite =>
    have hremove := removeFile_of_write_unused hdirectory htemporary h hwrite
    refine .inl ⟨e, ?_⟩
    rw [temporaryFile, hremove]
    rfl
  | @moved t' u hwrite hrename =>
    obtain ⟨d, hleads, hold, hupdated⟩ := exists_of_write_unused_rename hdirectory htemporary
      isFileName_fileName (temporaryName_ne_fileName stamp) h hwrite hrename
    exact .inr ⟨d, u, rfl, allowed_of_rename hrename, hleads, hold, hupdated⟩

theorem store_footprint (root : RawText) (h : stamp.IsUnused t) (c : Cache)
    (hroom : ¬ IsCutOff root stamp (store root stamp c t).1) :
    (store root stamp c t).2 = t ∨
      ∃ d l, t.LeadsTo (directory root) d ∧ t.top.view (d ++ [fileName]) ≠ some .directory ∧
        t.Updated (d ++ [fileName]) l (store root stamp c t).2 := by
  by_cases hlarge : sizeLimit < (Text.bytes c.text).length
  · rw [store_of_large hlarge]
    cases hremove : t.removeFile (file root) with
    | error e => exact .inl rfl
    | ok t' =>
      obtain ⟨d, hleads, hold, hupdated⟩ :=
        exists_updated_of_removeFile (directory_ne_empty root) isFileName_fileName hremove
      exact .inr ⟨d, none, hleads, hold, hupdated⟩
  · rw [store_of_small hlarge] at hroom ⊢
    rcases replaceFile_cases root h (Text.bytes c.text) hroom with ⟨e, hfails⟩ |
      ⟨d, u, hreplace, -, hleads, hold, hupdated⟩
    · rw [hfails]
      exact .inl rfl
    · rw [hreplace]
      exact .inr ⟨d, _, hleads, hold, hupdated⟩

theorem load_footprint (root : RawText) (s : Surface) (t : FileTree) :
    (load root s t).2 = t ∨
      ∃ d, t.LeadsTo (directory root) d ∧ t.top.view (d ++ [fileName]) ≠ some .directory ∧
        t.Updated (d ++ [fileName]) none (load root s t).2 := by
  rcases load_cases root s t with hsame | ⟨x, t', -, hremove, hload⟩
  · exact .inl hsame
  · rw [hload]
    exact .inr (exists_updated_of_removeFile (directory_ne_empty root) isFileName_fileName hremove)

theorem isUnused_load (root : RawText) (s : Surface) (h : stamp.IsUnused t) :
    stamp.IsUnused (load root s t).2 := by
  rcases load_footprint root s t with hsame | ⟨d, -, -, hupdated⟩
  · rwa [hsame]
  · exact isUnused_of_updated h (.inl rfl) hupdated

/-! ### The directory of a cache -/

theorem store_footprint_of_created {r : List RawText} {t' : FileTree} (hroot : root ≠ "")
    (hr : t.LeadsTo root r) (hfree : t.top.view (r ++ [directoryName]) = none)
    (hmade : t.Updated (r ++ [directoryName]) (some .directory) t') (h : stamp.IsUnused t)
    (c : Cache) (hroom : ¬ IsCutOff root stamp (store root stamp c t').1) :
    ∃ l, t'.Updated (r ++ [directoryName] ++ [fileName]) l (store root stamp c t').2 := by
  have hshows : Shows t.top.view t'.top.view := by
    intro place l hl
    have hne : place ≠ r ++ [directoryName] := by
      rintro rfl
      rw [hfree] at hl
      cases hl
    left
    rwa [hmade.view, update_of_ne hne]
  have hr' : t'.LeadsTo root r := hr.mono hshows hmade.workingDirectory
  have hchild : t'.top.view (r ++ [directoryName]) = some .directory := by rw [hmade.view, update_self]
  rcases store_footprint root (isUnused_of_updated h (.inr rfl) hmade) c hroom with hsame |
    ⟨d, l, hleads, -, hupdated⟩
  · rw [hsame]
    exact ⟨_, (update_eq_self _ _).symm, rfl⟩
  · have hd : d = r ++ [directoryName] := hr'.eq_append hroot isFileName_directory hleads.resolve hchild
    exact ⟨l, hd ▸ hupdated⟩

/-- Two trees that are the same, or the same but for the cache file, or for its directory too, which
was not there. -/
inductive Footprint (root : RawText) (r : List RawText) (t t' : FileTree) : Prop
  | same (h : t' = t)
  | file {d : List RawText} {l : Option Label} (leads : t.LeadsTo (directory root) d)
      (old : t.top.view (d ++ [fileName]) ≠ some .directory) (updated : t.Updated (d ++ [fileName]) l t')
  | created {l : Option Label} {t₁ : FileTree} (free : t.top.view (r ++ [directoryName]) = none)
      (made : t.Updated (r ++ [directoryName]) (some .directory) t₁)
      (updated : t₁.Updated (r ++ [directoryName] ++ [fileName]) l t')

theorem save_footprint {r : List RawText} (hdir : t.isDirectory root = true) (hr : t.LeadsTo root r)
    (h : stamp.IsUnused t) (c : Cache) (hroom : ¬ IsCutOff root stamp (save root stamp c t).1) :
    Footprint root r t (save root stamp c t).2 := by
  have hroot := ne_empty_of_isDirectory hdir
  have hstored (hroom : ¬ IsCutOff root stamp (store root stamp c t).1) :
      Footprint root r t (store root stamp c t).2 := by
    rcases store_footprint root h c hroom with hsame | ⟨d, l, hleads, hold, hupdated⟩
    · exact .same hsame
    · exact .file hleads hold hupdated
  rcases save_steps root stamp c t with ⟨-, hsave⟩ | ⟨-, hsteps⟩
  · rw [hsave] at hroom ⊢
    exact hstored hroom
  rcases createDirectories_cases hroot isFileName_directory (by decide) hdir with
    hsame | ⟨k, r', hrun, hr', hfree, hnew⟩
  · rw [show (t.createDirectories (directory root)).2 = t from hsame] at hsteps
    rcases hsteps with ⟨e, hfails⟩ | hsave
    · rw [hfails]
      exact .same rfl
    · rw [hsave] at hroom ⊢
      exact hstored hroom
  · obtain ⟨k', -, hrun'⟩ := hr.run
    obtain ⟨rfl, -⟩ := hrun.unique hrun'
    have hmade : t.Updated (r' ++ [directoryName]) (some .directory)
        (t.createDirectories (directory root)).2 := by
      rw [show (t.createDirectories (directory root)).2 = _ from hnew]
      exact updated_put_directory hr' hfree
    rcases hsteps with ⟨e, hfails⟩ | hsave
    · rw [hfails]
      exact .created hfree hmade ⟨(update_eq_self _ _).symm, rfl⟩
    · rw [hsave] at hroom ⊢
      obtain ⟨l, hupdated⟩ := store_footprint_of_created hroot hr hfree hmade h c hroom
      exact .created hfree hmade hupdated

theorem save_load_footprint {r : List RawText} (hdir : t.isDirectory root = true)
    (hr : t.LeadsTo root r) (h : stamp.IsUnused t) (s : Surface) (c : Cache)
    (hroom : ¬ IsCutOff root stamp (save root stamp c (load root s t).2).1) :
    Footprint root r t (save root stamp c (load root s t).2).2 := by
  have hroot := ne_empty_of_isDirectory hdir
  by_cases hexists : (load root s t).2.pathExists (directory root) = true
  · rcases load_footprint root s t with hsame | ⟨d, hleads, hold, hremoved⟩
    · rw [hsame] at hroom ⊢
      exact save_footprint hdir hr h c hroom
    · have hsave : save root stamp c (load root s t).2 = store root stamp c (load root s t).2 := by
        rw [save, if_pos hexists]
      rw [hsave] at hroom ⊢
      rcases store_footprint root (isUnused_load root s h) c hroom with hsame |
        ⟨d', l, hleads', -, hupdated⟩
      · rw [hsame]
        exact .file hleads hold hremoved
      · -- what is stored goes where the old cache was removed
        have hshows : Shows (load root s t).2.top.view t.top.view := by
          rw [hremoved.view]
          exact shows_of_update_none t.top.view (d ++ [fileName])
        have hplace := (hleads'.mono hshows hremoved.workingDirectory.symm).unique hleads
        subst hplace
        exact .file hleads hold (hremoved.trans hupdated)
  · rw [load_eq_of_not_pathExists hroot s hexists] at hroom ⊢
    exact save_footprint hdir hr h c hroom

end Cache

end LogTemplate
