import LogTemplate.Cache.Store
import LogTemplate.Proofs.FileTree.Contents
import LogTemplate.Proofs.Text.Raw

/-! What loading and storing a cache do to the files: whatever leads elsewhere than to the cache file
is read as before, and the cache file holds the cache that was stored. -/

namespace LogTemplate.Cache

open FileTree

variable {root : RawText} {x : String} {t t' : FileTree}

theorem isFileName_directory : IsFileName directoryName := ⟨by decide, by decide, by decide⟩

theorem isFileName_fileName : IsFileName fileName := ⟨by decide, by decide, by decide⟩

def temporaryEnd (s : Stamp) : List Char :=
  '.' :: (Nat.toDigits 10 s.process ++ '.' ::
    (Nat.toDigits 10 s.nanoseconds ++ ['.', 't', 'm', 'p']))

theorem bytes_temporaryName (s : Stamp) :
    (temporaryName s).bytes = fileName.bytes ++ Text.encode (temporaryEnd s) := by
  unfold temporaryName
  rw [RawText.bytes_append, RawText.ofText, Text.bytes_eq_encode]
  simp only [String.toList_append, ToString.toString, Nat.toList_repr, List.append_assoc]
  rfl

theorem not_mem_temporaryName {c : Char} (hc : c.toNat < 128)
    (hname : UInt8.ofNat c.toNat ∉ fileName.bytes) (hend : c ∉ ['.', 't', 'm', 'p'])
    (hdigit : ¬ c.isDigit = true) (s : Stamp) : UInt8.ofNat c.toNat ∉ (temporaryName s).bytes := by
  have hdigits (n : Nat) : c ∉ Nat.toDigits 10 n := fun h =>
    hdigit (Nat.isDigit_of_mem_toDigits (by decide) (by decide) h)
  have hdot : c ≠ '.' := List.ne_of_not_mem_cons hend
  rw [bytes_temporaryName, List.mem_append, Text.mem_encode_iff hc, not_or]
  refine ⟨hname, ?_⟩
  unfold temporaryEnd
  simp only [List.mem_cons, List.mem_append, not_or] at hend ⊢
  exact ⟨hdot, hdigits _, hdot, hdigits _, hend⟩

theorem temporaryName_ne {other : RawText} (h : other.bytes.head? ≠ fileName.bytes.head?)
    (s : Stamp) : temporaryName s ≠ other := by
  rintro rfl
  rw [bytes_temporaryName] at h
  exact h rfl

theorem isFileName_temporaryName (s : Stamp) : IsFileName (temporaryName s) where
  isName := ⟨temporaryName_ne (by decide) s, temporaryName_ne (by decide) s,
    temporaryName_ne (by decide) s⟩
  no_slash := not_mem_temporaryName (c := '/') (by decide) (by decide) (by decide) (by decide) s
  no_nul := not_mem_temporaryName (c := '\x00') (by decide) (by decide) (by decide) (by decide) s

theorem temporaryName_ne_fileName (s : Stamp) : temporaryName s ≠ fileName := by
  intro h
  have hbytes := bytes_temporaryName s
  rw [h] at hbytes
  have hnil : Text.encode (temporaryEnd s) = [] := List.self_eq_append_right.mp hbytes
  rw [temporaryEnd, Text.encode_cons_of_lt (by decide)] at hnil
  exact absurd hnil (List.cons_ne_nil _ _)

theorem directory_ne_empty (root : RawText) : directory root ≠ "" := by
  by_cases hroot : root = ""
  · subst hroot
    decide
  · exact join_ne_empty hroot isFileName_directory

/-! ### Loading -/

theorem load_cases (root : RawText) (s : Surface) (t : FileTree) :
    (load root s t).2 = t ∨
      ∃ x t', t.readText (file root) = .ok x ∧ t.removeFile (file root) = .ok t' ∧
        (load root s t).2 = t' := by
  unfold load
  cases hx : t.readText (file root) with
  | error e => exact .inl rfl
  | ok x =>
    dsimp only
    cases parse x with
    | error e => exact .inl rfl
    | ok c =>
      dsimp only
      by_cases hc : c.metadata.isCompatible s = true
      · rw [if_pos hc]
        exact .inl rfl
      · rw [if_neg hc]
        cases hremove : t.removeFile (file root) with
        | error e => exact .inl rfl
        | ok t' => exact .inr ⟨x, t', rfl, rfl, rfl⟩

theorem load_of_not_readText (s : Surface) (h : ∀ x, t.readText (file root) ≠ .ok x) :
    load root s t = (none, t) := by
  unfold load
  cases hread : t.readText (file root) with
  | error e => rfl
  | ok x => exact absurd hread (h x)

theorem readText_load (s : Surface) {path : RawText} (hfile : t.isFile path = true)
    (hother : t.resolve .target path ≠ t.resolve .target (file root)) :
    (load root s t).2.readText path = t.readText path := by
  rcases load_cases root s t with h | ⟨x, t', hx, hremove, h⟩
  · rw [h]
  · rw [h]
    exact readText_removeFile (directory_ne_empty root) isFileName_fileName hremove hx hfile hother

theorem load_eq_of_not_pathExists (hroot : root ≠ "") (s : Surface)
    (h : ¬ (load root s t).2.pathExists (directory root) = true) : (load root s t).2 = t := by
  rcases load_cases root s t with hload | ⟨x, t', hx, hremove, hload⟩
  · exact hload
  · rw [hload] at h
    exact absurd (pathExists_removeFile hroot isFileName_directory isFileName_fileName hremove hx) h

/-! ### Storing -/

/-- How replacing the cache file goes: the temporary file is not written, or only a beginning of it, or
it cannot be moved and is removed, or it is moved. -/
inductive Replaced (root : RawText) (stamp : Stamp) (content : List UInt8) (t : FileTree) :
    Except Error Unit × FileTree → Prop where
  | notWritten (e : Error) : Replaced root stamp content t (.error e, t)
  | cutOff {n : Nat} {t' : FileTree} (hroom : stamp.room = some n)
      (hwrite : t.write (temporaryFile root stamp) (content.take n) = .ok t') :
      Replaced root stamp content t (.error (.io (temporaryFile root stamp) .noSpace), t')
  | notMoved {t' : FileTree} (e : Error)
      (hwrite : t.write (temporaryFile root stamp) content = .ok t') :
      Replaced root stamp content t
        (.error e, (t'.removeFile (temporaryFile root stamp)).toOption.getD t')
  | moved {t' u : FileTree} (hwrite : t.write (temporaryFile root stamp) content = .ok t')
      (hrename : t'.rename (temporaryFile root stamp) (file root) = .ok u) :
      Replaced root stamp content t (.ok (), u)

theorem replaced_replaceFile (root : RawText) (stamp : Stamp) (content : List UInt8)
    (t : FileTree) : Replaced root stamp content t (replaceFile root stamp content t) := by
  have hwritten := written_writeWithin t stamp.room (temporaryFile root stamp) content
  unfold replaceFile
  dsimp only
  generalize t.writeWithin stamp.room (temporaryFile root stamp) content = answer at hwritten
  cases hwritten with
  | none e => exact .notWritten _
  | beginning hroom _ hwrite => exact .cutOff hroom hwrite
  | @whole t' _ hwrite =>
    dsimp only
    cases hrename : t'.rename (temporaryFile root stamp) (file root) with
    | error e => exact .notMoved _ hwrite
    | ok u => exact .moved hwrite hrename

theorem store_of_large {stamp : Stamp} {c : Cache} (h : sizeLimit < (Text.bytes c.text).length) :
    store root stamp c t = (.ok (), (t.removeFile (file root)).toOption.getD t) := by
  unfold store
  dsimp only
  rw [if_pos h]

theorem store_of_small {stamp : Stamp} {c : Cache} (h : ¬ sizeLimit < (Text.bytes c.text).length) :
    store root stamp c t = replaceFile root stamp (Text.bytes c.text) t := by
  unfold store
  dsimp only
  rw [if_neg h]

theorem save_of_pathExists {stamp : Stamp} {c : Cache} (h : t.pathExists (directory root) = true) :
    save root stamp c t = store root stamp c t := by
  unfold save
  rw [if_pos h]

theorem save_of_created {stamp : Stamp} {c : Cache} {t' : FileTree}
    (h : ¬ t.pathExists (directory root) = true)
    (hmade : t.createDirectories (directory root) = (.ok (), t')) :
    save root stamp c t = store root stamp c t' := by
  unfold save
  rw [if_neg h, hmade]

theorem save_steps (root : RawText) (stamp : Stamp) (c : Cache) (t : FileTree) :
    t.pathExists (directory root) = true ∧ save root stamp c t = store root stamp c t ∨
      ¬ t.pathExists (directory root) = true ∧
        ((∃ e, save root stamp c t = (.error e, (t.createDirectories (directory root)).2)) ∨
          save root stamp c t = store root stamp c (t.createDirectories (directory root)).2) := by
  by_cases hexists : t.pathExists (directory root) = true
  · exact .inl ⟨hexists, save_of_pathExists hexists⟩
  · refine .inr ⟨hexists, ?_⟩
    cases hmade : t.createDirectories (directory root) with
    | mk answer t' =>
      cases answer with
      | error e =>
        left
        unfold save
        rw [if_neg hexists, hmade]
        exact ⟨_, rfl⟩
      | ok _ => exact .inr (save_of_created hexists hmade)

theorem readText_getD_removeFile_self {path name : RawText} (hpath : path ≠ "")
    (hname : IsFileName name) :
    ((t.removeFile (Path.join path name)).toOption.getD t).readText (Path.join path name) ≠ .ok x := by
  intro hread
  cases hremove : t.removeFile (Path.join path name) with
  | ok t' =>
    rw [hremove] at hread
    exact readText_removeFile_self hpath hname hremove hread
  | error e =>
    rw [hremove] at hread
    obtain ⟨t', ht'⟩ : ∃ t', t.removeFile (Path.join path name) = .ok t' :=
      exists_removeFile_of_readText hpath hname hread
    rw [ht'] at hremove
    cases hremove

theorem readText_of_store_eq_ok {stamp : Stamp} {c : Cache}
    (hstore : (store root stamp c t).1 = .ok ())
    (hread : (store root stamp c t).2.readText (file root) = .ok x) : x = c.text := by
  have hdirectory := directory_ne_empty root
  by_cases hlarge : sizeLimit < (Text.bytes c.text).length
  · rw [store_of_large hlarge] at hread
    exact absurd hread (readText_getD_removeFile_self hdirectory isFileName_fileName)
  rw [store_of_small hlarge] at hstore hread
  have hreplaced := replaced_replaceFile root stamp (Text.bytes c.text) t
  generalize replaceFile root stamp (Text.bytes c.text) t = answer at hreplaced hstore hread
  cases hreplaced with
  | notWritten e => cases hstore
  | cutOff _ _ => cases hstore
  | notMoved e _ => cases hstore
  | moved hwrite hrename =>
    have hcontent := readText_of_write_rename hdirectory (isFileName_temporaryName stamp)
      isFileName_fileName (temporaryName_ne_fileName stamp) hwrite hrename hread
    rw [Text.ofBytes?_bytes] at hcontent
    exact (Option.some.inj hcontent).symm

theorem readText_of_save_eq_ok {stamp : Stamp} {c : Cache}
    (hsave : (save root stamp c t).1 = .ok ())
    (hread : (save root stamp c t).2.readText (file root) = .ok x) : x = c.text := by
  rcases save_steps root stamp c t with ⟨-, hstore⟩ | ⟨-, ⟨e, hfails⟩ | hstore⟩
  · rw [hstore] at hsave hread
    exact readText_of_store_eq_ok hsave hread
  · rw [hfails] at hsave
    cases hsave
  · rw [hstore] at hsave hread
    exact readText_of_store_eq_ok hsave hread

/-! ### All files -/

theorem filesFrom_load (content : List UInt8) (root : RawText) (s : Surface) (t : FileTree) :
    FilesFrom content t.top.view (load root s t).2.top.view := by
  rcases load_cases root s t with h | ⟨x, t', -, hremove, h⟩
  · rw [h]
    exact .refl content t.top.view
  · rw [h]
    exact filesFrom_removeFile (directory_ne_empty root) isFileName_fileName hremove

theorem filesFrom_getD_removeFile {path name : RawText} (hpath : path ≠ "") (hname : IsFileName name)
    (content : List UInt8) (t : FileTree) :
    FilesFrom content t.top.view
      ((t.removeFile (Path.join path name)).toOption.getD t).top.view := by
  cases hremove : t.removeFile (Path.join path name) with
  | error e => exact .refl content t.top.view
  | ok t' => exact filesFrom_removeFile hpath hname hremove

theorem filesFrom_store (root : RawText) (stamp : Stamp) (c : Cache) (t : FileTree) :
    FilesFrom (Text.bytes c.text) t.top.view (store root stamp c t).2.top.view := by
  have hdirectory := directory_ne_empty root
  have htemporary := isFileName_temporaryName stamp
  by_cases hlarge : sizeLimit < (Text.bytes c.text).length
  · rw [store_of_large hlarge]
    exact filesFrom_getD_removeFile hdirectory isFileName_fileName _ t
  rw [store_of_small hlarge]
  have hreplaced := replaced_replaceFile root stamp (Text.bytes c.text) t
  generalize replaceFile root stamp (Text.bytes c.text) t = answer at hreplaced
  cases hreplaced with
  | notWritten e => exact .refl _ t.top.view
  | @cutOff n t' _ hwrite =>
    exact filesFrom_write hdirectory htemporary hwrite ⟨_, List.take_append_drop n _⟩
  | @notMoved t' e hwrite =>
    exact (filesFrom_write hdirectory htemporary hwrite (List.prefix_refl _)).trans
      (filesFrom_getD_removeFile hdirectory htemporary _ t')
  | moved hwrite hrename =>
    exact filesFrom_write_rename hdirectory htemporary isFileName_fileName
      (temporaryName_ne_fileName stamp) hwrite hrename

/-- The files after a run are files that were there before, or hold what the run stored, be it to its
end or not. -/
theorem filesFrom_save_load (hdir : t.isDirectory root = true) (s : Surface) (stamp : Stamp)
    (c : Cache) :
    FilesFrom (Text.bytes c.text) t.top.view (save root stamp c (load root s t).2).2.top.view := by
  have hroot := ne_empty_of_isDirectory hdir
  rcases save_steps root stamp c (load root s t).2 with ⟨-, hsave⟩ | ⟨hexists, hsteps⟩
  · rw [hsave]
    exact (filesFrom_load _ root s t).trans (filesFrom_store root stamp c _)
  rw [load_eq_of_not_pathExists hroot s hexists] at hsteps ⊢
  have hcreated : FilesFrom (Text.bytes c.text) t.top.view
      (t.createDirectories (directory root)).2.top.view := by
    rcases createDirectories_cases hroot isFileName_directory (by decide) hdir with
      hsame | ⟨-, d, -, hd, hfree, hnew⟩
    · rw [show (t.createDirectories (directory root)).2 = t from hsame]
      exact .refl _ t.top.view
    · rw [show (t.createDirectories (directory root)).2 = _ from hnew]
      exact filesFrom_put_directory hd hfree
  rcases hsteps with ⟨e, hfails⟩ | hsave
  · rw [hfails]
    exact hcreated
  · rw [hsave]
    exact hcreated.trans (filesFrom_store root stamp c _)

end LogTemplate.Cache
