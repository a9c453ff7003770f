import LogTemplate.Proofs.FileTree.Contents

/-! Replacing a file by way of a new name. Until the new name is moved nothing else in the tree has
changed: if it is removed the tree is what it was, and if it is moved the other name is all that has
changed. -/

namespace LogTemplate

/-! ### Names in use -/

namespace Node

mutual
def names : Node → List RawText
  | directory es => namesOf es
  | _ => []

def namesOf : List (RawText × Node) → List RawText
  | [] => []
  | (name, n) :: rest => name :: (n.names ++ namesOf rest)
end

theorem mem_namesOf {es : List (RawText × Node)} {e : RawText × Node} (he : e ∈ es) :
    e.1 ∈ namesOf es ∧ ∀ name ∈ e.2.names, name ∈ namesOf es := by
  induction es with
  | nil => cases he
  | cons f rest ih =>
    rw [namesOf]
    rcases List.mem_cons.mp he with rfl | he
    · refine ⟨List.mem_cons_self .., fun name hname => ?_⟩
      exact List.mem_cons_of_mem _ (List.mem_append_left _ hname)
    · obtain ⟨hfirst, hbelow⟩ := ih he
      refine ⟨List.mem_cons_of_mem _ (List.mem_append_right _ hfirst), fun name hname => ?_⟩
      exact List.mem_cons_of_mem _ (List.mem_append_right _ (hbelow name hname))

theorem mem_names_of_view {top : Node} {place : List RawText} {name : RawText}
    (h : top.view (place ++ [name]) ≠ none) : name ∈ top.names := by
  induction place generalizing top with
  | nil =>
    cases top with
    | file content => exact absurd rfl h
    | link target => exact absurd rfl h
    | directory es =>
      have htop : (Node.directory es).at? [] = some (.directory es) := rfl
      rw [view_append_singleton htop] at h
      cases hlookup : es.lookup name with
      | none =>
        rw [hlookup] at h
        exact absurd rfl h
      | some child =>
        rw [names]
        exact (mem_namesOf (Entries.mem_of_lookup hlookup)).1
  | cons first place ih =>
    cases top with
    | file content => exact absurd rfl h
    | link target => exact absurd rfl h
    | directory es =>
      unfold view at h
      rw [List.cons_append, at?_directory_cons] at h
      cases hlookup : es.lookup first with
      | none =>
        rw [hlookup] at h
        exact absurd rfl h
      | some child =>
        rw [hlookup] at h
        rw [names]
        exact (mem_namesOf (Entries.mem_of_lookup hlookup)).2 name (ih h)

end Node

namespace FileTree

open Function

variable {t t' u : FileTree} {path name : RawText} {d : List RawText}

/-! ### Directories that a path leads to -/

/-- A path leads to a directory. A slash behind its names changes nothing. -/
structure LeadsTo (t : FileTree) (path : RawText) (d : List RawText) : Prop where
  allowed : Allowed path
  run : ∃ k, k ≤ maxLinks ∧ Run t.top.view (t.base path, names path) k (d, [])
  directory : t.top.view d = some .directory

theorem LeadsTo.unique {d' : List RawText} (h : t.LeadsTo path d) (h' : t.LeadsTo path d') :
    d = d' := by
  obtain ⟨k, -, hrun⟩ := h.run
  obtain ⟨k', -, hrun'⟩ := h'.run
  exact (hrun.unique hrun').1

theorem LeadsTo.resolve (h : t.LeadsTo path d) : t.resolve .target path = .ok (.taken d) := by
  obtain ⟨k, hk, hrun⟩ := h.run
  exact resolve_of_run h.allowed (hrun.steps_of_names h.directory) hk

theorem LeadsTo.isDirectory (h : t.LeadsTo path d) : t.isDirectory path = true :=
  isDirectory_iff.mpr ⟨d, h.resolve, h.directory⟩

theorem exists_leadsTo_of_isDirectory (h : t.isDirectory path = true) : ∃ d, t.LeadsTo path d := by
  obtain ⟨place, hr, -⟩ := isDirectory_iff.mp h
  obtain ⟨k, d, hk, hrun, hd⟩ := exists_run_of_isDirectory h
  exact ⟨d, allowed_of_resolveSteps hr, ⟨k, hk, hrun⟩, hd⟩

theorem LeadsTo.mono (h : t.LeadsTo path d) (hshows : Shows t.top.view t'.top.view)
    (hwork : t'.workingDirectory = t.workingDirectory) : t'.LeadsTo path d := by
  obtain ⟨k, hk, hrun⟩ := h.run
  refine ⟨h.allowed, ⟨k, hk, ?_⟩, ?_⟩
  · rw [base_congr hwork]
    exact hrun.mono hshows
  · rcases hshows d _ h.directory with hd | ⟨c, c', hc, -⟩
    · exact hd
    · cases hc

section

variable {r : List RawText} (hpath : path ≠ "") (hname : IsFileName name) (hr : t.LeadsTo path r)
  (h : t.resolve .target (Path.join path name) = .ok (.taken d))

include hpath hname hr h

theorem LeadsTo.exists_run_last : ∃ k, Run t.top.view (r, [name]) k (d, []) := by
  obtain ⟨r', k, k', -, hto, hfrom⟩ := exists_runs_of_resolve_target hpath hname h
  obtain ⟨k₀, -, hto'⟩ := hr.run
  obtain ⟨rfl, -⟩ := hto.unique hto'
  exact ⟨k', hfrom⟩

theorem LeadsTo.view_last_ne_none : t.top.view (r ++ [name]) ≠ none := by
  obtain ⟨k, hrun⟩ := hr.exists_run_last hpath hname h
  cases hrun with
  | step hstep _ => exact (of_next?_name hname.isName hstep).2.2

theorem LeadsTo.eq_append (hchild : t.top.view (r ++ [name]) = some .directory) :
    d = r ++ [name] := by
  obtain ⟨k, hrun⟩ := hr.exists_run_last hpath hname h
  cases hrun with
  | step hstep hrest =>
    obtain ⟨hplace, hsize, -⟩ := of_next?_name hname.isName hstep
    rw [next?_of_directory hplace hname.isName hsize hchild] at hstep
    cases hstep
    exact (hrest.unique (.done _)).1

end

/-- Two trees of which one has something else, or nothing, at one place. -/
structure Updated (t : FileTree) (place : List RawText) (l : Option Label) (t' : FileTree) : Prop where
  view : t'.top.view = update t.top.view place l
  workingDirectory : t'.workingDirectory = t.workingDirectory

theorem Updated.trans {place : List RawText} {l l' : Option Label}
    (h : t.Updated place l t') (h' : t'.Updated place l' u) : t.Updated place l' u where
  view := by rw [h'.view, h.view, update_idem]
  workingDirectory := h'.workingDirectory.trans h.workingDirectory

theorem allowed_of_write {content : List UInt8} (h : t.write path content = .ok t') :
    Allowed path := by
  obtain ⟨place, hplace, -⟩ := write_eq_ok_iff.mp h
  cases hplace with
  | free hr => exact allowed_of_resolveSteps hr
  | taken hr _ => exact allowed_of_resolveSteps hr

theorem allowed_of_rename {source target : RawText} (h : t.rename source target = .ok t') :
    Allowed target := by
  obtain ⟨old, n, place, -, -, hmoves, -⟩ := rename_eq_ok_iff.mp h
  cases hmoves with
  | free hr => exact allowed_of_resolveSteps hr
  | taken hr _ => exact allowed_of_resolveSteps hr

theorem allowed_of_removeFile (h : t.removeFile path = .ok t') : Allowed path := by
  obtain ⟨place, hr, -, -⟩ := removeFile_eq_ok_iff.mp h
  exact allowed_of_resolveSteps hr

theorem exists_updated_of_removeFile (hpath : path ≠ "") (hname : IsFileName name)
    (h : t.removeFile (Path.join path name) = .ok t') :
    ∃ d, t.LeadsTo path d ∧ t.top.view (d ++ [name]) ≠ some .directory ∧
      t.Updated (d ++ [name]) none t' := by
  obtain ⟨k, d, hk, hrun, hd, hold, hview, hwork⟩ := exists_of_removeFile hpath hname h
  have hallowed := allowed_of_join hpath hname (allowed_of_removeFile h)
  exact ⟨d, ⟨hallowed, ⟨k, hk, hrun⟩, hd⟩, hold, hview, hwork⟩

theorem exists_leadsTo_of_pathExists (hpath : path ≠ "") (hname : IsFileName name)
    (h : t.pathExists (Path.join path name) = true) : ∃ d, t.LeadsTo path d := by
  obtain ⟨q, hr⟩ := exists_resolve_of_pathExists h
  obtain ⟨d, k, k', hk, hto, hfrom⟩ := exists_runs_of_resolve_target hpath hname hr
  have hallowed := allowed_of_join hpath hname (allowed_of_resolveSteps hr)
  exact ⟨d, hallowed, ⟨k, Nat.le_trans (Nat.le_add_right k k') hk, hto⟩, hfrom.directory_of_cons⟩

theorem Updated.leadsTo_of_file {place q : List RawText} {content : List UInt8}
    (h : t.Updated (place ++ [name]) (some (.file content)) t') (hq : t'.LeadsTo path q) :
    t.LeadsTo path q := by
  obtain ⟨k, hk, hrun⟩ := hq.run
  have hdirectory := hq.directory
  have hne : q ≠ place ++ [name] := by
    rintro rfl
    rw [h.view, update_self] at hdirectory
    cases hdirectory
  rw [base_congr h.workingDirectory, h.view] at hrun
  rw [h.view, update_of_ne hne] at hdirectory
  exact ⟨hq.allowed, ⟨k, hk, hrun.of_written.resolve_left hne⟩, hdirectory⟩

theorem LeadsTo.readText {content : List UInt8} {x : String} (h : t.LeadsTo path d)
    (hpath : path ≠ "") (hname : IsFileName name) (hsize : name.size ≤ maxNameSize)
    (hallowed : Allowed (Path.join path name)) (hfile : t.top.view (d ++ [name]) = some (.file content))
    (htext : Text.ofBytes? content = some x) : t.readText (Path.join path name) = .ok x := by
  obtain ⟨k, hk, hrun⟩ := h.run
  have hlast : next? t.top.view (d, [name]) = some (0, d ++ [name], []) :=
    next?_of_file h.directory hname.isName hsize hfile
  have hleads : Run t.top.view (t.base (Path.join path name), steps (Path.join path name)) k
      (d ++ [name], []) := by
    rw [base_join hpath hname, steps_join hpath hname]
    exact (hrun.append [name]).trans (.step hlast (.done _))
  exact readText_eq_ok_iff.mpr ⟨_, content, resolve_of_run hallowed hleads hk, hfile, htext⟩

/-! ### New names -/

/-- No file and no link has the name. -/
def Unused (name : RawText) (v : View) : Prop :=
  ∀ place l, v (place ++ [name]) = some l → l = .directory

theorem Unused.update {v : View} {other : RawText} {l : Option Label} (h : Unused name v)
    (hl : other = name → l = none ∨ l = some .directory) :
    Unused name (update v (d ++ [other]) l) := by
  intro place m hm
  by_cases heq : place ++ [name] = d ++ [other]
  · obtain ⟨rfl, hlast⟩ := List.append_inj' heq rfl
    cases hlast
    rw [update_self] at hm
    rcases hl rfl with rfl | rfl
    · cases hm
    · cases hm
      rfl
  · rw [update_of_ne heq] at hm
    exact h place m hm

theorem unused_of_not_mem_names {top : Node} (h : name ∉ top.names) : Unused name top.view := by
  intro place l hl
  have hthere : top.view (place ++ [name]) ≠ none := by
    rw [hl]
    nofun
  exact absurd (Node.mem_names_of_view hthere) h

theorem exists_of_write_unused {content : List UInt8} (hpath : path ≠ "") (hname : IsFileName name)
    (hnew : Unused name t.top.view) (h : t.write (Path.join path name) content = .ok t') :
    ∃ d, t.LeadsTo path d ∧ t.top.view (d ++ [name]) = none ∧ name.size ≤ maxNameSize ∧
      t' = t.put (d ++ [name]) (.file content) ∧
      t'.top.view = update t.top.view (d ++ [name]) (some (.file content)) := by
  obtain ⟨place, k, hk, -, hold, hput, hview, -, hrun⟩ := exists_of_write hpath hname h
  obtain ⟨d, k₁, k₂, hto, hfrom, rfl⟩ := hrun.split
  cases hfrom with
  | step hstep hlead =>
  obtain ⟨hd, hsize, hsome⟩ := of_next?_name hname.isName hstep
  have hplace : place = d ++ [name] := by
    by_contra hne
    -- then the name was there before, as a directory, and the walk would end at it
    have hbefore : t'.top.view (d ++ [name]) = t.top.view (d ++ [name]) := by
      rw [hview, update_of_ne (Ne.symm hne)]
    obtain ⟨l, hl⟩ := Option.ne_none_iff_exists'.mp hsome
    have hdirectory : t'.top.view (d ++ [name]) = some .directory := by
      rw [hl, hnew d l (hbefore.symm.trans hl)]
    rw [next?_of_directory hd hname.isName hsize hdirectory] at hstep
    cases hstep
    exact hne (hlead.unique (.done _)).1
  subst hplace
  have hfree : t.top.view (d ++ [name]) = none := by
    by_contra hthere
    obtain ⟨l, hl⟩ := Option.ne_none_iff_exists'.mp hthere
    exact hold (hl.trans (congrArg some (hnew d l hl)))
  have hne : d ≠ d ++ [name] := by simp
  rw [hview] at hto hd
  rw [update_of_ne hne] at hd
  have hto' := hto.of_written.resolve_left hne
  have hallowed := allowed_of_join hpath hname (allowed_of_write h)
  have hk₁ := Nat.le_trans (Nat.le_add_right k₁ _) hk
  exact ⟨d, ⟨hallowed, ⟨k₁, hk₁, hto'⟩, hd⟩, hfree, hsize, hput, hview⟩

theorem take_put (hd : t.top.view d = some .directory) (hfree : t.top.view (d ++ [name]) = none)
    (n : Node) : (t.put (d ++ [name]) n).take (d ++ [name]) = t := by
  show FileTree.mk (Node.erase (d ++ [name]) (Node.set n (d ++ [name]) t.top)) t.workingDirectory = t
  rw [Node.erase_set hd hfree]

theorem removeFile_of_write_unused {content : List UInt8} (hpath : path ≠ "")
    (hname : IsFileName name) (hnew : Unused name t.top.view)
    (h : t.write (Path.join path name) content = .ok t') :
    t'.removeFile (Path.join path name) = .ok t := by
  obtain ⟨d, hleads, hfree, hsize, hput, hview⟩ := exists_of_write_unused hpath hname hnew h
  have hshows : Shows t.top.view t'.top.view := by
    rw [hview]
    exact shows_update_file content (.inl hfree)
  have hleads' : t'.LeadsTo path d := hleads.mono hshows (by rw [hput]; rfl)
  have hfile : t'.top.view (d ++ [name]) = some (.file content) := by rw [hview, update_self]
  obtain ⟨k, hk, hrun⟩ := hleads'.run
  obtain ⟨spot, hwalk, -, hentry⟩ :=
    walk_entry_of_run hrun hk hleads'.directory hname.isName hsize
  have hspot : spot = .taken (d ++ [name]) := by
    rcases hentry with ⟨hnone, -⟩ | ⟨-, hspot⟩
    · rw [hfile] at hnone
      cases hnone
    · exact hspot
  have hresolve : t'.resolve .entry (Path.join path name) = .ok (.taken (d ++ [name])) := by
    rw [resolve_of_allowed (allowed_of_write h), base_join hpath hname, steps_join hpath hname,
      hwalk, hspot]
  have htake : t'.take (d ++ [name]) = t := by rw [hput, take_put hleads.directory hfree]
  have hnot : t'.top.view (d ++ [name]) ≠ some .directory := by
    rw [hfile]
    nofun
  exact removeFile_eq_ok_iff.mpr ⟨d ++ [name], hresolve, hnot, htake.symm⟩

theorem exists_of_write_unused_rename {content : List UInt8} {source target : RawText}
    (hpath : path ≠ "") (hsource : IsFileName source) (htarget : IsFileName target)
    (hne : source ≠ target) (hnew : Unused source t.top.view)
    (hwrite : t.write (Path.join path source) content = .ok t')
    (hrename : t'.rename (Path.join path source) (Path.join path target) = .ok u) :
    ∃ d, t.LeadsTo path d ∧ t.top.view (d ++ [target]) ≠ some .directory ∧
      t.Updated (d ++ [target]) (some (.file content)) u := by
  obtain ⟨d, hleads, hfree, -, hput, hview⟩ := exists_of_write_unused hpath hsource hnew hwrite
  obtain ⟨k', d', l, hrun', -, hl, hold, hwork, hmoved⟩ :=
    exists_of_rename hpath hsource htarget hne hrename
  have hwork' : t'.workingDirectory = t.workingDirectory := by
    rw [hput]
    rfl
  have hshows : Shows t.top.view t'.top.view := by
    rw [hview]
    exact shows_update_file content (.inl hfree)
  obtain ⟨k, -, hrun⟩ := (hleads.mono hshows hwork').run
  obtain ⟨rfl, -⟩ := hrun.unique hrun'
  have hplaces : d ++ [target] ≠ d ++ [source] := by simpa using Ne.symm hne
  have hfile : l = .file content := by
    rw [hview, update_self] at hl
    exact (Option.some.inj hl).symm
  subst hfile
  refine ⟨d, hleads, ?_, ?_, hwork.trans hwork'⟩
  · rw [hview, update_of_ne hplaces] at hold
    exact hold
  · have hsame : update t.top.view (d ++ [target]) (some (.file content)) (d ++ [source]) = none := by
      rw [update_of_ne (Ne.symm hplaces), hfree]
    rw [hmoved nofun, hview, update_comm (Ne.symm hplaces), update_idem, ← hsame, update_eq_self]

/-! ### New directories -/

section

variable {top : Node} {access : Access} {x : RawText}

theorem free_of_walkTo {jump : RawText → List RawText → List RawText → Except IoError Spot}
    (hjump : ∀ target place rest, jump target place rest = .ok (.free d x) →
      top.view d = some .directory ∧ top.view (d ++ [x]) = none) {place ss : List RawText}
    (h : walkTo top access jump place ss = .ok (.free d x)) :
    top.view d = some .directory ∧ top.view (d ++ [x]) = none := by
  induction ss generalizing place with
  | nil => cases h
  | cons step rest ih =>
    rcases next?_of_walkTo h with ⟨place', -, hrest⟩ | ⟨target, -, -, hrest⟩ |
      ⟨-, hplace, hfree, -, -, hspot⟩ | ⟨-, -, -, -, hspot⟩
    · exact ih hrest
    · exact hjump target place rest hrest
    · cases hspot
      exact ⟨hplace, hfree⟩
    · cases hspot

theorem free_of_walk {links : Nat} {place ss : List RawText}
    (h : walk top access links place ss = .ok (.free d x)) :
    top.view d = some .directory ∧ top.view (d ++ [x]) = none := by
  induction links generalizing place ss with
  | zero =>
    refine free_of_walkTo ?_ h
    intro target place rest hjump
    cases hjump
  | succ links ih =>
    refine free_of_walkTo ?_ h
    intro target place rest hjump
    exact ih hjump

end

theorem updated_put_directory (hd : t.top.view d = some .directory)
    (hfree : t.top.view (d ++ [name]) = none) :
    t.Updated (d ++ [name]) (some .directory) (t.put (d ++ [name]) (.directory [])) := by
  have hold : t.top.view (d ++ [name]) ≠ some .directory := by
    rw [hfree]
    nofun
  exact ⟨Node.view_set hd Node.isLeaf_empty hold, rfl⟩

theorem exists_updated_of_createDirectory (h : t.createDirectory path = .ok t') :
    ∃ d x, t.Updated (d ++ [x]) (some .directory) t' := by
  unfold createDirectory at h
  cases hr : t.resolveSteps .entry path (names path) with
  | error e =>
    rw [hr] at h
    cases h
  | ok spot =>
    rw [hr] at h
    cases spot with
    | taken place => cases h
    | free d x =>
      cases h
      rw [resolveSteps_of_allowed (allowed_of_resolveSteps hr)] at hr
      obtain ⟨hd, hfree⟩ := free_of_walk hr
      exact ⟨d, x, updated_put_directory hd hfree⟩

theorem unused_ensureDirectory (hnew : Unused name t.top.view)
    (h : t.ensureDirectory path = .ok t') : Unused name t'.top.view := by
  unfold ensureDirectory at h
  split at h
  · split at h
    · cases h
      exact hnew
    · cases h
  · obtain ⟨d, x, hupdated⟩ := exists_updated_of_createDirectory h
    rw [hupdated.view]
    exact hnew.update fun _ => .inr rfl

theorem unused_ensureFirst (hnew : Unused name t.top.view) (paths : List RawText) :
    Unused name (t.ensureFirst paths).2.top.view := by
  induction paths generalizing t with
  | nil => exact hnew
  | cons path above ih =>
    rw [ensureFirst]
    split
    · next hok => exact unused_ensureDirectory hnew hok
    · have habove := ih hnew
      split
      · next hfails => rwa [hfails] at habove
      · next hmade =>
        rw [hmade] at habove
        split
        · next hok => exact unused_ensureDirectory habove hok
        · exact habove
    · exact hnew

theorem unused_createDirectories (hnew : Unused name t.top.view) (path : RawText) :
    Unused name (t.createDirectories path).2.top.view := by
  unfold createDirectories
  split
  · exact hnew
  · exact unused_ensureFirst hnew _

end FileTree

end LogTemplate
