import LogTemplate.Proofs.FileTree.Effects

/-! What a path reads after a file was removed, or written and moved. The path read may be any other,
and links may lead from one to the other. -/

namespace LogTemplate.FileTree

open Function

section

variable {v : View} {d : List RawText} {name : RawText}

theorem eq_of_update_none {place other : List RawText} {l : Label}
    (h : update v place none other = some l) : v other = some l := by
  by_cases heq : other = place
  · subst heq
    rw [update_self] at h
    cases h
  · rwa [update_of_ne heq] at h

/-- Every file of the second view is one of the first, or holds the content or a beginning of it. -/
def FilesFrom (content : List UInt8) (v v' : View) : Prop :=
  ∀ place c, v' place = some (.file c) → c <+: content ∨ v place = some (.file c)

section

variable {content : List UInt8}

theorem FilesFrom.refl (content : List UInt8) (v : View) : FilesFrom content v v :=
  fun _ _ hc => .inr hc

theorem FilesFrom.trans {v v' v'' : View} (h : FilesFrom content v v')
    (h' : FilesFrom content v' v'') : FilesFrom content v v'' :=
  fun place c hc => (h' place c hc).elim .inl (h place c)

theorem filesFrom_update {l : Option Label} (hl : ∀ c, l = some (.file c) → c <+: content) (v : View)
    (place : List RawText) : FilesFrom content v (update v place l) := by
  intro other c hc
  by_cases heq : other = place
  · rw [heq, update_self] at hc
    exact .inl (hl c hc)
  · rw [update_of_ne heq] at hc
    exact .inr hc

end

theorem shows_of_update_none (v : View) (place : List RawText) : Shows (update v place none) v :=
  fun _ _ hl => .inl (eq_of_update_none hl)

theorem Run.of_removed {q q₀ : List RawText} {s : Stage} {k k₀ : Nat}
    (hold : v (d ++ [name]) ≠ some .directory) (hlead : Run v (d, [name]) k₀ (q₀, []))
    (hq₀ : v q₀ ≠ some .directory) (h : Run v s k (q, [])) (hne : q ≠ q₀) :
    Run (update v (d ++ [name]) none) s k (q, []) := by
  rcases h.updated hold none with h' | ⟨b, k', k'', hlook, -, hfrom, -⟩
  · exact h'
  · -- looking up the file leads to where it leads, and there the walk would end
    obtain ⟨rest, rfl⟩ := hlook.stage
    obtain ⟨n, hrest, -⟩ := hfrom.rest (hlead.append rest)
    rw [List.nil_append] at hrest
    exact absurd (hrest.eq_of_ne_directory hq₀).2.1 hne

theorem Run.of_written {q : List RawText} {s : Stage} {k : Nat} {content : List UInt8}
    (h : Run (update v (d ++ [name]) (some (.file content))) s k (q, [])) :
    q = d ++ [name] ∨ Run v s k (q, []) := by
  have hfile : update v (d ++ [name]) (some (.file content)) (d ++ [name])
      = some (.file content) := update_self ..
  have hold : update v (d ++ [name]) (some (.file content)) (d ++ [name]) ≠ some .directory := by
    rw [hfile]
    nofun
  rcases h.updated hold (v (d ++ [name])) with h' | ⟨b, k', k'', hlook, -, hfrom, -⟩
  · rw [update_idem, update_eq_self] at h'
    exact .inr h'
  · obtain ⟨rest, rfl⟩ := hlook.stage
    have hnext : next? _ (d, name :: rest) = some (0, d ++ [name], rest) :=
      next?_of_file hlook.directory hlook.isName hlook.size_le hfile
    obtain ⟨n, hrest, -⟩ := hfrom.rest (.step hnext (.done _))
    exact .inl (hrest.eq_of_ne_directory hold).2.1

/-- What is moved within a directory is found under the new name: the content that the old name led
to, be it there or behind a link. -/
theorem Run.of_moved {old new : RawText} {l : Label} {content : List UInt8} {p q : List RawText}
    {k n : Nat} (holdname : IsName old) (hnewname : IsName new)
    (hold : v (d ++ [old]) = some l) (hl : l ≠ .directory)
    (hlead : Run v (d, [old]) n (p, [])) (hp : v p = some (.file content))
    (h : Run (update v (d ++ [new]) (some l)) (d, [new]) k (q, [])) :
    update v (d ++ [new]) (some l) q ≠ some .directory ∧
      ∀ c, update v (d ++ [new]) (some l) q = some (.file c) → c = content := by
  have hself : update v (d ++ [new]) (some l) (d ++ [new]) = some l := update_self ..
  cases hlead with
  | @step _ s₁ _ k₁ n₁ hstep hlead =>
  cases h with
  | @step _ s₂ _ k₂ n₂ hstep' h =>
  obtain ⟨hd, hsize, -⟩ := of_next?_name holdname hstep
  obtain ⟨hd', hsize', -⟩ := of_next?_name hnewname hstep'
  cases l with
  | directory => exact absurd rfl hl
  | file c =>
    rw [next?_of_file hd holdname hsize hold] at hstep
    rw [next?_of_file hd' hnewname hsize' hself] at hstep'
    cases hstep
    cases hstep'
    obtain ⟨rfl, -⟩ := hlead.unique (.done _)
    obtain ⟨rfl, -⟩ := h.unique (.done _)
    rw [hold] at hp
    cases hp
    rw [hself]
    refine ⟨nofun, ?_⟩
    intro c hc
    cases hc
    rfl
  | link target =>
    rw [next?_of_link hd holdname hsize hold] at hstep
    have hnext (rest : List RawText) : next? (update v (d ++ [new]) (some (.link target)))
        (d, new :: rest) = some (1, linkBase target d, steps target ++ rest) :=
      next?_of_link hd' hnewname hsize' hself
    rw [hnext []] at hstep'
    cases hstep
    cases hstep'
    have hnot : update v (d ++ [new]) (some (.link target)) (d ++ [new]) ≠ some .directory := by
      rw [hself]
      nofun
    rcases h.updated hnot (v (d ++ [new])) with h' | ⟨b, j, j', hlook, -, hfrom, hk⟩
    · rw [update_idem, update_eq_self] at h'
      obtain ⟨rfl, -⟩ := h'.unique hlead
      by_cases hq : q = d ++ [new]
      · subst hq
        rw [hself]
        exact ⟨nofun, nofun⟩
      · rw [update_of_ne hq, hp]
        refine ⟨nofun, ?_⟩
        intro c hc
        cases hc
        rfl
    · -- the link leads back to itself, and so through more links than it does
      obtain ⟨rest, rfl⟩ := hlook.stage
      obtain ⟨m, hrest, hm⟩ := hfrom.rest (.step (hnext rest) (.done _))
      obtain ⟨q', a, b, hhead, -, hab⟩ := hrest.split
      rw [List.append_nil] at h
      obtain ⟨-, ha⟩ := h.unique hhead
      omega

theorem Run.of_moved_directory {old new : RawText} {l : Label} {content : List UInt8}
    {p q : List RawText} {s : Stage} {k n : Nat} (holdname : IsName old) (hnewname : IsName new)
    (hold : v (d ++ [old]) = some l) (hl : l ≠ .directory)
    (hlead : Run v (d, [old]) n (p, [])) (hp : v p = some (.file content))
    (h : Run (update v (d ++ [new]) (some l)) s k (q, []))
    (hq : update v (d ++ [new]) (some l) q = some .directory) : Run v s k (q, []) := by
  have hnot : update v (d ++ [new]) (some l) (d ++ [new]) ≠ some .directory := by
    rw [update_self]
    exact fun heq => hl (Option.some.inj heq)
  rcases h.updated hnot (v (d ++ [new])) with h' | ⟨b, j, j', hlook, -, hfrom, -⟩
  · rwa [update_idem, update_eq_self] at h'
  · obtain ⟨rest, rfl⟩ := hlook.stage
    have hfrom' : Run (update v (d ++ [new]) (some l)) (d, [new] ++ rest) j' (q, []) := hfrom
    obtain ⟨q', a, b, hhead, htail, -⟩ := hfrom'.split
    have hmoved := (Run.of_moved holdname hnewname hold hl hlead hp hhead).1
    rw [(htail.eq_of_ne_directory hmoved).2.1] at hq
    exact absurd hq hmoved

end

/-! ### Paths -/

variable {t t' : FileTree} {path name other : RawText} {x : String}

theorem base_congr (h : t'.workingDirectory = t.workingDirectory) (path : RawText) :
    t'.base path = t.base path := by
  unfold base
  rw [h]

theorem resolve_removeFile {q₀ q : List RawText} {content : List UInt8} (hpath : path ≠ "")
    (hname : IsFileName name) (h : t.removeFile (Path.join path name) = .ok t')
    (hr₀ : t.resolve .target (Path.join path name) = .ok (.taken q₀))
    (hq₀ : t.top.view q₀ = some (.file content))
    (hr : t.resolve .target other = .ok (.taken q)) (hne : q ≠ q₀)
    (hq : ∀ target, t.top.view q ≠ some (.link target)) :
    t'.resolve .target other = .ok (.taken q) ∧ t'.top.view q = t.top.view q := by
  obtain ⟨_, d, _, hto, hd, hold, hview, hwork⟩ := exists_of_removeFile hpath hname h
  obtain ⟨d', _, n, _, hto', hlead⟩ := exists_runs_of_resolve_target hpath hname hr₀
  obtain ⟨rfl, -⟩ := hto.unique hto'
  obtain ⟨k, hk, hrun⟩ := exists_run_of_resolve_taken hr
  have hfile : t.top.view q₀ ≠ some .directory := by
    rw [hq₀]
    nofun
  constructor
  · refine resolve_of_run (allowed_of_resolveSteps hr) ?_ hk
    rw [base_congr hwork, hview]
    exact Run.of_removed hold hlead hfile hrun hne
  · rw [hview]
    refine update_of_ne ?_ _ _
    rintro rfl
    cases hlead with
    | step hstep hlead =>
    obtain ⟨-, hsize, hthere⟩ := of_next?_name hname.isName hstep
    cases hl : t.top.view (d ++ [name]) with
    | none => exact hthere hl
    | some l =>
      cases l with
      | directory => exact hold hl
      | link target => exact hq target hl
      | file c =>
        rw [next?_of_file hd hname.isName hsize hl] at hstep
        cases hstep
        exact hne (hlead.unique (.done _)).1.symm

theorem readText_removeFile (hpath : path ≠ "") (hname : IsFileName name)
    (h : t.removeFile (Path.join path name) = .ok t')
    (hx : t.readText (Path.join path name) = .ok x) (hfile : t.isFile other = true)
    (hother : t.resolve .target other ≠ t.resolve .target (Path.join path name)) :
    t'.readText other = t.readText other := by
  obtain ⟨q₀, content, hr₀, hq₀, -⟩ := readText_eq_ok_iff.mp hx
  obtain ⟨c, hread⟩ := isFile_iff.mp hfile
  obtain ⟨q, hr, hq⟩ := read_eq_ok_iff.mp hread
  have hne : q ≠ q₀ := by
    rintro rfl
    exact hother (hr.trans hr₀.symm)
  obtain ⟨hr', hq'⟩ := resolve_removeFile hpath hname h hr₀ hq₀ hr hne (by rw [hq]; nofun)
  rw [hq] at hq'
  have hread' : t'.read other = .ok c := read_eq_ok_iff.mpr ⟨q, hr', hq'⟩
  unfold readText
  rw [hread, hread']

theorem pathExists_removeFile {directory : RawText} (hpath : path ≠ "")
    (hdirectory : IsFileName directory) (hname : IsFileName name)
    (h : t.removeFile (Path.join (Path.join path directory) name) = .ok t')
    (hx : t.readText (Path.join (Path.join path directory) name) = .ok x) :
    t'.pathExists (Path.join path directory) = true := by
  have hjoin := join_ne_empty hpath hdirectory
  obtain ⟨q₀, content, hr₀, hq₀, -⟩ := readText_eq_ok_iff.mp hx
  obtain ⟨d, k, k', hk, hto, hfrom⟩ := exists_runs_of_resolve_target hjoin hname hr₀
  have hd := hfrom.directory_of_cons
  have hne : d ≠ q₀ := by
    rintro rfl
    rw [hd] at hq₀
    cases hq₀
  have hallowed : Allowed (Path.join path directory) :=
    allowed_of_join hjoin hname (allowed_of_resolveSteps hr₀)
  rw [base_join hpath hdirectory, names_join hpath hdirectory] at hto
  have hr : t.resolve .target (Path.join path directory) = .ok (.taken d) := by
    refine resolve_of_run (k := k) hallowed ?_ (Nat.le_trans (Nat.le_add_right k k') hk)
    rw [base_join hpath hdirectory, steps_join hpath hdirectory]
    exact hto
  obtain ⟨hr', hd'⟩ := resolve_removeFile hjoin hname h hr₀ hq₀ hr hne (by rw [hd]; nofun)
  refine pathExists_of_resolve hr' ?_
  rw [hd', hd]
  nofun

theorem pathExists_of_readText (hx : t.readText other = .ok x) : t.pathExists other = true := by
  obtain ⟨place, content, hr, hview, -⟩ := readText_eq_ok_iff.mp hx
  refine pathExists_of_resolve hr ?_
  rw [hview]
  nofun

theorem exists_resolve_of_pathExists (h : t.pathExists other = true) :
    ∃ place, t.resolve .target other = .ok (.taken place) := by
  unfold pathExists at h
  cases hnode : t.node? .target other with
  | error e =>
    rw [hnode] at h
    cases h
  | ok n =>
    obtain ⟨place, hr, -⟩ := node?_eq_ok_iff.mp hnode
    exact ⟨place, hr⟩

theorem not_pathExists_removeFile_self (hpath : path ≠ "") (hname : IsFileName name)
    (h : t.removeFile (Path.join path name) = .ok t') :
    ¬ t'.pathExists (Path.join path name) = true := by
  intro hexists
  obtain ⟨_, d, -, hto, -, -, hview, hwork⟩ := exists_of_removeFile hpath hname h
  obtain ⟨q, hr⟩ := exists_resolve_of_pathExists hexists
  obtain ⟨d', k, k', -, hto', hfrom⟩ := exists_runs_of_resolve_target hpath hname hr
  rw [base_congr hwork, hview] at hto'
  rw [hview] at hfrom
  have hshows := shows_of_update_none t.top.view (d ++ [name])
  obtain ⟨rfl, -⟩ := hto.unique (hto'.mono hshows)
  cases hfrom with
  | step hstep _ =>
    rw [next?_of_none hname.isName (update_self ..)] at hstep
    cases hstep

theorem readText_removeFile_self (hpath : path ≠ "") (hname : IsFileName name)
    (h : t.removeFile (Path.join path name) = .ok t') : t'.readText (Path.join path name) ≠ .ok x :=
  fun hx => not_pathExists_removeFile_self hpath hname h (pathExists_of_readText hx)

theorem exists_removeFile_of_readText (hpath : path ≠ "") (hname : IsFileName name)
    (hx : t.readText (Path.join path name) = .ok x) :
    ∃ t', t.removeFile (Path.join path name) = .ok t' := by
  obtain ⟨q, content, hr, hq, -⟩ := readText_eq_ok_iff.mp hx
  obtain ⟨d, k, k', hk, hto, hfrom⟩ := exists_runs_of_resolve_target hpath hname hr
  have hd := hfrom.directory_of_cons
  cases hfrom with
  | step hstep hrest =>
    obtain ⟨-, hsize, hsome⟩ := of_next?_name hname.isName hstep
    have hnot : t.top.view (d ++ [name]) ≠ some .directory := by
      intro hdirectory
      rw [next?_of_directory hd hname.isName hsize hdirectory] at hstep
      cases hstep
      cases hrest with
      | done =>
        rw [hdirectory] at hq
        cases hq
      | step hnext _ => cases hnext
    obtain ⟨spot, hwalk, -, hentry⟩ := walk_entry_of_run hto
      (Nat.le_trans (Nat.le_add_right ..) hk) hd hname.isName hsize
    have hspot : spot = .taken (d ++ [name]) :=
      (hentry.resolve_left fun hfree => hsome hfree.1).2
    have hresolve : t.resolve .entry (Path.join path name) = .ok (.taken (d ++ [name])) := by
      rw [resolve_of_allowed (allowed_of_resolveSteps hr), base_join hpath hname,
        steps_join hpath hname, hwalk, hspot]
    exact ⟨t.take (d ++ [name]), removeFile_eq_ok_iff.mpr ⟨d ++ [name], hresolve, hnot, rfl⟩⟩

theorem exists_of_write_rename {content : List UInt8} {source target : RawText} {u : FileTree}
    (hpath : path ≠ "") (hsource : IsFileName source) (htarget : IsFileName target)
    (hne : source ≠ target) (hwrite : t.write (Path.join path source) content = .ok t')
    (hrename : t'.rename (Path.join path source) (Path.join path target) = .ok u) :
    ∃ d k l p n, Run t'.top.view (t.base path, names path) k (d, []) ∧
      t'.top.view (d ++ [source]) = some l ∧ l ≠ .directory ∧ (∀ c, l = .file c → c = content) ∧
      Run t'.top.view (d, [source]) n (p, []) ∧ t'.top.view p = some (.file content) ∧
      u.workingDirectory = t.workingDirectory ∧
      u.top.view = update (update t'.top.view (d ++ [target]) (some l)) (d ++ [source]) none := by
  obtain ⟨p, n, -, -, -, hput, hview, -, hlead⟩ := exists_of_write hpath hsource hwrite
  have hwork : t'.workingDirectory = t.workingDirectory := by
    rw [hput]
    rfl
  obtain ⟨k, d, l, hto, hd, hl, -, hwork', hmoved⟩ :=
    exists_of_rename hpath hsource htarget hne hrename
  obtain ⟨d', _, n', hto', hlead', -⟩ := hlead.split
  rw [base_congr hwork] at hto
  obtain ⟨rfl, -⟩ := hto.unique hto'
  have hp : t'.top.view p = some (.file content) := by rw [hview, update_self]
  -- unless it is a link the name that was written to is where the content is
  have hthere (hlink : ∀ text, l ≠ .link text) : l = .file content := by
    cases hlead' with
    | step hstep hlead' =>
    obtain ⟨-, hsize, -⟩ := of_next?_name hsource.isName hstep
    have hnext : next? t'.top.view (d, [source]) = some (0, d ++ [source], []) := by
      cases l with
      | link text => exact absurd rfl (hlink text)
      | file c => exact next?_of_file hd hsource.isName hsize hl
      | directory => exact next?_of_directory hd hsource.isName hsize hl
    rw [hnext] at hstep
    cases hstep
    obtain ⟨rfl, -⟩ := hlead'.unique (.done _)
    rw [hl] at hp
    exact Option.some.inj hp
  have hnot : l ≠ .directory := by
    rintro rfl
    cases hthere nofun
  have hcontent : ∀ c, l = .file c → c = content := by
    rintro c rfl
    exact Label.file.inj (hthere nofun)
  exact ⟨d, k, l, p, n', hto, hl, hnot, hcontent, hlead', hp, hwork'.trans hwork,
    hmoved hnot⟩

theorem readText_of_write_rename {content : List UInt8} {source target : RawText} {u : FileTree}
    (hpath : path ≠ "") (hsource : IsFileName source) (htarget : IsFileName target)
    (hne : source ≠ target) (hwrite : t.write (Path.join path source) content = .ok t')
    (hrename : t'.rename (Path.join path source) (Path.join path target) = .ok u)
    (hx : u.readText (Path.join path target) = .ok x) : Text.ofBytes? content = some x := by
  obtain ⟨d, k, l, p, n, hto, hl, hnot, -, hlead, hp, hwork, hview⟩ :=
    exists_of_write_rename hpath hsource htarget hne hwrite hrename
  obtain ⟨q, c, hr, hq, htext⟩ := readText_eq_ok_iff.mp hx
  obtain ⟨d', k', k'', -, hto', hfrom⟩ := exists_runs_of_resolve_target hpath htarget hr
  -- what is seen after the old name is gone is seen while it is still there
  have hshows := shows_of_update_none
    (update t'.top.view (d ++ [target]) (some l)) (d ++ [source])
  rw [base_congr hwork, hview] at hto'
  rw [hview] at hfrom hq
  have hto' := hto'.mono hshows
  have hfrom := hfrom.mono hshows
  have hsame := Run.of_moved_directory hsource.isName htarget.isName hl hnot hlead hp hto'
    hfrom.directory_of_cons
  obtain ⟨rfl, -⟩ := hto.unique hsame
  have hmoved := (Run.of_moved hsource.isName htarget.isName hl hnot hlead hp hfrom).2 c
  rw [← hmoved (eq_of_update_none hq)]
  exact htext

/-! ### All files -/

section

variable {content : List UInt8}

theorem filesFrom_removeFile (hpath : path ≠ "") (hname : IsFileName name)
    (h : t.removeFile (Path.join path name) = .ok t') : FilesFrom content t.top.view t'.top.view := by
  obtain ⟨-, d, -, -, -, -, hview, -⟩ := exists_of_removeFile hpath hname h
  rw [hview]
  exact filesFrom_update (l := none) nofun t.top.view (d ++ [name])

theorem filesFrom_write {written : List UInt8} (hpath : path ≠ "") (hname : IsFileName name)
    (h : t.write (Path.join path name) written = .ok t') (hwritten : written <+: content) :
    FilesFrom content t.top.view t'.top.view := by
  obtain ⟨place, -, -, -, -, -, hview, -, -⟩ := exists_of_write hpath hname h
  rw [hview]
  refine filesFrom_update ?_ t.top.view place
  intro c hc
  cases hc
  exact hwritten

theorem filesFrom_write_rename {source target : RawText} {u : FileTree} (hpath : path ≠ "")
    (hsource : IsFileName source) (htarget : IsFileName target) (hne : source ≠ target)
    (hwrite : t.write (Path.join path source) content = .ok t')
    (hrename : t'.rename (Path.join path source) (Path.join path target) = .ok u) :
    FilesFrom content t.top.view u.top.view := by
  obtain ⟨d, -, l, -, -, -, -, -, hcontent, -, -, -, hview⟩ :=
    exists_of_write_rename hpath hsource htarget hne hwrite hrename
  refine (filesFrom_write hpath hsource hwrite (List.prefix_refl content)).trans ?_
  rw [hview]
  refine (filesFrom_update ?_ t'.top.view (d ++ [target])).trans
    (filesFrom_update (l := none) nofun _ (d ++ [source]))
  intro c hc
  obtain rfl := hcontent c (Option.some.inj hc)
  exact List.prefix_refl c

theorem filesFrom_put_directory {d : List RawText} (hd : t.top.view d = some .directory)
    (hfree : t.top.view (d ++ [name]) = none) :
    FilesFrom content t.top.view (t.put (d ++ [name]) (.directory [])).top.view := by
  have hview : (t.put (d ++ [name]) (.directory [])).top.view
      = update t.top.view (d ++ [name]) (some .directory) :=
    Node.view_set hd Node.isLeaf_empty (by rw [hfree]; nofun)
  rw [hview]
  exact filesFrom_update (l := some .directory) nofun t.top.view (d ++ [name])

end

end LogTemplate.FileTree
