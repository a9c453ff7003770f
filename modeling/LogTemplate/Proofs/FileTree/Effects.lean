import LogTemplate.FileTree.Directory
import LogTemplate.Proofs.FileTree.Paths

/-! What reading a path finds, and what the operations on files change: each changes one place of the
view, or two where a file is moved. -/

namespace LogTemplate.FileTree

open Function

variable {t t' : FileTree} {path name : RawText}

/-! ### Reading -/

theorem view_eq_file_iff {top : Node} {place : List RawText} {content : List UInt8} :
    top.view place = some (.file content) ↔ top.at? place = some (.file content) := by
  unfold Node.view
  rw [Option.map_eq_some_iff]
  constructor
  · rintro ⟨n, hn, hlabel⟩
    cases n with
    | directory es => cases hlabel
    | link target => cases hlabel
    | file c =>
      cases hlabel
      exact hn
  · intro h
    exact ⟨_, h, rfl⟩

theorem view_eq_directory_iff {top : Node} {place : List RawText} :
    top.view place = some .directory ↔ ∃ es, top.at? place = some (.directory es) := by
  refine ⟨exists_at?_of_view_directory, ?_⟩
  rintro ⟨es, hes⟩
  unfold Node.view
  rw [hes]
  rfl

theorem node?_eq_ok_iff {access : Access} {n : Node} : t.node? access path = .ok n ↔
    ∃ place, t.resolve access path = .ok (.taken place) ∧ t.top.at? place = some n := by
  unfold node?
  cases t.resolve access path with
  | error e => simp
  | ok spot =>
    cases spot with
    | free d x => simp
    | taken place => cases h : t.top.at? place <;> simp [h]

theorem read_eq_ok_iff {content : List UInt8} : t.read path = .ok content ↔
    ∃ place, t.resolve .target path = .ok (.taken place) ∧
      t.top.view place = some (.file content) := by
  have hnode : t.read path = .ok content ↔ t.node? .target path = .ok (.file content) := by
    unfold read
    cases t.node? .target path with
    | error e => simp
    | ok n => cases n <;> simp
  rw [hnode, node?_eq_ok_iff]
  simp only [view_eq_file_iff]

theorem readText_of_read {content : List UInt8} (h : t.read path = .ok content) {x : String}
    (htext : Text.ofBytes? content = some x) : t.readText path = .ok x := by
  unfold readText
  rw [h]
  dsimp only
  rw [htext]

theorem readText_eq_ok_iff {x : String} : t.readText path = .ok x ↔
    ∃ place content, t.resolve .target path = .ok (.taken place) ∧
      t.top.view place = some (.file content) ∧ Text.ofBytes? content = some x := by
  constructor
  · intro h
    unfold readText at h
    cases hread : t.read path with
    | error e =>
      rw [hread] at h
      cases h
    | ok content =>
      rw [hread] at h
      dsimp only at h
      obtain ⟨place, hr, hview⟩ := read_eq_ok_iff.mp hread
      refine ⟨place, content, hr, hview, ?_⟩
      cases htext : Text.ofBytes? content with
      | none =>
        rw [htext] at h
        cases h
      | some y =>
        rw [htext] at h
        cases h
        rfl
  · rintro ⟨place, content, hr, hview, htext⟩
    exact readText_of_read (read_eq_ok_iff.mpr ⟨place, hr, hview⟩) htext

theorem isDirectory_iff : t.isDirectory path = true ↔
    ∃ place, t.resolve .target path = .ok (.taken place) ∧
      t.top.view place = some .directory := by
  have hnode : t.isDirectory path = true ↔ ∃ es, t.node? .target path = .ok (.directory es) := by
    unfold isDirectory
    cases t.node? .target path with
    | error e => simp
    | ok n => cases n <;> simp
  simp only [hnode, node?_eq_ok_iff, view_eq_directory_iff]
  constructor
  · rintro ⟨es, place, hr, hes⟩
    exact ⟨place, hr, es, hes⟩
  · rintro ⟨place, hr, es, hes⟩
    exact ⟨es, place, hr, hes⟩

theorem isFile_iff : t.isFile path = true ↔ ∃ content, t.read path = .ok content := by
  unfold isFile read
  cases t.node? .target path with
  | error e => simp
  | ok n => cases n <;> simp

theorem pathExists_of_resolve {place : List RawText}
    (hr : t.resolve .target path = .ok (.taken place)) (hview : t.top.view place ≠ none) :
    t.pathExists path = true := by
  unfold pathExists
  obtain ⟨l, hl⟩ := Option.ne_none_iff_exists'.mp hview
  obtain ⟨n, hn, -⟩ := Option.map_eq_some_iff.mp hl
  rw [node?_eq_ok_iff.mpr ⟨place, hr, hn⟩]
  rfl

/-! ### Removing a file -/

theorem removeFile_eq_ok_iff : t.removeFile path = .ok t' ↔
    ∃ place, t.resolve .entry path = .ok (.taken place) ∧
      t.top.view place ≠ some .directory ∧ t' = t.take place := by
  unfold removeFile
  constructor
  · intro h
    cases hr : t.resolve .entry path with
    | error e =>
      rw [hr] at h
      cases h
    | ok spot =>
      rw [hr] at h
      cases spot with
      | free d x => cases h
      | taken place =>
        dsimp only at h
        split at h
        · cases h
        · next hnot =>
          cases h
          exact ⟨place, rfl, fun hview => (exists_at?_of_view_directory hview).elim hnot, rfl⟩
  · rintro ⟨place, hr, hnot, rfl⟩
    rw [hr]
    dsimp only
    split
    · next es hes => exact absurd (view_eq_directory_iff.mpr ⟨es, hes⟩) hnot
    · rfl

theorem exists_of_removeFile (hpath : path ≠ "") (hname : IsFileName name)
    (h : t.removeFile (Path.join path name) = .ok t') :
    ∃ k d, k ≤ maxLinks ∧ Run t.top.view (t.base path, names path) k (d, []) ∧
      t.top.view d = some .directory ∧ t.top.view (d ++ [name]) ≠ some .directory ∧
      t'.top.view = update t.top.view (d ++ [name]) none ∧
      t'.workingDirectory = t.workingDirectory := by
  obtain ⟨place, hr, hnot, rfl⟩ := removeFile_eq_ok_iff.mp h
  obtain ⟨k, d, hk, hrun, hd, hentry⟩ := exists_run_of_resolve_entry hpath hname hr
  rcases hentry with ⟨-, hfree⟩ | ⟨-, htaken⟩
  · cases hfree
  · cases htaken
    exact ⟨k, d, hk, hrun, hd, hnot, Node.view_erase hnot, rfl⟩

/-! ### Writing a file -/

theorem shows_update_file {v : View} {place : List RawText} (content : List UInt8)
    (h : v place = none ∨ ∃ c, v place = some (.file c)) :
    Shows v (update v place (some (.file content))) := by
  intro other l hl
  by_cases heq : other = place
  · subst heq
    rcases h with h | ⟨c, h⟩
    · rw [h] at hl
      cases hl
    · rw [h] at hl
      cases hl
      exact .inr ⟨c, content, rfl, update_self ..⟩
  · left
    rw [update_of_ne heq]
    exact hl

theorem view_put {place : List RawText} {n : Node} (hplace : place ≠ [])
    (habove : t.top.view place.dropLast = some .directory) (hn : n.IsLeaf)
    (hold : t.top.view place ≠ some .directory) :
    (t.put place n).top.view = update t.top.view place (some n.label) := by
  obtain ⟨above, name, rfl⟩ := (List.eq_nil_or_concat' place).resolve_left hplace
  rw [List.dropLast_concat] at habove
  exact Node.view_set habove hn hold

theorem view_put_file {place : List RawText} (hplace : place ≠ [])
    (habove : t.top.view place.dropLast = some .directory)
    (h : t.top.view place = none ∨ ∃ c, t.top.view place = some (.file c)) (content : List UInt8) :
    t.top.view place ≠ some .directory ∧
      (t.put place (.file content)).top.view = update t.top.view place (some (.file content)) ∧
      Shows t.top.view (t.put place (.file content)).top.view := by
  have hold : t.top.view place ≠ some .directory := by
    rcases h with h | ⟨c, h⟩
    · rw [h]
      nofun
    · rw [h]
      nofun
  have hview : (t.put place (.file content)).top.view
      = update t.top.view place (some (.file content)) :=
    view_put hplace habove (Node.isLeaf_of_not_directory nofun) hold
  refine ⟨hold, hview, ?_⟩
  rw [hview]
  exact shows_update_file content h

/-- The place of a file that is written: that of a free name, or of a file that is there already. -/
inductive WritesAt (t : FileTree) (path : RawText) : List RawText → Prop where
  | free {d : List RawText} {x : RawText} (h : t.resolve .output path = .ok (.free d x)) :
      WritesAt t path (d ++ [x])
  | taken {place : List RawText} {c : List UInt8} (h : t.resolve .output path = .ok (.taken place))
      (hfile : t.top.at? place = some (.file c)) : WritesAt t path place

theorem write_eq_ok_iff {content : List UInt8} : t.write path content = .ok t' ↔
    ∃ place, t.WritesAt path place ∧ t' = t.put place (.file content) := by
  unfold write
  constructor
  · intro h
    cases hr : t.resolve .output path with
    | error e =>
      rw [hr] at h
      cases h
    | ok spot =>
      rw [hr] at h
      cases spot with
      | free d x =>
        cases h
        exact ⟨_, .free hr, rfl⟩
      | taken place =>
        dsimp only at h
        split at h
        · next hfile =>
          cases h
          exact ⟨_, .taken hr hfile, rfl⟩
        · cases h
        · cases h
  · rintro ⟨place, hplace, rfl⟩
    cases hplace with
    | free h => rw [h]
    | taken h hfile =>
      rw [h]
      dsimp only
      rw [hfile]

/-- How writing within a limit goes: nothing is written, or the whole, or only a beginning of it. -/
inductive Written (t : FileTree) (room : Option Nat) (path : RawText) (content : List UInt8) :
    Except IoError Unit × FileTree → Prop where
  | none (e : IoError) : Written t room path content (.error e, t)
  | beginning {n : Nat} {t' : FileTree} (hroom : room = some n) (hshort : n < content.length)
      (hwrite : t.write path (content.take n) = .ok t') :
      Written t room path content (.error .noSpace, t')
  | whole {t' : FileTree} (hroom : ∀ n, room = some n → content.length ≤ n)
      (hwrite : t.write path content = .ok t') : Written t room path content (.ok (), t')

theorem written_writeWithin (t : FileTree) (room : Option Nat) (path : RawText)
    (content : List UInt8) : Written t room path content (t.writeWithin room path content) := by
  unfold writeWithin
  cases room with
  | none =>
    rw [Option.elim_none]
    cases hwrite : t.write path content with
    | error e => exact .none e
    | ok t' => exact .whole nofun hwrite
  | some n =>
    rw [Option.elim_some]
    cases hwrite : t.write path (content.take n) with
    | error e => exact .none e
    | ok t' =>
      by_cases hfits : content.length ≤ n
      · rw [List.take_of_length_le hfits] at hwrite
        rw [Option.all_some, decide_eq_true hfits]
        exact .whole (fun m hm => Option.some.inj hm ▸ hfits) hwrite
      · rw [Option.all_some, decide_eq_false hfits]
        exact .beginning rfl (Nat.lt_of_not_le hfits) hwrite

theorem writeWithin_of_fits {room : Option Nat} {content : List UInt8}
    (hroom : ∀ n, room = some n → content.length ≤ n) (h : t.write path content = .ok t') :
    t.writeWithin room path content = (.ok (), t') := by
  unfold writeWithin
  cases room with
  | none =>
    rw [Option.elim_none, h]
    rfl
  | some n =>
    rw [Option.elim_some, List.take_of_length_le (hroom n rfl), h]
    dsimp only
    rw [Option.all_some, decide_eq_true (hroom n rfl)]
    rfl

theorem exists_of_write (hpath : path ≠ "") (hname : IsFileName name) {content : List UInt8}
    (h : t.write (Path.join path name) content = .ok t') :
    ∃ place k, k ≤ maxLinks ∧ place ≠ [] ∧ t.top.view place ≠ some .directory ∧
      t' = t.put place (.file content) ∧
      t'.top.view = update t.top.view place (some (.file content)) ∧
      Shows t.top.view t'.top.view ∧
      Run t'.top.view (t.base path, names path ++ [name]) k (place, []) := by
  obtain ⟨place, hplace, rfl⟩ := write_eq_ok_iff.mp h
  cases hplace with
  | @free d x hr =>
    obtain ⟨k, s, hk, hrun, hend⟩ := exists_run_of_resolve_output hr
    rw [base_join hpath hname, steps_join hpath hname] at hrun
    cases hend with
    | free hd hx hsize hfree =>
      have hne : d ++ [x] ≠ [] := List.append_ne_nil_of_right_ne_nil d (List.cons_ne_nil x [])
      obtain ⟨hold, hview, hshows⟩ :=
        view_put_file hne (by rwa [List.dropLast_concat]) (.inl hfree) content
      have hd' : (t.put (d ++ [x]) (.file content)).top.view d = some .directory := by
        rw [hview, update_of_ne (by simp)]
        exact hd
      have hfile : (t.put (d ++ [x]) (.file content)).top.view (d ++ [x])
          = some (.file content) := by
        rw [hview, update_self]
      refine ⟨d ++ [x], k + (0 + 0), hk, hne, hold, rfl, hview, hshows, ?_⟩
      exact (hrun.mono hshows).trans (.step (next?_of_file hd' hx hsize hfile) (.done _))
  | @taken _ c hr hat =>
    obtain ⟨k, s, hk, hrun, hend⟩ := exists_run_of_resolve_output hr
    rw [base_join hpath hname, steps_join hpath hname] at hrun
    cases hend
    have hfile : t.top.view place = some (.file c) := view_eq_file_iff.mpr hat
    -- the top is a directory, so the file has something above it
    obtain ⟨d, k', k'', -, hfrom, -⟩ := hrun.split
    have hne : place ≠ [] := by
      rintro rfl
      rw [Node.view_top_of_directory hfrom.directory_of_cons] at hfile
      cases hfile
    have habove : t.top.view place.dropLast = some .directory := by
      obtain ⟨above, last, rfl⟩ := (List.eq_nil_or_concat' place).resolve_left hne
      rw [List.dropLast_concat]
      have hlast : t.top.view (above ++ [last]) ≠ none := by
        rw [hfile]
        nofun
      exact Node.view_above hlast
    obtain ⟨hold, hview, hshows⟩ := view_put_file hne habove (.inr ⟨c, hfile⟩) content
    exact ⟨place, k, hk, hne, hold, rfl, hview, hshows, hrun.mono hshows⟩

/-! ### Moving a file -/

theorem view_move {d : List RawText} {source target : RawText} {n : Node} (hne : source ≠ target)
    (hd : t.top.view d = some .directory) (hsource : t.top.at? (d ++ [source]) = some n)
    (htarget : t.top.view (d ++ [target]) ≠ some .directory) (hn : n.label ≠ .directory) :
    ((t.put (d ++ [target]) n).take (d ++ [source])).top.view
      = update (update t.top.view (d ++ [target]) (some n.label)) (d ++ [source]) none := by
  have hput : (t.put (d ++ [target]) n).top.view
      = update t.top.view (d ++ [target]) (some n.label) :=
    Node.view_set hd (Node.isLeaf_of_not_directory hn) htarget
  have hplaces : d ++ [source] ≠ d ++ [target] := by simpa using hne
  have hold : (t.put (d ++ [target]) n).top.view (d ++ [source]) ≠ some .directory := by
    rw [hput, update_of_ne hplaces]
    unfold Node.view
    rw [hsource]
    exact fun h => hn (Option.some.inj h)
  rw [← hput]
  exact Node.view_erase hold

/-- The place that something is moved to: that of a free name, or of what is there already, unless that
is a directory. -/
inductive MovesTo (t : FileTree) (path : RawText) : List RawText → Prop where
  | free {d : List RawText} {x : RawText} (h : t.resolve .entry path = .ok (.free d x)) :
      MovesTo t path (d ++ [x])
  | taken {place : List RawText} (h : t.resolve .entry path = .ok (.taken place))
      (hnot : t.top.view place ≠ some .directory) : MovesTo t path place

theorem rename_eq_ok_iff {source target : RawText} : t.rename source target = .ok t' ↔
    ∃ old n place, t.resolve .entry source = .ok (.taken old) ∧ t.top.at? old = some n ∧
      t.MovesTo target place ∧
      t' = if t.resolve .entry target = .ok (.taken old) then t else (t.put place n).take old := by
  unfold rename
  constructor
  · intro h
    cases hs : t.resolve .entry source with
    | error e =>
      rw [hs] at h
      cases h
    | ok spot =>
      cases ht : t.resolve .entry target with
      | error e =>
        rw [hs, ht] at h
        cases h
      | ok spot' =>
        rw [hs, ht] at h
        cases spot with
        | free d x => cases spot' <;> cases h
        | taken old =>
          cases spot' with
          | free d x =>
            dsimp only at h
            split at h
            · next n hn =>
              cases h
              refine ⟨old, n, d ++ [x], rfl, hn, .free ht, ?_⟩
              rw [if_neg nofun]
            · cases h
          | taken new =>
            dsimp only at h
            split at h
            · cases h
            · cases h
            · next n hn hnot =>
              refine ⟨old, n, new, rfl, hn, .taken ht fun hview => ?_, ?_⟩
              · obtain ⟨es, hes⟩ := exists_at?_of_view_directory hview
                exact hnot es hes
              · by_cases heq : old = new
                · rw [if_pos heq] at h
                  cases h
                  rw [if_pos (by rw [heq])]
                · rw [if_neg heq] at h
                  cases h
                  rw [if_neg fun hsame => heq (by cases hsame; rfl)]
  · rintro ⟨old, n, place, hs, hn, hmoves, rfl⟩
    cases hmoves with
    | free ht =>
      rw [hs, ht, if_neg nofun]
      dsimp only
      rw [hn]
    | taken ht hnot =>
      rw [hs, ht]
      dsimp only
      rw [hn]
      split
      · next hnone => cases hnone
      · next es _ hes => exact absurd (view_eq_directory_iff.mpr ⟨es, hes⟩) hnot
      · next m heq _ =>
        cases heq
        simp only [Except.ok.injEq, Spot.taken.injEq, eq_comm]
        split <;> rfl

theorem MovesTo.place_eq {place d : List RawText} {k : Nat} (hpath : path ≠ "")
    (hname : IsFileName name) (hrun : Run t.top.view (t.base path, names path) k (d, []))
    (h : t.MovesTo (Path.join path name) place) :
    place = d ++ [name] ∧ t.top.view (d ++ [name]) ≠ some .directory ∧
      ∀ {other}, t.resolve .entry (Path.join path name) = .ok (.taken other) →
        other = d ++ [name] := by
  cases h with
  | free hr =>
    obtain ⟨_, _, -, hrun', -, hentry⟩ := exists_run_of_resolve_entry hpath hname hr
    obtain ⟨rfl, -⟩ := hrun.unique hrun'
    rcases hentry with ⟨hnone, hfree⟩ | ⟨-, htaken⟩
    · cases hfree
      rw [hnone, hr]
      exact ⟨rfl, nofun, nofun⟩
    · cases htaken
  | taken hr hnot =>
    obtain ⟨_, _, -, hrun', -, hentry⟩ := exists_run_of_resolve_entry hpath hname hr
    obtain ⟨rfl, -⟩ := hrun.unique hrun'
    rcases hentry with ⟨-, hfree⟩ | ⟨-, htaken⟩
    · cases hfree
    · cases htaken
      rw [hr]
      exact ⟨rfl, hnot, fun hother => (Spot.taken.inj (Except.ok.inj hother)).symm⟩

theorem exists_of_rename {source target : RawText} (hpath : path ≠ "") (hsource : IsFileName source)
    (htarget : IsFileName target) (hne : source ≠ target)
    (h : t.rename (Path.join path source) (Path.join path target) = .ok t') :
    ∃ k d l, Run t.top.view (t.base path, names path) k (d, []) ∧
      t.top.view d = some .directory ∧ t.top.view (d ++ [source]) = some l ∧
      t.top.view (d ++ [target]) ≠ some .directory ∧ t'.workingDirectory = t.workingDirectory ∧
      (l ≠ .directory → t'.top.view
        = update (update t.top.view (d ++ [target]) (some l)) (d ++ [source]) none) := by
  obtain ⟨old, n, place, hs, hn, hmoves, rfl⟩ := rename_eq_ok_iff.mp h
  obtain ⟨k, d, -, hrun, hd, hold⟩ := exists_run_of_resolve_entry hpath hsource hs
  rcases hold with ⟨-, hfree⟩ | ⟨-, htaken⟩
  · cases hfree
  cases htaken
  obtain ⟨rfl, hnot, hother⟩ := hmoves.place_eq hpath htarget hrun
  have hplaces : d ++ [source] ≠ d ++ [target] := by simpa using hne
  have hview : t.top.view (d ++ [source]) = some n.label := by
    unfold Node.view
    rw [hn]
    rfl
  rw [if_neg fun hsame => hplaces (hother hsame)]
  exact ⟨k, d, n.label, hrun, hd, hview, hnot, rfl, view_move hne hd hn hnot⟩

/-! ### Creating a directory -/

theorem ne_empty_of_isDirectory (h : t.isDirectory path = true) : path ≠ "" := by
  obtain ⟨r, hr, -⟩ := isDirectory_iff.mp h
  exact (allowed_of_resolveSteps hr).1

theorem Run.steps_of_names {v : View} {place d : List RawText} {k : Nat}
    (h : Run v (place, names path) k (d, [])) (hd : v d = some .directory) :
    Run v (place, steps path) k (d, []) := by
  unfold steps
  by_cases hslash : Path.endsInSlash path = true
  · rw [if_pos hslash]
    -- a slash is a step that stays where it is
    have hstay : next? v (d, [""]) = some (0, d, []) := by
      rw [next?, if_neg (not_not_intro hd), if_pos (.inl rfl)]
    exact (h.append [""]).trans (.step hstay (.done _))
  · rw [if_neg hslash, List.append_nil]
    exact h

theorem exists_run_of_isDirectory (h : t.isDirectory path = true) :
    ∃ k r, k ≤ maxLinks ∧ Run t.top.view (t.base path, names path) k (r, []) ∧
      t.top.view r = some .directory := by
  obtain ⟨r, hr, hview⟩ := isDirectory_iff.mp h
  obtain ⟨k, hk, hrun⟩ := exists_run_of_resolve_taken hr
  unfold steps at hrun
  by_cases hslash : Path.endsInSlash path = true
  · rw [if_pos hslash] at hrun
    obtain ⟨d, k', k'', hto, hfrom, rfl⟩ := hrun.split
    -- a slash is a step that stays where it is
    have hstay : next? t.top.view (d, [""]) = some (0, d, []) := by
      rw [next?, if_neg (not_not_intro hfrom.directory_of_cons), if_pos (.inl rfl)]
    obtain ⟨rfl, -⟩ := hfrom.unique (.step hstay (.done _))
    exact ⟨k', r, Nat.le_trans (Nat.le_add_right k' k'') hk, hto, hview⟩
  · rw [if_neg hslash, List.append_nil] at hrun
    exact ⟨k, r, hk, hrun, hview⟩

theorem createDirectory_cases (hpath : path ≠ "") (hname : IsFileName name)
    (hsize : name.size ≤ maxNameSize) (hdir : t.isDirectory path = true) :
    (∃ e, t.createDirectory (Path.join path name) = .error e ∧ e ≠ .notFound) ∨
      ∃ k d, Run t.top.view (t.base path, names path) k (d, []) ∧
        t.top.view d = some .directory ∧ t.top.view (d ++ [name]) = none ∧
        t.createDirectory (Path.join path name) = .ok (t.put (d ++ [name]) (.directory [])) := by
  unfold createDirectory
  by_cases hallowed : Allowed (Path.join path name)
  · obtain ⟨k, d, hk, hrun, hd⟩ := exists_run_of_isDirectory hdir
    obtain ⟨spot, hwalk, -, hentry⟩ := walk_entry_of_run hrun hk hd hname.isName hsize
    rw [resolveSteps_of_allowed hallowed, base_join hpath hname, names_join hpath hname, hwalk]
    rcases hentry with ⟨hfree, rfl⟩ | ⟨-, rfl⟩
    · exact .inr ⟨k, d, hrun, hd, hfree, rfl⟩
    · exact .inl ⟨.exists, rfl, by decide⟩
  · left
    have hempty : ¬ (Path.join path name).isEmpty = true := by
      intro h
      exact join_ne_empty hpath hname (RawText.isEmpty_iff.mp h)
    unfold resolveSteps
    rw [if_neg hempty]
    by_cases hnul : (Path.join path name).bytes.contains 0 = true
    · rw [if_pos hnul]
      exact ⟨.nulInPath, rfl, by decide⟩
    · rw [if_neg hnul]
      by_cases hlong : isTooLong (Path.join path name) = true
      · rw [if_pos hlong]
        exact ⟨.nameTooLong, rfl, by decide⟩
      · refine absurd ⟨join_ne_empty hpath hname, ?_, Bool.eq_false_iff.mpr hlong⟩ hallowed
        exact fun h => hnul (List.contains_iff_mem.mpr h)

theorem ensureDirectory_of_error {e : IoError} (h : t.createDirectory path = .error e)
    (he : e ≠ .notFound) :
    t.ensureDirectory path = .ok t ∨
      ∃ e', t.ensureDirectory path = .error e' ∧ e' ≠ .notFound := by
  unfold ensureDirectory
  rw [h]
  by_cases hexists : e = .exists
  · subst hexists
    dsimp only
    by_cases hdir : t.isDirectory path = true
    · rw [if_pos hdir]
      exact .inl rfl
    · rw [if_neg hdir]
      exact .inr ⟨.exists, rfl, by decide⟩
  · right
    refine ⟨e, ?_, he⟩
    split
    · next heq => exact absurd (Except.error.inj heq) hexists
    · rfl

theorem ensureDirectory_of_ok (h : t.createDirectory path = .ok t') :
    t.ensureDirectory path = .ok t' := by
  unfold ensureDirectory
  rw [h]

theorem ensureFirst_of_ok (h : t.ensureDirectory path = .ok t') (above : List RawText) :
    t.ensureFirst (path :: above) = (.ok (), t') := by
  rw [ensureFirst, h]

theorem ensureFirst_of_error {e : IoError} (h : t.ensureDirectory path = .error e)
    (he : e ≠ .notFound) (above : List RawText) :
    t.ensureFirst (path :: above) = (.error e, t) := by
  rw [ensureFirst, h]
  split
  · next heq => cases heq
  · next heq => exact absurd (Except.error.inj heq) he
  · next heq =>
    cases heq
    rfl

theorem createDirectories_of_ok (hpath : path ≠ "") (hname : IsFileName name)
    (h : t.createDirectory (Path.join path name) = .ok t') :
    t.createDirectories (Path.join path name) = (.ok (), t') := by
  have hnames : ¬ (names (Path.join path name)).isEmpty = true := by
    rw [names_join hpath hname]
    simp
  unfold createDirectories
  rw [if_neg hnames, ensureFirst_of_ok (ensureDirectory_of_ok h)]

theorem createDirectories_cases (hpath : path ≠ "") (hname : IsFileName name)
    (hsize : name.size ≤ maxNameSize) (hdir : t.isDirectory path = true) :
    (t.createDirectories (Path.join path name)).2 = t ∨
      ∃ k d, Run t.top.view (t.base path, names path) k (d, []) ∧
        t.top.view d = some .directory ∧ t.top.view (d ++ [name]) = none ∧
        (t.createDirectories (Path.join path name)).2 = t.put (d ++ [name]) (.directory []) := by
  rcases createDirectory_cases hpath hname hsize hdir with ⟨e, he, hfound⟩ |
    ⟨k, d, hrun, hd, hfree, hok⟩
  · left
    have hnames : ¬ (names (Path.join path name)).isEmpty = true := by
      rw [names_join hpath hname]
      simp
    unfold createDirectories
    rw [if_neg hnames]
    rcases ensureDirectory_of_error he hfound with h | ⟨e', h, hfound'⟩
    · rw [ensureFirst_of_ok h]
    · rw [ensureFirst_of_error h hfound']
  · right
    refine ⟨k, d, hrun, hd, hfree, ?_⟩
    rw [createDirectories_of_ok hpath hname hok]

end LogTemplate.FileTree
