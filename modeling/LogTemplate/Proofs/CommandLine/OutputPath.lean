import LogTemplate.CommandLine.Command
import LogTemplate.Proofs.FileTree.Effects
import LogTemplate.Proofs.Text.Encoding

/-! Paths that a report may be written to. Such a path has no step up and does not start at the top, so
no part of it leads out of the working directory; and unless links hang below that, nothing outside it
changes when a report is written. -/

namespace LogTemplate

namespace Component

theorem text_of_ofPiece {piece : RawText} {c : Component} (h : ofPiece piece = some c) :
    c = up ∧ piece = ".." ∨ c = name piece ∧ piece ≠ ".." := by
  unfold ofPiece at h
  split_ifs at h with hnone hup
  · exact .inl ⟨(Option.some.inj h).symm, hup⟩
  · exact .inr ⟨(Option.some.inj h).symm, hup⟩

end Component

namespace Path

theorem mem_components_cases {path : RawText} {c : Component} (h : c ∈ components path) :
    c = .top ∨ c = .here ∨ ∃ piece ∈ pieces path, Component.ofPiece piece = some c := by
  have hrest (hc : c ∈ (pieces path).filterMap Component.ofPiece) :
      ∃ piece ∈ pieces path, Component.ofPiece piece = some c := List.mem_filterMap.mp hc
  unfold components at h
  dsimp only at h
  split_ifs at h
  · exact (List.mem_cons.mp h).imp_right fun hc => .inr (hrest hc)
  · exact .inr ((List.mem_cons.mp h).imp_right hrest)
  · exact .inr (.inr (hrest h))

theorem mem_components_of_ofPiece {path piece : RawText} {c : Component} (h : piece ∈ pieces path)
    (hc : Component.ofPiece piece = some c) : c ∈ components path := by
  have hrest : c ∈ (pieces path).filterMap Component.ofPiece := List.mem_filterMap.mpr ⟨piece, h, hc⟩
  unfold components
  dsimp only
  split_ifs
  · exact List.mem_cons_of_mem _ hrest
  · exact List.mem_cons_of_mem _ hrest
  · exact hrest

theorem up_mem_components_iff {path : RawText} :
    .up ∈ components path ↔ (".." : RawText) ∈ pieces path := by
  constructor
  · intro h
    rcases mem_components_cases h with h | h | ⟨piece, hpiece, h⟩
    · cases h
    · cases h
    · rcases Component.text_of_ofPiece h with ⟨-, rfl⟩ | ⟨h, -⟩
      · exact hpiece
      · cases h
  · exact fun h => mem_components_of_ofPiece h (by decide)

theorem up_mem_texts_iff {path : RawText} :
    (".." : RawText) ∈ (components path).map Component.text ↔ (".." : RawText) ∈ pieces path := by
  rw [← up_mem_components_iff, List.mem_map]
  constructor
  · rintro ⟨c, hc, htext⟩
    rcases mem_components_cases hc with rfl | rfl | ⟨piece, -, hpiece⟩
    · exact absurd htext (by decide)
    · exact absurd htext (by decide)
    · rcases Component.text_of_ofPiece hpiece with ⟨rfl, -⟩ | ⟨rfl, hne⟩
      · exact hc
      · exact absurd htext hne
  · exact fun h => ⟨.up, h, rfl⟩

theorem isAbsolute_ofText {path : String} :
    isAbsolute path = true ↔ path.toList.head? = some '/' := by
  unfold isAbsolute RawText.ofText
  rw [decide_eq_true_iff, Text.bytes_eq_encode]
  exact Text.head?_encode_iff (c := '/') (by decide)

/-! ### Following a path by its text -/

/-- Where a step leads from a place if it is no link. -/
def follow (place : List RawText) (step : RawText) : List RawText :=
  if step = "" ∨ step = "." then place
  else if step = ".." then place.dropLast
  else place ++ [step]

theorem prefix_follow {base place : List RawText} {step : RawText} (hstep : step ≠ "..")
    (h : base <+: place) : base <+: follow place step := by
  unfold follow
  split_ifs with hstay
  · exact h
  · exact h.trans (List.prefix_append place [step])

theorem prefix_foldl_follow {base place steps : List RawText} (hsteps : (".." : RawText) ∉ steps)
    (h : base <+: place) : base <+: steps.foldl follow place := by
  induction steps generalizing place with
  | nil => exact h
  | cons step steps ih =>
    rw [List.mem_cons, not_or] at hsteps
    exact ih hsteps.2 (prefix_follow (Ne.symm hsteps.1) h)

end Path

theorem checkOutputPath_eq_ok_iff {path path' : String} :
    checkOutputPath path = .ok path' ↔
      path' = path ∧ '\x00' ∉ path.toList ∧ Path.isAbsolute path = false ∧
        Component.up ∉ Path.components path := by
  unfold checkOutputPath
  simp only [List.contains_iff_mem]
  split_ifs with hnul habsolute hup
  · exact iff_of_false nofun fun h => h.2.1 hnul
  · exact iff_of_false nofun fun h => Bool.false_ne_true (h.2.2.1.symm.trans habsolute)
  · exact iff_of_false nofun fun h => h.2.2.2 hup
  · constructor
    · intro h
      exact ⟨(Except.ok.inj h).symm, hnul, Bool.eq_false_iff.mpr habsolute, hup⟩
    · rintro ⟨rfl, -⟩
      rfl

/-- A path is accepted, as it is written, if it has no NUL, no slash at its beginning and no piece that
is a step up. From whatever directory an accepted path is followed, piece by piece or component by
component, no part of it leads out of that directory. -/
theorem checkOutputPath_confines (path : String) :
    (∀ accepted, checkOutputPath path = .ok accepted ↔ accepted = path ∧ '\x00' ∉ path.toList ∧
      path.toList.head? ≠ some '/' ∧ (".." : RawText) ∉ Path.pieces path) ∧
    ∀ accepted, checkOutputPath path = .ok accepted → ∀ directory steps,
      steps <+: Path.pieces accepted ∨ steps <+: (Path.components accepted).map Component.text →
        directory <+: steps.foldl Path.follow directory := by
  have haccepted (accepted : String) : checkOutputPath path = .ok accepted ↔ accepted = path ∧
      '\x00' ∉ path.toList ∧ path.toList.head? ≠ some '/' ∧ (".." : RawText) ∉ Path.pieces path := by
    rw [checkOutputPath_eq_ok_iff, Path.up_mem_components_iff, ← Bool.not_eq_true,
      Path.isAbsolute_ofText]
  refine ⟨haccepted, fun accepted h directory steps hsteps => ?_⟩
  obtain ⟨rfl, -, -, hup⟩ := (haccepted accepted).mp h
  refine Path.prefix_foldl_follow (fun hmem => hup ?_) List.prefix_rfl
  rcases hsteps with hsteps | hsteps
  · exact hsteps.subset hmem
  · exact Path.up_mem_texts_iff.mp (hsteps.subset hmem)

theorem checkOutputPath_confines_dotted :
    checkOutputPath "out//./..a/.../r.json" = .ok "out//./..a/.../r.json" ∧
    (["work"] : List RawText) <+: (["out", "", ".", "..a"] : List RawText).foldl Path.follow ["work"] := by
  have hok : checkOutputPath "out//./..a/.../r.json" = .ok "out//./..a/.../r.json" := by
    decide +kernel
  have hsteps : (["out", "", ".", "..a"] : List RawText) <+: Path.pieces "out//./..a/.../r.json" := by
    decide +kernel
  exact ⟨hok, (checkOutputPath_confines _).2 _ hok ["work"] _ (.inl hsteps)⟩

/-! ### Reports in a tree -/

namespace FileTree

variable {v : View} {base : List RawText}

theorem next?_eq_follow {place rest : List RawText} {step : RawText} {r : Nat × Stage}
    (hlink : ∀ target, v (place ++ [step]) ≠ some (.link target))
    (h : next? v (place, step :: rest) = some r) : r = (0, Path.follow place step, rest) := by
  rw [next?] at h
  unfold Path.follow
  split_ifs at h ⊢ with hplace hstay hup hsize
  · exact (Option.some.inj h).symm
  · exact (Option.some.inj h).symm
  · cases hl : v (place ++ [step]) with
    | none =>
      rw [hl] at h
      cases h
    | some l =>
      rw [hl] at h
      cases l with
      | link target => exact absurd hl (hlink target)
      | file content => exact (Option.some.inj h).symm
      | directory => exact (Option.some.inj h).symm

theorem Run.confined (hlinks : ∀ place target, base <+: place → v place ≠ some (.link target))
    {place q ss ss' : List RawText} {k : Nat} (h : Run v (place, ss) k (q, ss'))
    (hup : (".." : RawText) ∉ ss)
    (hplace : base <+: place) : base <+: q := by
  generalize hs : (place, ss) = s at h
  generalize hs' : (q, ss') = s' at h
  induction h generalizing place ss with
  | done s =>
    rw [← hs] at hs'
    cases hs'
    exact hplace
  | @step s s₁ s' k n hstep _ ih =>
    subst hs hs'
    cases ss with
    | nil => cases hstep
    | cons first rest =>
      rw [List.mem_cons, not_or] at hup
      have hentry (target : RawText) : v (place ++ [first]) ≠ some (.link target) :=
        hlinks _ target (hplace.trans (List.prefix_append place [first]))
      cases next?_eq_follow hentry hstep
      exact ih hup.2 (Path.prefix_follow (Ne.symm hup.1) hplace) rfl rfl

variable {t : FileTree} {path : RawText}

theorem up_not_mem_steps (h : (".." : RawText) ∉ Path.pieces path) : (".." : RawText) ∉ steps path := by
  unfold steps names
  rw [List.mem_append, not_or]
  refine ⟨fun hmem => h (List.mem_filter.mp hmem).1, ?_⟩
  split_ifs <;> decide

theorem WritesAt.confined
    (hlinks : ∀ place target, t.workingDirectory <+: place → t.top.view place ≠ some (.link target))
    (hrelative : Path.isAbsolute path = false) (hup : (".." : RawText) ∉ Path.pieces path)
    {place : List RawText}
    (h : t.WritesAt path place) : t.workingDirectory <+: place := by
  have hbase : t.base path = t.workingDirectory := by
    rw [FileTree.base, hrelative, if_neg Bool.false_ne_true]
  have hrun {k : Nat} {q ss : List RawText} (hrun : Run t.top.view (t.base path, steps path) k (q, ss)) :
      t.workingDirectory <+: q := by
    rw [hbase] at hrun
    exact hrun.confined hlinks (up_not_mem_steps hup) List.prefix_rfl
  cases h with
  | free hr =>
    obtain ⟨k, s, -, hto, hend⟩ := exists_run_of_resolve_output hr
    cases hend
    exact (hrun hto).trans (List.prefix_append _ _)
  | taken hr _ =>
    obtain ⟨k, s, -, hto, hend⟩ := exists_run_of_resolve_output hr
    cases hend
    exact hrun hto

end FileTree

/-- Unless links hang in the working directory or below it, a report changes nothing that is not
there, be it written whole or not. -/
theorem Summary.writeReport_confined {s : Summary} {room : Option Nat} {path : String} {t : FileTree}
    (hlinks : ∀ place target, t.workingDirectory <+: place → t.top.view place ≠ some (.link target))
    (place : List RawText) (hplace : ¬ t.workingDirectory <+: place) :
    (s.writeReport room path t).2.top.view place = t.top.view place := by
  unfold writeReport
  cases hcheck : checkOutputPath path with
  | error e => rfl
  | ok accepted =>
    obtain ⟨rfl, -, hrelative, hup⟩ := checkOutputPath_eq_ok_iff.mp hcheck
    rw [Path.up_mem_components_iff] at hup
    have hwrite {content : List UInt8} {u : FileTree} (h : t.write accepted content = .ok u) :
        u.top.view place = t.top.view place := by
      obtain ⟨written, hwritten, rfl⟩ := FileTree.write_eq_ok_iff.mp h
      have hconfined := hwritten.confined hlinks hrelative hup
      exact Node.view_set_of_not_above (fun habove => hplace (hconfined.trans habove)) _ _
    have hwritten := FileTree.written_writeWithin t room accepted (Text.bytes s.json)
    dsimp only
    generalize t.writeWithin room accepted (Text.bytes s.json) = answer at hwritten
    cases hwritten with
    | none e => rfl
    | beginning _ _ h => exact hwrite h
    | whole _ h => exact hwrite h

end LogTemplate
