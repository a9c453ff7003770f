import Mathlib.Data.List.Forall2
import LogTemplate.Proofs.Call.Binding
import LogTemplate.Proofs.Call.Folding
import LogTemplate.Proofs.Template.Formatter
import LogTemplate.Proofs.Template.Grammar
import LogTemplate.Verdict

/-! What the analysis reports: the calls on the surface whose template argument folds to a text
outside the grammar, one diagnostic each, in the order of the calls. -/

namespace LogTemplate

namespace Verdict

theorem ofTemplate_eq (text : String) (l : Location) :
    ofTemplate text l =
      if Template.isValid text then valid else invalid (.invalidTemplate l text) := by
  obtain ⟨holes, h⟩ := Template.Formatter.exists_ofTemplate text
  rw [ofTemplate, h]

theorem ofTemplate_ne_formatterRejected (text : String) (l : Location) :
    ofTemplate text l ≠ notApplicable .formatterRejected := by
  rw [ofTemplate_eq]
  split <;> simp

theorem diagnostic?_ofTemplate_eq_some_iff (text : String) (l : Location) (d : Diagnostic) :
    (ofTemplate text l).diagnostic? = some d ↔
      text.toList ∉ Template.grammar ∧ d = .invalidTemplate l text := by
  rw [ofTemplate_eq, ← Template.isValid_iff_mem_grammar]
  by_cases h : Template.isValid text
  · rw [if_pos h]
    exact iff_of_false (by simp [diagnostic?]) fun hd => hd.1 h
  · rw [if_neg h, diagnostic?, Option.some_inj, eq_comm]
    exact ⟨fun hd => ⟨h, hd⟩, And.right⟩

end Verdict

variable {ε : Type} [Host ε]

theorem Call.resolve_eq_resolved_iff (c : Call ε) (text : String) (e : ε) :
    c.resolve = .resolved text e ↔
      ∃ i, c.signature.IsTemplateParameter i ∧ c.Binds i e ∧ foldText e = some text := by
  simp only [← Signature.templateParameter?_eq_some_iff, ← argument?_eq_some_iff,
    ← textOf_eq_foldText]
  constructor
  · intro h
    rw [resolve] at h
    cases hp : c.signature.templateParameter? with
    | none => simp [hp] at h
    | some i =>
      cases ha : c.argument? i with
      | none => simp [hp, ha] at h
      | some f =>
        cases ht : textOf f with
        | none => simp [hp, ha, ht] at h
        | some t =>
          simp only [hp, ha, ht, Resolution.resolved.injEq] at h
          obtain ⟨rfl, rfl⟩ := h
          exact ⟨i, rfl, ha, ht⟩
  · rintro ⟨i, hp, ha, ht⟩
    simp only [resolve, hp, ha, ht]

namespace Surface

/-- The call is on the surface, and the argument bound to its template parameter folds to a text
that is no template. -/
def Reports (s : Surface) (c : Call ε) (d : Diagnostic) : Prop :=
  c.signature.declaringType ∈ s.types ∧
    ∃ i e text, c.signature.IsTemplateParameter i ∧ c.Binds i e ∧ foldText e = some text ∧
      text.toList ∉ Template.grammar ∧ d = .invalidTemplate (Host.location e) text

inductive Reported (s : Surface) : List (Call ε) → List Diagnostic → Prop
  | nil : Reported s [] []
  | report {c d calls ds} (h : s.Reports c d) (rest : Reported s calls ds) :
    Reported s (c :: calls) (d :: ds)
  | silent {c calls ds} (h : ∀ d, ¬ s.Reports c d) (rest : Reported s calls ds) :
    Reported s (c :: calls) ds

def reportEach (s : Surface) : List (Call ε) → List Diagnostic → List Bool × List Diagnostic
  | [], sink => ([], sink)
  | c :: calls, sink =>
    let (reported, sink) := s.report c sink
    let (flags, sink) := s.reportEach calls sink
    (reported :: flags, sink)

variable (s : Surface)

theorem classify_ne_formatterRejected (c : Call ε) :
    s.classify c ≠ .notApplicable .formatterRejected := by
  rw [classify]
  split
  · split
    · simp
    · simp
    · simp
    · exact Verdict.ofTemplate_ne_formatterRejected _ _
  · simp

theorem diagnostic?_classify_eq_some_iff (c : Call ε) (d : Diagnostic) :
    (s.classify c).diagnostic? = some d ↔ s.Reports c d := by
  rw [classify, Reports]
  by_cases hs : c.signature.declaringType ∈ s.types
  · rw [if_pos (by simpa [contains] using hs), and_iff_right hs]
    constructor
    · intro h
      cases hr : c.resolve with
      | noTemplateParameter | unbound | unresolvable => simp [hr, Verdict.diagnostic?] at h
      | resolved text e =>
        rw [hr] at h
        obtain ⟨i, hi, he, ht⟩ := (c.resolve_eq_resolved_iff text e).1 hr
        exact ⟨i, e, text, hi, he, ht,
          (Verdict.diagnostic?_ofTemplate_eq_some_iff text (Host.location e) d).1 h⟩
    · rintro ⟨i, e, text, hi, he, ht, hd⟩
      rw [(c.resolve_eq_resolved_iff text e).2 ⟨i, hi, he, ht⟩]
      exact (Verdict.diagnostic?_ofTemplate_eq_some_iff text (Host.location e) d).2 hd
  · rw [if_neg (by simpa [contains] using hs)]
    exact iff_of_false (by simp [Verdict.diagnostic?]) fun h => hs h.1

theorem classify_silent_iff (c : Call ε) :
    (s.classify c).diagnostic? = none ↔ ∀ d, ¬ s.Reports c d := by
  simp only [Option.eq_none_iff_forall_ne_some, ← diagnostic?_classify_eq_some_iff, ne_eq]

theorem diagnostics_cons (c : Call ε) (calls : List (Call ε)) :
    s.diagnostics (c :: calls) = (s.classify c).diagnostic?.toList ++ s.diagnostics calls := by
  rw [diagnostics, List.filterMap_cons]
  cases (s.classify c).diagnostic? <;> rfl

theorem reported_diagnostics (calls : List (Call ε)) : s.Reported calls (s.diagnostics calls) := by
  induction calls with
  | nil => exact .nil
  | cons c calls ih =>
    cases h : (s.classify c).diagnostic? with
    | none =>
      rw [diagnostics_cons, h]
      exact .silent ((s.classify_silent_iff c).1 h) ih
    | some d =>
      rw [diagnostics_cons, h]
      exact .report ((s.diagnostic?_classify_eq_some_iff c d).1 h) ih

theorem Reported.eq_diagnostics {calls : List (Call ε)} {ds : List Diagnostic}
    (h : s.Reported calls ds) : ds = s.diagnostics calls := by
  induction h with
  | nil => rfl
  | report hd _ ih =>
    rw [diagnostics_cons, (s.diagnostic?_classify_eq_some_iff _ _).2 hd, ih]
    rfl
  | silent hnone _ ih =>
    rw [diagnostics_cons, (s.classify_silent_iff _).2 hnone, ih]
    rfl

theorem report_eq (c : Call ε) (sink : List Diagnostic) :
    s.report c sink =
      ((s.classify c).diagnostic?.isSome, sink ++ (s.classify c).diagnostic?.toList) := by
  rw [report]
  cases (s.classify c).diagnostic? with
  | none => simp
  | some d => rfl

theorem reportEach_eq (calls : List (Call ε)) (sink : List Diagnostic) :
    s.reportEach calls sink =
      (calls.map fun c => (s.classify c).diagnostic?.isSome, sink ++ s.diagnostics calls) := by
  induction calls generalizing sink with
  | nil => simp [reportEach, diagnostics]
  | cons c calls ih =>
    rw [reportEach, report_eq]
    dsimp only
    rw [ih, List.map_cons, diagnostics_cons, List.append_assoc]

/-- The analysis reports exactly the calls that are to be reported, and handing the calls in one by
one adds the same diagnostics to whatever was collected before. -/
theorem diagnostics_exact (calls : List (Call ε)) :
    (∀ ds, s.Reported calls ds ↔ ds = s.diagnostics calls) ∧
      ∀ sink, ∃ flags, s.reportEach calls sink = (flags, sink ++ s.diagnostics calls) ∧
        List.Forall₂ (fun c flag => flag = true ↔ ∃ d, s.Reports c d) calls flags := by
  refine ⟨fun ds => ⟨fun h => h.eq_diagnostics, ?_⟩, fun sink => ⟨_, s.reportEach_eq calls sink, ?_⟩⟩
  · rintro rfl
    exact s.reported_diagnostics calls
  · rw [List.forall₂_map_right_iff, List.forall₂_same]
    intro c _
    simp only [Option.isSome_iff_exists, diagnostic?_classify_eq_some_iff]

end Surface

end LogTemplate
