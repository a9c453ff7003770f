import Mathlib.Data.List.Flatten
import LogTemplate.Proofs.Call.Reporting
import LogTemplate.Proofs.Run.Selection
import LogTemplate.Proofs.Run.Uncached

/-! What more options change. Without a cache, to exclude or to ignore more takes dumps away with all
that was found in them, and to inspect more types adds diagnostics of calls to these; the rest stays
as it was, in the order that it had. -/

namespace LogTemplate

/-! ### Lists with items put in -/

/-- The second list is the first one with some items put in, all of one kind. -/
inductive Supplemented {α : Type} (P : α → Prop) : List α → List α → Prop
  | nil : Supplemented P [] []
  | keep {old new : List α} (a : α) (rest : Supplemented P old new) :
    Supplemented P (a :: old) (a :: new)
  | add {old new : List α} {a : α} (h : P a) (rest : Supplemented P old new) :
    Supplemented P old (a :: new)

section

variable {α : Type} {P Q : α → Prop} {old new : List α}

theorem Supplemented.sublist (h : Supplemented P old new) : old.Sublist new := by
  induction h with
  | nil => exact .slnil
  | keep a _ ih => exact ih.cons_cons a
  | add _ _ ih => exact ih.cons _

theorem Supplemented.mono (h : Supplemented P old new) (hkind : ∀ a, P a → Q a) :
    Supplemented Q old new := by
  induction h with
  | nil => exact .nil
  | keep a _ ih => exact .keep a ih
  | add ha _ ih => exact .add (hkind _ ha) ih

end

/-! ### More types -/

namespace Surface

variable {ε : Type} [Host ε] {s s' : Surface}

/-- A call of a type that only the second surface has is reported under it. -/
def NewlyReports (s s' : Surface) (calls : List (Call ε)) (d : Diagnostic) : Prop :=
  ∃ c ∈ calls, c.signature.declaringType ∉ s.types ∧ c.signature.declaringType ∈ s'.types ∧
    s'.Reports c d

theorem classify_eq_of_mem (h : s.types ⊆ s'.types) {c : Call ε}
    (hmem : c.signature.declaringType ∈ s.types) : s'.classify c = s.classify c := by
  have hfirst : s.contains c.signature.declaringType = true := List.contains_iff_mem.mpr hmem
  have hsecond : s'.contains c.signature.declaringType = true :=
    List.contains_iff_mem.mpr (h hmem)
  unfold classify
  rw [if_pos hfirst, if_pos hsecond]

theorem supplemented_diagnostics (h : s.types ⊆ s'.types) (calls : List (Call ε)) :
    Supplemented (s.NewlyReports s' calls) (s.diagnostics calls) (s'.diagnostics calls) := by
  induction calls with
  | nil => exact .nil
  | cons c calls ih =>
    have hrest : Supplemented (s.NewlyReports s' (c :: calls)) (s.diagnostics calls)
        (s'.diagnostics calls) := by
      refine ih.mono fun d => ?_
      rintro ⟨c', hc', hnew⟩
      exact ⟨c', List.mem_cons_of_mem c hc', hnew⟩
    rw [diagnostics_cons, diagnostics_cons]
    by_cases hold : c.signature.declaringType ∈ s.types
    · rw [classify_eq_of_mem h hold]
      cases (s.classify c).diagnostic? with
      | none => exact hrest
      | some d => exact .keep d hrest
    · have hsilent : (s.classify c).diagnostic? = none :=
        (s.classify_silent_iff c).mpr fun d hd => hold hd.1
      rw [hsilent]
      cases hverdict : (s'.classify c).diagnostic? with
      | none => exact hrest
      | some d =>
        have hreports := (s'.diagnostic?_classify_eq_some_iff c d).mp hverdict
        exact .add ⟨c, List.mem_cons_self .., hold, hreports.1, hreports⟩ hrest

end Surface

/-! ### Putting results together -/

namespace Outcome

theorem flatMap_diagnostics_sublist {results results' : List DumpResult}
    (h : List.Forall₂ (fun r r' => r.diagnostics.Sublist r'.diagnostics) results results') :
    (results.flatMap DumpResult.diagnostics).Sublist
      (results'.flatMap DumpResult.diagnostics) := by
  induction h with
  | nil => exact .slnil
  | cons hfirst _ ih =>
    rw [List.flatMap_cons, List.flatMap_cons]
    exact hfirst.append ih

variable (n n' : Nat)

theorem dumps_ofDumps_map {α : Type} (f : α → DumpResult) (as : List α) :
    (ofDumps n (as.map f)).dumps
      = (as.mergeSort fun a b => (Path.order (f a).path (f b).path).isLE).map f := by
  have hsort : (as.mergeSort fun a b => (Path.order (f a).path (f b).path).isLE).map f
      = (as.map f).mergeSort fun a b => (Path.order a.path b.path).isLE :=
    List.map_mergeSort fun _ _ _ _ => rfl
  exact hsort.symm

theorem dumps_ofDumps_sublist {results results' : List DumpResult}
    (h : results'.Sublist results) :
    (ofDumps n' results').dumps.Sublist (ofDumps n results).dumps := by
  have hpath := transCmp_on DumpResult.path Path.order
  exact mergeSort_sublist_mergeSort h

end Outcome

/-! ### Two runs -/

namespace Options

/-- The first options may inspect more types than the second ones, and are the same otherwise. -/
structure Widens (o' o : Options) : Prop where
  root : o'.root = o.root
  useCache : o'.useCache = o.useCache
  excludedDirectories : o'.excludedDirectories = o.excludedDirectories
  ignoredPatterns : o'.ignoredPatterns = o.ignoredPatterns
  extraTypes : o.extraTypes ⊆ o'.extraTypes

/-- The second result is about the same dump as the first, and what it has more was found in calls of
types that are new on the surface. -/
structure Supplements (t : FileTree) (s s' : Surface) (r r' : DumpResult) : Prop where
  path : r'.path = r.path
  compilation : r'.compilation = r.compilation
  callSites : r'.callSites = r.callSites
  cached : r'.cached = r.cached
  diagnostics : ∃ d, Dump.load t r.path = .ok d ∧
    Supplemented (s.NewlyReports s' d.calls) r.diagnostics r'.diagnostics

variable {o o' : Options} {t : FileTree} {files : List RawText}

theorem Supplements.sublist {s s' : Surface} {r r' : DumpResult} (h : Supplements t s s' r r') :
    r.diagnostics.Sublist r'.diagnostics := by
  obtain ⟨d, -, hmore⟩ := h.diagnostics
  exact hmore.sublist

theorem Narrows.looksAt (h : o'.Narrows o) (hlooks : o.LooksAt t files) :
    ∃ files', o'.LooksAt t files' ∧ files'.Sublist files := by
  obtain ⟨files', hfiles', hsub⟩ := h.files_sublist hlooks.2
  refine ⟨files', ⟨?_, hfiles'⟩, hsub⟩
  rw [h.root]
  exact hlooks.1

theorem Widens.looksAt (h : o'.Widens o) (hlooks : o.LooksAt t files) : o'.LooksAt t files := by
  have hfiles : o'.files t = o.files t := by
    unfold Options.files
    rw [h.root, h.excludedDirectories, h.ignoredPatterns]
  refine ⟨?_, hfiles.trans hlooks.2⟩
  rw [h.root]
  exact hlooks.1

theorem Widens.types_subset (h : o'.Widens o) : o.surface.types ⊆ o'.surface.types := by
  intro name hname
  exact mem_surface_iff.mpr ((mem_surface_iff.mp hname).imp_right fun hextra => h.extraTypes hextra)

theorem Widens.supplements (h : o'.Widens o) {e : RawText × Dump} (he : e ∈ Dump.loadAll t files) :
    Supplements t o.surface o'.surface (o.surface.resultOf e) (o'.surface.resultOf e) where
  path := rfl
  compilation := rfl
  callSites := rfl
  cached := rfl
  diagnostics :=
    ⟨e.2, (Dump.mem_loadAll_iff.mp he).2, Surface.supplemented_diagnostics h.types_subset e.2.calls⟩

section

variable (hcache : o.useCache = false) (hlooks : o.LooksAt t files)

include hcache hlooks

theorem Narrows.exists_outcome (h : o'.Narrows o) (stamp : Stamp) :
    ∃ out', (o'.analyze stamp t).1 = .ok out' ∧ out'.dumps.Sublist (o.found t files).dumps ∧
      out'.summary.diagnostics.Sublist (o.found t files).summary.diagnostics := by
  obtain ⟨files', hlooks', hsub⟩ := h.looksAt hlooks
  have hrun := analyze_eq_found (h.useCache.trans hcache) hlooks' stamp
  have hsurface : o'.surface = o.surface := surface_congr fun n => by rw [h.extraTypes]
  have hdumps : (o'.found t files').dumps.Sublist (o.found t files).dumps := by
    unfold found
    rw [hsurface]
    apply Outcome.dumps_ofDumps_sublist
    exact (hsub.filterMap _).map o.surface.resultOf
  refine ⟨o'.found t files', congrArg Prod.fst hrun, hdumps, ?_⟩
  apply Diagnostic.sort_sublist_sort
  exact hdumps.flatMap DumpResult.diagnostics

theorem Widens.exists_outcome (h : o'.Widens o) (stamp : Stamp) :
    ∃ out', (o'.analyze stamp t).1 = .ok out' ∧
      List.Forall₂ (Supplements t o.surface o'.surface) (o.found t files).dumps out'.dumps ∧
      (o.found t files).summary.diagnostics.Sublist out'.summary.diagnostics := by
  have hrun := analyze_eq_found (h.useCache.trans hcache) (h.looksAt hlooks) stamp
  -- both runs put their results in the order of the same paths
  have hdumps : List.Forall₂ (Supplements t o.surface o'.surface) (o.found t files).dumps
      (o'.found t files).dumps := by
    unfold found
    rw [Outcome.dumps_ofDumps_map, Outcome.dumps_ofDumps_map, List.forall₂_map_left_iff,
      List.forall₂_map_right_iff]
    refine List.forall₂_same.mpr fun e he => ?_
    exact h.supplements (List.mem_mergeSort.mp he)
  refine ⟨o'.found t files, congrArg Prod.fst hrun, hdumps, ?_⟩
  apply Diagnostic.sort_sublist_sort
  apply Outcome.flatMap_diagnostics_sublist
  exact hdumps.imp fun r r' hr => hr.sublist

end

/-- What a run without a cache finds when more is excluded or ignored, or more types inspected. -/
theorem analyze_monotone {stamp : Stamp} {out : Outcome} (hcache : o.useCache = false)
    (hok : (o.analyze stamp t).1 = .ok out) :
    (∀ (o' : Options) (stamp' : Stamp), o'.Narrows o → ∃ out', (o'.analyze stamp' t).1 = .ok out' ∧
      out'.dumps.Sublist out.dumps ∧
      out'.summary.diagnostics.Sublist out.summary.diagnostics) ∧
    ∀ (o' : Options) (stamp' : Stamp), o'.Widens o → ∃ out', (o'.analyze stamp' t).1 = .ok out' ∧
      List.Forall₂ (Supplements t o.surface o'.surface) out.dumps out'.dumps ∧
      out.summary.diagnostics.Sublist out'.summary.diagnostics := by
  obtain ⟨files, hlooks⟩ := exists_looksAt_of_analyze_eq_ok hok
  have hout : out = o.found t files := by
    rw [analyze_eq_found hcache hlooks] at hok
    exact (Except.ok.inj hok).symm
  subst hout
  exact ⟨fun o' stamp' h => h.exists_outcome hcache hlooks stamp',
    fun o' stamp' h => h.exists_outcome hcache hlooks stamp'⟩

/-! ### One dump, with a call that is reported and one that is not yet -/

def plainOptions : Options := Sample.options.uncached

theorem analyze_monotone_plain : ∃ out,
    plainOptions.useCache = false ∧ (plainOptions.analyze Sample.stamp Sample.tree).1 = .ok out ∧
    out.summary.diagnostics = [Sample.finding 2] ∧
    (∃ out', ({ plainOptions with ignoredPatterns := ["a."] }.analyze Sample.stamp Sample.tree).1
        = .ok out' ∧
      out'.dumps.Sublist out.dumps ∧ out'.summary.diagnostics.Sublist out.summary.diagnostics) ∧
    ∃ out', ({ plainOptions with extraTypes := ["T", "U"] }.analyze Sample.stamp Sample.tree).1
        = .ok out' ∧
      List.Forall₂ (Supplements Sample.tree (Surface.standard.extend ["T"])
        (Surface.standard.extend ["T", "U"])) out.dumps out'.dumps ∧
      out.summary.diagnostics.Sublist out'.summary.diagnostics ∧
      out'.summary.diagnostics = [Sample.finding 2, Sample.finding 3] := by
  have hnarrows : Narrows { plainOptions with ignoredPatterns := ["a."] } plainOptions :=
    ⟨rfl, rfl, rfl, List.Subset.refl _, List.nil_subset _⟩
  have hwidens : Widens { plainOptions with extraTypes := ["T", "U"] } plainOptions :=
    ⟨rfl, rfl, rfl, rfl, List.subset_append_left ["T"] ["U"]⟩
  have hlooks : plainOptions.LooksAt Sample.tree [Sample.path] := Sample.looksAt_tree
  have hrun := congrArg Prod.fst (analyze_eq_found rfl hlooks Sample.stamp)
  obtain ⟨hnarrowed, hwidened⟩ := analyze_monotone rfl hrun
  obtain ⟨out', hrun', hdumps, hdiagnostics⟩ := hwidened _ Sample.stamp hwidens
  have hfound := congrArg Prod.fst (analyze_eq_found rfl (hwidens.looksAt hlooks) Sample.stamp)
  obtain rfl := Except.ok.inj (hrun'.symm.trans hfound)
  have hold : plainOptions.surface.diagnostics Sample.dump.calls = [Sample.finding 2] := by
    decide +kernel
  have hnew : { plainOptions with extraTypes := ["T", "U"] }.surface.diagnostics Sample.dump.calls
      = [Sample.finding 2, Sample.finding 3] := by
    decide +kernel
  refine ⟨_, rfl, hrun, ?_, hnarrowed _ Sample.stamp hnarrows, _, hrun', hdumps, hdiagnostics, ?_⟩
  · rw [Sample.diagnostics_found, hold]
    exact List.mergeSort_of_pairwise (by decide)
  · rw [Sample.diagnostics_found, hnew]
    exact List.mergeSort_of_pairwise (by decide)

end Options

end LogTemplate
