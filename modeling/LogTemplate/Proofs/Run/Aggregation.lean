import Mathlib.Data.Prod.Lex
import Mathlib.Order.Compare
import LogTemplate.Proofs.Call.Reporting
import LogTemplate.Proofs.Run.Sorting
import LogTemplate.Proofs.Text.ByteOrder

/-! Results put together. Nothing of them is lost or comes twice, and what comes of them does not
depend on the order in which they arrive. -/

namespace LogTemplate

/-! ### The order of diagnostics -/

theorem compares_then {α β : Type} [LT α] [LT β] {x y : α × β} {o o' : Ordering}
    (h : o.Compares x.1 y.1) (h' : o'.Compares x.2 y.2) : (o.then o').Compares (toLex x) (toLex y) := by
  cases o with
  | lt => exact Prod.Lex.toLex_lt_toLex.mpr (.inl h)
  | gt => exact Prod.Lex.toLex_lt_toLex.mpr (.inl h)
  | eq =>
    have h : x.1 = y.1 := h
    cases o' with
    | lt => exact Prod.Lex.toLex_lt_toLex.mpr (.inr ⟨h, h'⟩)
    | gt => exact Prod.Lex.toLex_lt_toLex.mpr (.inr ⟨h.symm, h'⟩)
    | eq => exact congrArg toLex (Prod.ext h h')

theorem compares_text (a b : String) : (compare a b).Compares (Text.numbers a) (Text.numbers b) := by
  have hcompare : compare a b = compareOfLessAndEq a b := rfl
  rw [hcompare, compareOfLessAndEq]
  split_ifs with hlt heq
  · exact Text.numbers_lt_iff.mpr hlt
  · exact Text.numbers_inj.mpr heq
  · exact Text.numbers_lt_iff.mpr (lt_of_le_of_ne (not_lt.mp hlt) (Ne.symm heq))

theorem compares_uint32 (a b : UInt32) : (compare a b).Compares a.toNat b.toNat := by
  have hcompare : compare a b = compareOfLessAndEq a b := rfl
  rw [hcompare, compareOfLessAndEq]
  split_ifs with hlt heq
  · exact UInt32.lt_iff_toNat_lt.mp hlt
  · exact congrArg UInt32.toNat heq
  · have hne : a.toNat ≠ b.toNat := fun h => heq (UInt32.toNat_inj.mp h)
    have hnot : ¬ a.toNat < b.toNat := fun h => hlt (UInt32.lt_iff_toNat_lt.mpr h)
    show b.toNat < a.toNat
    omega

def Location.key (l : Location) : List Nat ×ₗ Nat ×ₗ Nat ×ₗ Nat :=
  toLex (Text.numbers l.file, toLex (l.line.toNat, toLex (l.column.toNat, l.length.toNat)))

theorem Location.compares_order (a b : Location) : (a.order b).Compares a.key b.key :=
  compares_then (compares_text a.file b.file) <| compares_then (compares_uint32 a.line b.line) <|
    compares_then (compares_uint32 a.column b.column) (compares_uint32 a.length b.length)

theorem Location.key_injective : Function.Injective key := by
  rintro ⟨file, line, column, length⟩ ⟨file', line', column', length'⟩ h
  simp only [key, toLex_inj, Prod.mk.injEq, Text.numbers_inj, UInt32.toNat_inj] at h
  obtain ⟨rfl, rfl, rfl, rfl⟩ := h
  rfl

namespace Diagnostic

def key (d : Diagnostic) : (List Nat ×ₗ Nat ×ₗ Nat ×ₗ Nat) ×ₗ List Nat :=
  toLex (d.location.key, Text.numbers d.text)

theorem compares_order (a b : Diagnostic) : (a.order b).Compares a.key b.key :=
  compares_then (Location.compares_order a.location b.location) (compares_text a.text b.text)

theorem isLE_order_iff {a b : Diagnostic} : (a.order b).isLE = true ↔ a.key ≤ b.key :=
  Ordering.isLE_iff_ne_gt.trans (compares_order a b).ne_gt

theorem order_eq_eq_iff {a b : Diagnostic} : a.order b = .eq ↔ a.key = b.key :=
  (compares_order a b).eq_eq

theorem pairwise_sort (ds : List Diagnostic) : (sort ds).Pairwise fun a b => a.key ≤ b.key :=
  (pairwise_mergeSort order ds).imp isLE_order_iff.mp

def IsReported (d : Diagnostic) : Prop :=
  ∃ (ε : Type) (_ : Host ε) (s : Surface) (calls : List (Call ε)), d ∈ s.diagnostics calls

theorem IsReported.eq_invalidTemplate {d : Diagnostic} (h : d.IsReported) :
    d = invalidTemplate d.location d.text := by
  obtain ⟨ε, host, s, calls, hd⟩ := h
  obtain ⟨c, -, hc⟩ := List.mem_filterMap.mp hd
  obtain ⟨-, i, e, text, -, -, -, -, rfl⟩ := (s.diagnostic?_classify_eq_some_iff c d).mp hc
  rfl

theorem IsReported.eq_of_key_eq {a b : Diagnostic} (ha : a.IsReported) (hb : b.IsReported)
    (h : a.key = b.key) : a = b := by
  obtain ⟨hplace, htext⟩ := Prod.mk.inj (toLex_inj.mp h)
  rw [ha.eq_invalidTemplate, hb.eq_invalidTemplate, Location.key_injective hplace,
    Text.numbers_inj.mp htext]

theorem sort_eq_of_perm {ds ds' : List Diagnostic} (hreported : ∀ d ∈ ds', d.IsReported)
    (h : ds.Perm ds') : sort ds = sort ds' :=
  mergeSort_eq_of_perm h fun a ha b hb htie =>
    (hreported a ha).eq_of_key_eq (hreported b hb) (order_eq_eq_iff.mp htie)

end Diagnostic

/-! ### Putting together -/

theorem total_perm {α : Type} (f : α → Nat) {as bs : List α} (h : as.Perm bs) :
    total f as = total f bs := by
  induction h with
  | nil => rfl
  | cons a _ ih => rw [total_cons, total_cons, ih]
  | swap a b as => simp only [total_cons, Nat.add_left_comm]
  | trans _ _ ih ih' => rw [ih, ih']

namespace Outcome

/-- What an outcome has of the results it is put together from: each diagnostic and each result as
often as there, in order, and the counts of them. -/
structure Aggregates (o : Outcome) (dumpFiles : Nat) (results : List DumpResult) : Prop where
  diagnostics : o.summary.diagnostics.Perm (results.flatMap DumpResult.diagnostics)
  diagnostics_ordered : o.summary.diagnostics.Pairwise fun a b => a.key ≤ b.key
  dumps : o.dumps.Perm results
  dumps_ordered : o.dumps.Pairwise fun a b => (Path.order a.path b.path).isLE = true
  dumpFiles : o.summary.stats.dumpFiles = dumpFiles
  analyzedFiles : o.summary.stats.analyzedFiles = results.length
  cachedFiles : o.summary.stats.cachedFiles = results.countP DumpResult.cached
  callSites : o.summary.stats.callSites.toNat = total (fun r => r.callSites.toNat) results
  invalidTemplates : o.summary.stats.invalidTemplates = total (fun r => r.diagnostics.length) results
  isClean : o.summary.isClean = true ↔ ∀ r ∈ results, r.diagnostics = []

variable {results results' : List DumpResult}

theorem ofDumps_aggregates (dumpFiles : Nat)
    (hcalls : total (fun r => r.callSites.toNat) results < 2 ^ 64) :
    (ofDumps dumpFiles results).Aggregates dumpFiles results := by
  have hdumps : (ofDumps dumpFiles results).dumps.Perm results := List.mergeSort_perm results _
  have hdiagnostics : (ofDumps dumpFiles results).summary.diagnostics.Perm
      (results.flatMap DumpResult.diagnostics) :=
    (List.mergeSort_perm _ _).trans (hdumps.flatMap_right DumpResult.diagnostics)
  have hcmp := transCmp_on DumpResult.path Path.order
  have hordered : (ofDumps dumpFiles results).dumps.Pairwise
      fun a b => (Path.order a.path b.path).isLE = true :=
    pairwise_mergeSort (fun a b : DumpResult => Path.order a.path b.path) results
  refine {
    diagnostics := hdiagnostics
    diagnostics_ordered := Diagnostic.pairwise_sort _
    dumps := hdumps
    dumps_ordered := hordered
    dumpFiles := rfl
    analyzedFiles := hdumps.length_eq
    cachedFiles := hdumps.countP_eq DumpResult.cached
    callSites := ?_
    invalidTemplates := hdiagnostics.length_eq.trans (length_flatMap ..)
    isClean := ?_ }
  · have hsum := total_perm (fun r => r.callSites.toNat) hdumps
    show (total (fun r => r.callSites.toNat) (ofDumps dumpFiles results).dumps).toUInt64.toNat = _
    rw [hsum]
    exact UInt64.toNat_ofNat_of_lt' hcalls
  · rw [Summary.isClean, List.isEmpty_iff, ← List.flatMap_eq_nil_iff]
    exact ⟨fun h => List.nil_perm.mp (h ▸ hdiagnostics), fun h => List.perm_nil.mp (h ▸ hdiagnostics)⟩

theorem ofDumps_eq_of_perm (dumpFiles : Nat)
    (hpaths : results.Pairwise fun a b => Path.components a.path ≠ Path.components b.path)
    (h : results'.Perm results) : ofDumps dumpFiles results' = ofDumps dumpFiles results := by
  have hcmp := transCmp_on DumpResult.path Path.order
  have hsort : (results'.mergeSort fun a b => (Path.order a.path b.path).isLE)
      = results.mergeSort fun a b => (Path.order a.path b.path).isLE :=
    mergeSort_eq_of_perm_of_pairwise h (hpaths.imp (mt Path.order_eq_eq_iff.mp))
  unfold ofDumps
  rw [hsort]

theorem summary_ofDumps_eq_of_perm (dumpFiles : Nat)
    (hreported : ∀ r ∈ results, ∀ d ∈ r.diagnostics, d.IsReported) (h : results'.Perm results) :
    (ofDumps dumpFiles results').summary = (ofDumps dumpFiles results).summary := by
  have hdumps : (ofDumps dumpFiles results').dumps.Perm (ofDumps dumpFiles results).dumps :=
    ((List.mergeSort_perm results' _).trans h).trans (List.mergeSort_perm results _).symm
  have hfound : ∀ d ∈ (ofDumps dumpFiles results).dumps.flatMap DumpResult.diagnostics,
      d.IsReported := by
    intro d hd
    obtain ⟨r, hr, hd⟩ := List.mem_flatMap.mp hd
    exact hreported r (List.mem_mergeSort.mp hr) d hd
  have hdiagnostics : (ofDumps dumpFiles results').summary.diagnostics
      = (ofDumps dumpFiles results).summary.diagnostics :=
    Diagnostic.sort_eq_of_perm hfound (hdumps.flatMap_right DumpResult.diagnostics)
  have hstats : (ofDumps dumpFiles results').summary.stats
      = (ofDumps dumpFiles results).summary.stats :=
    (Stats.mk.injEq ..).mpr ⟨rfl, hdumps.length_eq, hdumps.countP_eq DumpResult.cached,
      congrArg Nat.toUInt64 (total_perm _ hdumps), congrArg List.length hdiagnostics⟩
  exact (Summary.mk.injEq ..).mpr ⟨hdiagnostics, hstats⟩

/-- Results put together are all there, once each and in order, and counted. In what order results for
different paths arrive makes no difference, and diagnostics of an analysis that the order does not tell
apart are the same. -/
theorem ofDumps_exact (dumpFiles : Nat) (results : List DumpResult)
    (hcalls : total (fun r => r.callSites.toNat) results < 2 ^ 64) :
    (ofDumps dumpFiles results).Aggregates dumpFiles results ∧
      (results.Pairwise (fun a b => Path.components a.path ≠ Path.components b.path) →
        ∀ results', results'.Perm results →
          ofDumps dumpFiles results' = ofDumps dumpFiles results) ∧
      ((∀ r ∈ results, ∀ d ∈ r.diagnostics, d.IsReported) →
        (∀ d ∈ (ofDumps dumpFiles results).summary.diagnostics,
          ∀ d' ∈ (ofDumps dumpFiles results).summary.diagnostics, d.order d' = .eq → d = d') ∧
        ∀ results', results'.Perm results →
          (ofDumps dumpFiles results').summary = (ofDumps dumpFiles results).summary) := by
  have hall := ofDumps_aggregates dumpFiles hcalls
  refine ⟨hall, fun hpaths _ => ofDumps_eq_of_perm dumpFiles hpaths, fun hreported =>
    ⟨fun d hd d' hd' htie => ?_, fun _ => summary_ofDumps_eq_of_perm dumpFiles hreported⟩⟩
  have hfound {d : Diagnostic} (hd : d ∈ (ofDumps dumpFiles results).summary.diagnostics) :
      d.IsReported := by
    obtain ⟨r, hr, hd⟩ := List.mem_flatMap.mp (hall.diagnostics.mem_iff.mp hd)
    exact hreported r hr d hd
  exact (hfound hd).eq_of_key_eq (hfound hd') (Diagnostic.order_eq_eq_iff.mp htie)

/-! Two dumps with the same call. -/

def tiedCall : Call Expr :=
  ⟨⟨"Log", "T", [⟨"message", .string⟩]⟩, [⟨some 0, some (.string "\x7b" ⟨"a.cs", 1, 1, 0⟩)⟩], none⟩

def tiedResult (path : RawText) (cached : Bool) : DumpResult :=
  ⟨path, "", 1, (Surface.ofTypes ["T"]).diagnostics [tiedCall], cached⟩

def tiedResults : List DumpResult :=
  [tiedResult "b.callsites.json" false, tiedResult "a.callsites.json" true]

theorem ofDumps_exact_tied :
    total (fun r => r.callSites.toNat) tiedResults < 2 ^ 64 ∧
    tiedResults.Pairwise (fun a b => Path.components a.path ≠ Path.components b.path) ∧
    (∀ r ∈ tiedResults, ∀ d ∈ r.diagnostics, d.IsReported) ∧
    (ofDumps 2 tiedResults).summary.stats.invalidTemplates = 2 ∧
    ofDumps 2 tiedResults.reverse = ofDumps 2 tiedResults ∧
    ∀ d ∈ (ofDumps 2 tiedResults).summary.diagnostics,
      ∀ d' ∈ (ofDumps 2 tiedResults).summary.diagnostics, d.order d' = .eq → d = d' := by
  have hcalls : total (fun r => r.callSites.toNat) tiedResults < 2 ^ 64 := by decide
  have hpaths : tiedResults.Pairwise fun a b => Path.components a.path ≠ Path.components b.path := by
    decide
  have hreported : ∀ r ∈ tiedResults, ∀ d ∈ r.diagnostics, d.IsReported := by
    intro r hr d hd
    have hsame : r.diagnostics = (Surface.ofTypes ["T"]).diagnostics [tiedCall] := by
      rcases List.mem_cons.mp hr with rfl | hr
      · rfl
      · rw [List.mem_singleton.mp hr]
        rfl
    exact ⟨Expr, inferInstance, .ofTypes ["T"], [tiedCall], hsame ▸ hd⟩
  obtain ⟨hall, harrival, hties⟩ := ofDumps_exact 2 tiedResults hcalls
  have hcount : total (fun r => r.diagnostics.length) tiedResults = 2 := by decide +kernel
  exact ⟨hcalls, hpaths, hreported, hall.invalidTemplates.trans hcount,
    harrival hpaths _ tiedResults.reverse_perm, (hties hreported).1⟩

end Outcome

end LogTemplate
