import LogTemplate.Report
import LogTemplate.Proofs.Cache.RoundTrip

/-! The data report of a run loses nothing: its text is read as the report, and whoever looks up the
fields of the report by their names has the diagnostics and the counts of the run. -/

namespace LogTemplate

open Json Json.Shape

/-! ### What a report is read as -/

structure Stats.Fits (s : Stats) : Prop where
  dumpFiles : s.dumpFiles < UInt64.size
  analyzedFiles : s.analyzedFiles < UInt64.size
  cachedFiles : s.cachedFiles < UInt64.size
  invalidTemplates : s.invalidTemplates < UInt64.size

def Stats.shape : Shape Stats :=
  .record "struct Stats"
    [.ofShape "dump_files" .required .count Stats.dumpFiles fun v s => { s with dumpFiles := v },
     .ofShape "analyzed_files" .required .count Stats.analyzedFiles fun v s =>
       { s with analyzedFiles := v },
     .ofShape "cached_files" .required .count Stats.cachedFiles fun v s =>
       { s with cachedFiles := v },
     .ofShape "call_sites" .required .uint64 Stats.callSites fun v s => { s with callSites := v },
     .ofShape "invalid_templates" .required .count Stats.invalidTemplates fun v s =>
       { s with invalidTemplates := v }]
    default

def Summary.shape : Shape Summary :=
  .record "struct Summary"
    [.ofShape "summary" .required Stats.shape Summary.stats fun v s => { s with stats := v },
     .ofShape "diagnostics" .required Diagnostic.shape.list Summary.diagnostics fun v s =>
       { s with diagnostics := v }]
    default

/-! ### Fields are found by their names -/

theorem Json.Shape.decode_string (a : String) : Shape.text.decode (.string a) = .ok a := rfl

theorem Json.Shape.decode_nat (n : UInt32) : uint32.decode (.nat n.toNat) = .ok n := decodes_uint32 n

theorem Location.decode_report (l : Location) : Location.shape.decode l.report = .ok l := by
  show decodeNamed (fields.map Member.toSlot) _ [] _ = .ok l
  rw [decodeNamed_cons rfl (by simp) (Slot.decode_ofDecode (decode_nat l.column) _ _ _),
    decodeNamed_cons rfl (by simp) (Slot.decode_ofDecode (decode_string l.file) _ _ _),
    decodeNamed_cons rfl (by simp) (Slot.decode_ofDecode (decode_nat l.length) _ _ _),
    decodeNamed_cons rfl (by simp) (Slot.decode_ofDecode (decode_nat l.line) _ _ _)]
  exact decodeNamed_nil rfl _

theorem Severity.decode_name (s : Severity) : Severity.shape.decode (.string s.name) = .ok s := by
  cases s <;> rfl

theorem Diagnostic.decode_report (d : Diagnostic) : Diagnostic.shape.decode d.report = .ok d := by
  show decodeNamed (List.map Member.toSlot _) _ [] _ = .ok d
  rw [decodeNamed_cons rfl (by simp) (Slot.decode_ofDecode d.location.decode_report _ _ _),
    decodeNamed_cons rfl (by simp) (Slot.decode_ofDecode (decode_string d.message) _ _ _),
    decodeNamed_cons rfl (by simp) (Slot.decode_ofDecode (decode_string d.ruleId) _ _ _),
    decodeNamed_cons rfl (by simp) (Slot.decode_ofDecode d.severity.decode_name _ _ _),
    decodeNamed_cons rfl (by simp) (Slot.decode_ofDecode (decode_string d.text) _ _ _)]
  exact decodeNamed_nil rfl _

theorem Stats.decode_report {s : Stats} (h : s.Fits) : Stats.shape.decode s.report = .ok s := by
  have hcount {n : Nat} (hn : n < UInt64.size) : count.decode (.nat n) = .ok n :=
    decodes_bounded "usize" hn
  have hcalls : uint64.decode (.nat s.callSites.toNat) = .ok s.callSites :=
    Decodes.convert (hcount s.callSites.toNat_lt) UInt64.ofNat_toNat
  show decodeNamed (List.map Member.toSlot _) _ [] _ = .ok s
  rw [decodeNamed_cons rfl (by simp) (Slot.decode_ofDecode (hcount h.analyzedFiles) _ _ _),
    decodeNamed_cons rfl (by simp) (Slot.decode_ofDecode (hcount h.cachedFiles) _ _ _),
    decodeNamed_cons rfl (by simp) (Slot.decode_ofDecode hcalls _ _ _),
    decodeNamed_cons rfl (by simp) (Slot.decode_ofDecode (hcount h.dumpFiles) _ _ _),
    decodeNamed_cons rfl (by simp) (Slot.decode_ofDecode (hcount h.invalidTemplates) _ _ _)]
  exact decodeNamed_nil rfl _

theorem Summary.decode_report {s : Summary} (h : s.stats.Fits) :
    Summary.shape.decode s.report = .ok s := by
  have hdiagnostics : Diagnostic.shape.list.decode (.array (s.diagnostics.map Diagnostic.report))
      = .ok s.diagnostics := decodeList_map fun d _ => d.decode_report
  show decodeNamed (List.map Member.toSlot _) _ [] _ = .ok s
  rw [decodeNamed_cons rfl (by simp) (Slot.decode_ofDecode hdiagnostics _ _ _),
    decodeNamed_cons rfl (by simp) (Slot.decode_ofDecode (Stats.decode_report h) _ _ _)]
  exact decodeNamed_nil rfl _

/-! ### The text is read as the report -/

theorem Location.roundTrips_report (l : Location) : any.RoundTrips l.report := by
  refine roundTrips_any_object fun f hf => ?_
  simp only [List.mem_cons, List.not_mem_nil, or_false] at hf
  rcases hf with rfl | rfl | rfl | rfl
  · exact roundTrips_any_nat (Nat.lt_trans l.column.toNat_lt (by decide))
  · exact roundTrips_any_string l.file
  · exact roundTrips_any_nat (Nat.lt_trans l.length.toNat_lt (by decide))
  · exact roundTrips_any_nat (Nat.lt_trans l.line.toNat_lt (by decide))

theorem Diagnostic.roundTrips_report (d : Diagnostic) : any.RoundTrips d.report := by
  refine roundTrips_any_object fun f hf => ?_
  simp only [List.mem_cons, List.not_mem_nil, or_false] at hf
  rcases hf with rfl | rfl | rfl | rfl | rfl
  · exact d.location.roundTrips_report
  · exact roundTrips_any_string d.message
  · exact roundTrips_any_string d.ruleId
  · exact roundTrips_any_string d.severity.name
  · exact roundTrips_any_string d.text

theorem Stats.roundTrips_report {s : Stats} (h : s.Fits) : any.RoundTrips s.report := by
  refine roundTrips_any_object fun f hf => ?_
  simp only [List.mem_cons, List.not_mem_nil, or_false] at hf
  rcases hf with rfl | rfl | rfl | rfl | rfl
  · exact roundTrips_any_nat h.analyzedFiles
  · exact roundTrips_any_nat h.cachedFiles
  · exact roundTrips_any_nat s.callSites.toNat_lt
  · exact roundTrips_any_nat h.dumpFiles
  · exact roundTrips_any_nat h.invalidTemplates

theorem Summary.roundTrips_report {s : Summary} (h : s.stats.Fits) : any.RoundTrips s.report := by
  refine roundTrips_any_object (List.forall_mem_cons.mpr ⟨?_, List.forall_mem_singleton.mpr ?_⟩)
  · refine roundTrips_any_array fun v hv => ?_
    obtain ⟨d, _, rfl⟩ := List.mem_map.mp hv
    exact d.roundTrips_report
  · exact Stats.roundTrips_report h

theorem Diagnostic.depth_report (d : Diagnostic) : d.report.depth = 2 := rfl

theorem Summary.depth_report_le (s : Summary) : s.report.depth ≤ 4 := by
  have hitems : depthItems (s.diagnostics.map Diagnostic.report) ≤ 2 := by
    refine depthItems_le fun v hv => ?_
    obtain ⟨d, _, rfl⟩ := List.mem_map.mp hv
    exact Nat.le_of_eq d.depth_report
  have hdepth : s.report.depth =
      max (depthItems (s.diagnostics.map Diagnostic.report) + 1) (max 1 0) + 1 := rfl
  omega

theorem Summary.parse_json {s : Summary} (h : s.stats.Fits) : Json.parse s.json = .ok s.report := by
  have hdepth : s.report.depth ≤ maxDepth := Nat.le_trans s.depth_report_le (by decide)
  exact readAll_write ((roundTrips_report h).reads maxDepth hdepth) (.indented 0)

/-- The text of a report is well formed, and what it says is the diagnostics in their order and the
counts: no other run has the same text. -/
theorem Summary.json_lossless {s : Summary} (h : s.stats.Fits) :
    Json.parse s.json = .ok s.report ∧ Summary.shape.decode s.report = .ok s ∧
      ∀ s' : Summary, s'.stats.Fits → s'.json = s.json → s' = s := by
  refine ⟨parse_json h, decode_report h, fun s' h' hjson => ?_⟩
  have hreport : s'.report = s.report := by
    have hparse := parse_json h'
    rw [hjson, parse_json h] at hparse
    exact (Except.ok.inj hparse).symm
  have hdecode := decode_report h'
  rw [hreport, decode_report h] at hdecode
  exact (Except.ok.inj hdecode).symm

def Summary.escaped : Summary where
  diagnostics :=
    [⟨"AA0008", .error, ⟨"src\\a.cs", 4294967295, 0, 1⟩, "'\u0007\"\x7b'", "\x7b\"\n\u001f"⟩,
      ⟨"", .hidden, ⟨"", 0, 0, 0⟩, "\\u0000é\u007f", "\u0000\\"⟩]
  stats := ⟨18446744073709551615, 0, 18446744073709551615, 18446744073709551615, 2⟩

theorem Summary.json_lossless_escaped :
    escaped.stats.Fits ∧ Json.parse escaped.json = .ok escaped.report ∧
      Summary.shape.decode escaped.report = .ok escaped ∧
      (⟨escaped.diagnostics.reverse, escaped.stats⟩ : Summary).json ≠ escaped.json := by
  have hfits : escaped.stats.Fits := ⟨by decide, by decide, by decide, by decide⟩
  obtain ⟨hparse, hdecode, hinjective⟩ := json_lossless hfits
  refine ⟨hfits, hparse, hdecode, fun hjson => ?_⟩
  have hne : (⟨escaped.diagnostics.reverse, escaped.stats⟩ : Summary) ≠ escaped := by decide
  exact hne (hinjective _ hfits hjson)

end LogTemplate
