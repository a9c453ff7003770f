import Mathlib.Data.List.Basic
import LogTemplate.Report
import LogTemplate.Text.Split
import LogTemplate.Total

/-! The plain report as lines. Texts stand in it as they are, so a diagnostic has exactly one line if
none of its texts holds a newline, and more if one of them does. -/

namespace LogTemplate

namespace Text

def pieces (text : String) : List String := (splitOn '\n' text.toList).map String.ofList

/-- The lines of a text. A newline ends a line, so what is behind the last one is a line only if it is
not empty. -/
def lines (text : String) : List String :=
  if (pieces text).getLast? = some "" then (pieces text).dropLast else pieces text

def newlines (text : String) : Nat := text.toList.count '\n'

theorem newlines_eq_zero_iff {text : String} : newlines text = 0 ↔ '\n' ∉ text.toList :=
  List.count_eq_zero

theorem pieces_of_not_mem {text : String} (h : '\n' ∉ text.toList) : pieces text = [text] := by
  unfold pieces
  rw [splitOn_of_not_mem h, List.map_singleton, String.ofList_toList]

theorem length_pieces (text : String) : (pieces text).length = newlines text + 1 := by
  unfold pieces
  rw [List.length_map, length_splitOn]
  rfl

theorem pieces_append_newline (a b : String) : pieces (a ++ "\n" ++ b) = pieces a ++ pieces b := by
  have hnewline : (a ++ "\n" ++ b).toList = a.toList ++ '\n' :: b.toList := by
    rw [String.toList_append, String.toList_append, List.append_assoc]
    rfl
  unfold pieces
  rw [hnewline, splitOn_append_separator, List.map_append]

variable {texts : List String}

theorem pieces_join_newline :
    pieces (String.join (texts.map (· ++ "\n"))) = texts.flatMap pieces ++ [""] := by
  induction texts with
  | nil => rfl
  | cons text rest ih =>
    rw [List.map_cons, String.join_cons, pieces_append_newline, ih, List.flatMap_cons, List.append_assoc]

theorem lines_join_newline : lines (String.join (texts.map (· ++ "\n"))) = texts.flatMap pieces := by
  unfold lines
  rw [pieces_join_newline, if_pos List.getLast?_concat, List.dropLast_concat]

theorem length_flatMap_pieces :
    (texts.flatMap pieces).length = texts.length + total newlines texts := by
  rw [length_flatMap]
  induction texts with
  | nil => rfl
  | cons text rest ih =>
    rw [total_cons, total_cons, List.length_cons, ih, length_pieces]
    omega

theorem flatMap_pieces_of_forall (h : ∀ text ∈ texts, '\n' ∉ text.toList) :
    texts.flatMap pieces = texts := by
  induction texts with
  | nil => rfl
  | cons text rest ih =>
    obtain ⟨htext, hrest⟩ := List.forall_mem_cons.mp h
    rw [List.flatMap_cons, pieces_of_not_mem htext, ih hrest]
    rfl

theorem length_flatMap_pieces_eq_iff :
    (texts.flatMap pieces).length = texts.length ↔ ∀ text ∈ texts, '\n' ∉ text.toList := by
  rw [length_flatMap_pieces, Nat.add_eq_left, total_eq_zero_iff]
  simp only [newlines_eq_zero_iff]

end Text

/-! ### Lines of a diagnostic -/

theorem newline_not_mem_toDigits (n : Nat) : '\n' ∉ Nat.toDigits 10 n := by
  intro h
  have hdigit : ('\n').isDigit = true := Nat.isDigit_of_mem_toDigits (by decide) (by decide) h
  exact absurd hdigit (by decide)

namespace Diagnostic

def item (d : Diagnostic) : String := "- " ++ d.display

/-- None of the texts that a diagnostic is displayed with holds a newline. -/
structure IsUnbroken (d : Diagnostic) : Prop where
  file : '\n' ∉ d.location.file.toList
  ruleId : '\n' ∉ d.ruleId.toList
  message : '\n' ∉ d.message.toList

theorem newline_not_mem_item_iff (d : Diagnostic) : '\n' ∉ d.item.toList ↔ d.IsUnbroken := by
  have hitem : d.item = "- " ++ (d.location.file ++ ":" ++ d.location.line.toNat.repr ++ ":" ++
      d.location.column.toNat.repr ++ ": " ++ d.severity.name ++ "[" ++ d.ruleId ++ "]: " ++
      d.message) := rfl
  have hname : '\n' ∉ d.severity.name.toList := by cases d.severity <;> decide
  have hline := newline_not_mem_toDigits d.location.line.toNat
  have hcolumn := newline_not_mem_toDigits d.location.column.toNat
  have hmem : '\n' ∈ d.item.toList ↔
      '\n' ∈ d.location.file.toList ∨ '\n' ∈ d.ruleId.toList ∨ '\n' ∈ d.message.toList := by
    simp [hitem, hname, hline, hcolumn]
  rw [hmem, not_or, not_or]
  exact ⟨fun h => ⟨h.1, h.2.1, h.2.2⟩, fun h => ⟨h.file, h.ruleId, h.message⟩⟩

theorem message_invalidTemplate (text : String) : Rule.invalidTemplate.message text
    = "Logging message template is invalid: '" ++ text ++ "'" := by
  rw [← String.toList_inj]
  simp [Rule.message, Rule.invalidTemplate, Text.replaceFirst]

theorem isUnbroken_invalidTemplate_iff (l : Location) (text : String) :
    (invalidTemplate l text).IsUnbroken ↔ '\n' ∉ l.file.toList ∧ '\n' ∉ text.toList := by
  have hmessage : '\n' ∈ (invalidTemplate l text).message.toList ↔ '\n' ∈ text.toList := by
    rw [invalidTemplate, message_invalidTemplate]
    simp
  have hrule : '\n' ∉ Rule.invalidTemplate.id.toList := by decide
  exact ⟨fun h => ⟨h.file, mt hmessage.mpr h.message⟩, fun h => ⟨h.1, hrule, mt hmessage.mp h.2⟩⟩

end Diagnostic

/-! ### Lines of the report -/

namespace Summary

def heading (s : Summary) : String :=
  if s.isClean then "No invalid message templates found."
  else "INVALID MESSAGE TEMPLATES (" ++ s.diagnostics.length.repr ++ "):"

def counts (s : Summary) : String :=
  "Checked " ++ s.stats.callSites.toNat.repr ++ " call site(s) in " ++ s.stats.analyzedFiles.repr ++
    " dump file(s) (" ++ s.stats.cachedFiles.repr ++ " cached)."

def items (s : Summary) : List String := s.heading :: s.diagnostics.map Diagnostic.item ++ [s.counts]

theorem plain_eq (s : Summary) : s.plain = String.join (s.items.map (· ++ "\n")) := by
  have hheading : (if s.isClean then "No invalid message templates found.\n"
      else "INVALID MESSAGE TEMPLATES (" ++ s.diagnostics.length.repr ++ "):\n")
        = s.heading ++ "\n" := by
    unfold heading
    split
    · rfl
    · exact (@String.append_assoc _ "):" "\n").symm
  have hitems : (s.diagnostics.map fun d => "- " ++ d.display ++ "\n")
      = (s.diagnostics.map Diagnostic.item).map (· ++ "\n") := by
    rw [List.map_map]
    rfl
  have hcounts : "Checked " ++ s.stats.callSites.toNat.repr ++ " call site(s) in " ++
      s.stats.analyzedFiles.repr ++ " dump file(s)" ++ (" (" ++ s.stats.cachedFiles.repr ++
      " cached).\n") = s.counts ++ "\n" := by
    rw [← String.toList_inj]
    simp [counts]
  have hplain : s.plain = s.heading ++ "\n"
      ++ String.join ((s.diagnostics.map Diagnostic.item).map (· ++ "\n")) ++ (s.counts ++ "\n") := by
    rw [← hheading, ← hitems, ← hcounts]
    rfl
  rw [hplain, items, List.cons_append, List.map_cons, List.map_append, String.join_cons,
    String.join_append, String.append_assoc]
  rfl

theorem newline_not_mem_heading (s : Summary) : '\n' ∉ s.heading.toList := by
  have hcount := newline_not_mem_toDigits s.diagnostics.length
  unfold heading
  split
  · decide
  · simp [hcount]

theorem newline_not_mem_counts (s : Summary) : '\n' ∉ s.counts.toList := by
  have hcalls := newline_not_mem_toDigits s.stats.callSites.toNat
  have hanalyzed := newline_not_mem_toDigits s.stats.analyzedFiles
  have hcached := newline_not_mem_toDigits s.stats.cachedFiles
  simp [counts, hcalls, hanalyzed, hcached]

theorem forall_mem_items_iff (s : Summary) :
    (∀ text ∈ s.items, '\n' ∉ text.toList) ↔ ∀ d ∈ s.diagnostics, d.IsUnbroken := by
  have hheading := s.newline_not_mem_heading
  have hcounts := s.newline_not_mem_counts
  rw [items, List.forall_mem_append, List.forall_mem_cons, List.forall_mem_singleton,
    List.forall_mem_map, and_iff_right hheading, and_iff_left hcounts]
  simp only [Diagnostic.newline_not_mem_item_iff]

theorem lines_plain_eq (s : Summary) : Text.lines s.plain = s.items.flatMap Text.pieces := by
  rw [plain_eq, Text.lines_join_newline]

theorem flatMap_pieces_items (s : Summary) : s.items.flatMap Text.pieces
    = s.heading :: s.diagnostics.flatMap (fun d => Text.pieces d.item) ++ [s.counts] := by
  rw [items, List.flatMap_append, List.flatMap_cons, List.flatMap_singleton, List.flatMap_map,
    Text.pieces_of_not_mem s.newline_not_mem_heading, Text.pieces_of_not_mem s.newline_not_mem_counts]
  rfl

theorem length_items (s : Summary) : s.items.length = 1 + s.diagnostics.length + 1 := by
  rw [items, List.length_append, List.length_cons, List.length_map, List.length_singleton,
    Nat.add_comm s.diagnostics.length]

theorem total_newlines_items (s : Summary) : total Text.newlines s.items
    = total (fun d => Text.newlines d.item) s.diagnostics := by
  have hheading := Text.newlines_eq_zero_iff.mpr s.newline_not_mem_heading
  have hcounts := Text.newlines_eq_zero_iff.mpr s.newline_not_mem_counts
  rw [items, total_append, total_cons, total_cons, total_nil, total_map, hheading, hcounts]
  omega

/-- The report has the lines of its heading, of each diagnostic in order and of its counts, one more
than there are of these for each newline in a diagnostic. So each diagnostic has one line, as it is
displayed, exactly if none of them is broken, and what is reported is unbroken if the name of the
file and the template are. -/
theorem lines_plain (s : Summary) :
    Text.lines s.plain
        = s.heading :: s.diagnostics.flatMap (fun d => Text.pieces d.item) ++ [s.counts] ∧
      (Text.lines s.plain).length = 1 + s.diagnostics.length + 1
        + total (fun d => Text.newlines d.item) s.diagnostics ∧
      (Text.lines s.plain = s.heading :: s.diagnostics.map Diagnostic.item ++ [s.counts] ↔
        ∀ d ∈ s.diagnostics, d.IsUnbroken) ∧
      ((Text.lines s.plain).length = 1 + s.diagnostics.length + 1 ↔
        ∀ d ∈ s.diagnostics, d.IsUnbroken) ∧
      ∀ l text, (Diagnostic.invalidTemplate l text).IsUnbroken ↔
        '\n' ∉ l.file.toList ∧ '\n' ∉ text.toList := by
  have hlength : (Text.lines s.plain).length = s.items.length ↔ ∀ d ∈ s.diagnostics, d.IsUnbroken := by
    rw [lines_plain_eq, Text.length_flatMap_pieces_eq_iff, forall_mem_items_iff]
  refine ⟨s.lines_plain_eq.trans s.flatMap_pieces_items, ?_, ⟨fun h => ?_, fun h => ?_⟩, ?_,
    Diagnostic.isUnbroken_invalidTemplate_iff⟩
  · rw [lines_plain_eq, Text.length_flatMap_pieces, length_items, total_newlines_items]
  · exact hlength.mp (congrArg List.length h)
  · rw [lines_plain_eq]
    exact Text.flatMap_pieces_of_forall (s.forall_mem_items_iff.mpr h)
  · rw [← length_items]
    exact hlength

def broken : Summary where
  diagnostics := [.invalidTemplate ⟨"a.cs", 1, 1, 0⟩ "\x7b\n"]
  stats := ⟨1, 1, 0, 1, 1⟩

theorem lines_plain_broken :
    Text.lines broken.plain = ["INVALID MESSAGE TEMPLATES (1):",
      "- a.cs:1:1: error[AA0008]: Logging message template is invalid: '\x7b", "'",
      "Checked 1 call site(s) in 1 dump file(s) (0 cached)."] ∧
    (Text.lines broken.plain).length ≠ 1 + broken.diagnostics.length + 1 := by
  rw [lines_plain_eq]
  decide +kernel

end Summary

end LogTemplate
