import LogTemplate.Proofs.Call.Reporting
import LogTemplate.Proofs.Template.Holes

/-! A text, valid or not, and the holes that are found in it. The text is literal text and holes by
turns, each hole between the two braces that were found, so the formatter takes every text and loses
nothing of it. -/

namespace LogTemplate.Template

/-- Literal text, and then each hole between braces with the literal text behind it. -/
def assemble (lead : String) : List (Hole × String) → String
  | [] => lead
  | (h, gap) :: pieces => lead ++ "\x7b" ++ h.body ++ "\x7d" ++ assemble gap pieces

def bracePositions (offset : Nat) (lead : String) : List (Hole × String) → List (Nat × Nat)
  | [] => []
  | (h, gap) :: pieces =>
    let opening := offset + (Text.bytes lead).length
    let closing := opening + 1 + (Text.bytes h.body).length
    (opening, closing) :: bracePositions (closing + 1) gap pieces

theorem ofList_placeholder (lead body rest : List Char) :
    String.ofList lead ++ "\x7b" ++ String.ofList body ++ "\x7d" ++ String.ofList rest =
      String.ofList (lead ++ '{' :: body ++ '}' :: rest) := by
  have hopening : "\x7b" = String.ofList ['{'] := rfl
  have hclosing : "\x7d" = String.ofList ['}'] := rfl
  rw [hopening, hclosing]
  simp only [← String.ofList_append, List.append_assoc, List.cons_append, List.nil_append]

theorem exists_pieces (offset : Nat) (cs : List Char) :
    ∃ lead pieces, assemble lead pieces = String.ofList cs ∧
      (placeholdersFrom offset (Text.encode cs)).map (fun p => (p.opening, p.closing)) =
        bracePositions offset lead pieces ∧
      (placeholdersFrom offset (Text.encode cs)).mapM Placeholder.hole =
        .ok (pieces.map Prod.fst) := by
  induction offset, cs using placeholdersFrom_encode_induction with
  | nil offset cs h =>
    refine ⟨String.ofList cs, [], rfl, ?_, ?_⟩
    · rw [h]
      rfl
    · rw [h]
      rfl
  | cons offset lead body rest h ih =>
    obtain ⟨gap, pieces, htext, hpositions, hholes⟩ := ih
    have hbody := Hole.body_ofBody (String.ofList body)
    refine ⟨String.ofList lead, (Hole.ofBody (String.ofList body), gap) :: pieces, ?_, ?_, ?_⟩
    · rw [assemble, hbody, htext]
      exact ofList_placeholder lead body rest
    · rw [h, List.map_cons, hpositions, bracePositions, hbody, Text.bytes_ofList, Text.bytes_ofList]
    · rw [h, List.mapM_cons, Placeholder.hole_of_body rfl, hholes]
      rfl

/-- The formatter takes every text, so no call is passed over on its account. The text is made of its
holes and the literal texts around them, and the braces of each hole are those that were found. -/
theorem ofTemplate_assembles (s : String) :
    (∃ lead pieces, Formatter.ofTemplate s = .ok ⟨s, pieces.map Prod.fst⟩ ∧
      assemble lead pieces = s ∧
      (placeholders s).map (fun p => (p.opening, p.closing)) = bracePositions 0 lead pieces) ∧
    ∀ (ε : Type) [Host ε] (surface : Surface) (c : Call ε),
      surface.classify c ≠ .notApplicable .formatterRejected := by
  obtain ⟨lead, pieces, htext, hpositions, hholes⟩ := exists_pieces 0 s.toList
  rw [← Text.bytes_eq_encode] at hpositions hholes
  refine ⟨⟨lead, pieces, ?_, htext.trans String.ofList_toList, hpositions⟩, ?_⟩
  · rw [Formatter.ofTemplate, placeholders, hholes]
    rfl
  · exact fun ε _ surface c => surface.classify_ne_formatterRejected c

end LogTemplate.Template
