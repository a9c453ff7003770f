import LogTemplate.Proofs.Template.Balance
import LogTemplate.Proofs.Template.Search
import LogTemplate.Template.Formatter

/-! The placeholders of a text are cut at its braces, so their bodies are texts and no template is
ever rejected. -/

namespace LogTemplate.Template

theorem placeholdersFrom_encode_induction {motive : Nat → List Char → Prop}
    (nil : ∀ offset cs, placeholdersFrom offset (Text.encode cs) = [] → motive offset cs)
    (cons : ∀ offset lead body rest,
      placeholdersFrom offset (Text.encode (lead ++ '{' :: body ++ '}' :: rest)) =
        ⟨offset + (Text.encode lead).length,
          offset + (Text.encode lead).length + 1 + (Text.encode body).length, Text.encode body⟩ ::
        placeholdersFrom (offset + (Text.encode lead).length + 1 + (Text.encode body).length + 1)
          (Text.encode rest) →
      motive (offset + (Text.encode lead).length + 1 + (Text.encode body).length + 1) rest →
      motive offset (lead ++ '{' :: body ++ '}' :: rest))
    (offset : Nat) (cs : List Char) : motive offset cs := by
  generalize htext : Text.encode cs = text
  induction offset, text using placeholdersFrom_induction generalizing cs with
  | nil offset text h => exact nil offset cs (htext ▸ h)
  | cons offset lead body rest _ _ h ih =>
    rw [← htext] at h
    rw [List.append_assoc, List.cons_append] at htext
    obtain ⟨lead, o, tail, rfl, ho, rfl, htail⟩ :=
      Text.exists_of_encode_eq_append_cons (by decide) htext
    obtain ⟨body, c, rest, rfl, hc, rfl, rfl⟩ :=
      Text.exists_of_encode_eq_append_cons (by decide) htail
    obtain rfl : o = '{' := Char.toNat_inj.1 ho
    obtain rfl : c = '}' := Char.toNat_inj.1 hc
    rw [← List.cons_append, ← List.append_assoc] at h ⊢
    exact cons offset lead body rest h (ih rest rfl)

theorem exists_bodies (offset : Nat) (cs : List Char) :
    ∃ bodies : List (List Char),
      (placeholdersFrom offset (Text.encode cs)).map Placeholder.body = bodies.map Text.encode := by
  induction offset, cs using placeholdersFrom_encode_induction with
  | nil offset cs h => exact ⟨[], by rw [h, List.map_nil, List.map_nil]⟩
  | cons offset lead body rest h ih =>
    obtain ⟨bodies, hbodies⟩ := ih
    exact ⟨body :: bodies, by rw [h, List.map_cons, List.map_cons, hbodies]⟩

theorem Placeholder.hole_of_body {p : Placeholder} {body : List Char}
    (h : p.body = Text.encode body) : p.hole = .ok (Hole.ofBody (String.ofList body)) := by
  rw [hole, h, Text.ofBytes?_encode]

theorem mapM_hole {ps : List Placeholder} {bodies : List (List Char)}
    (h : ps.map Placeholder.body = bodies.map Text.encode) :
    ps.mapM Placeholder.hole = .ok (bodies.map fun b => Hole.ofBody (String.ofList b)) := by
  induction ps generalizing bodies with
  | nil =>
    obtain rfl : bodies = [] := List.map_eq_nil_iff.1 h.symm
    rfl
  | cons p ps ih =>
    cases bodies with
    | nil => exact absurd h (by simp)
    | cons body bodies =>
      obtain ⟨hp, hps⟩ := List.cons_eq_cons.1 h
      rw [List.mapM_cons, Placeholder.hole_of_body hp, ih hps]
      rfl

namespace Formatter

theorem ofTemplate_of_bodies {template : String} {bodies : List (List Char)}
    (h : (placeholders template).map Placeholder.body = bodies.map Text.encode) :
    ofTemplate template =
      .ok ⟨template, bodies.map fun b => Hole.ofBody (String.ofList b)⟩ := by
  rw [ofTemplate, mapM_hole h]
  rfl

theorem exists_ofTemplate (template : String) :
    ∃ holes, ofTemplate template = .ok ⟨template, holes⟩ := by
  obtain ⟨bodies, hbodies⟩ := exists_bodies 0 template.toList
  rw [← Text.bytes_eq_encode] at hbodies
  exact ⟨_, ofTemplate_of_bodies hbodies⟩

end Formatter

end LogTemplate.Template
