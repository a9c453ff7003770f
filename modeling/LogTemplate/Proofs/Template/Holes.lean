import LogTemplate.Template.Hole
import Mathlib.Logic.Function.Basic

/-! The split of a placeholder's body loses nothing: its parts with the separators between them are the
body again. There is no other way to split it, if the name holds no separator and the alignment no
colon. -/

namespace LogTemplate.Template

theorem head?_dropWhile_eq_false {α : Type} {p : α → Bool} {as : List α} {a : α}
    (h : (as.dropWhile p).head? = some a) : p a = false := by
  have hnot := List.head?_dropWhile_not p as
  rwa [h] at hnot

theorem ofList_takeWhile_append_dropWhile (p : Char → Bool) (cs : List Char) :
    String.ofList (cs.takeWhile p) ++ String.ofList (cs.dropWhile p) = String.ofList cs := by
  rw [← String.ofList_append, List.takeWhile_append_dropWhile]

theorem eq_comma_or_eq_colon {cs : List Char} {c : Char}
    (h : (cs.dropWhile inName).head? = some c) : c = ',' ∨ c = ':' := by
  have hnot := head?_dropWhile_eq_false h
  by_cases hcomma : c = ','
  · exact .inl hcomma
  · exact .inr (by simpa [inName, hcomma] using hnot)

theorem eq_colon {cs : List Char} {c : Char} (h : (cs.dropWhile inAlignment).head? = some c) :
    c = ':' := by
  simpa [inAlignment] using head?_dropWhile_eq_false h

theorem formatOf_elim {rest : List Char} (h : ∀ c, rest.head? = some c → c = ':') :
    (formatOf rest).elim "" (":" ++ ·) = String.ofList rest := by
  cases rest with
  | nil => rfl
  | cons c rest =>
    obtain rfl : c = ':' := h c rfl
    rw [String.ofList_cons]
    rfl

theorem formatOf_toList (format : Option String) :
    formatOf (format.elim "" (":" ++ ·)).toList = format := by
  cases format with
  | none => rfl
  | some f =>
    rw [Option.elim_some, String.toList_append]
    exact congrArg some String.ofList_toList

theorem head?_format {format : Option String} {c : Char}
    (h : (format.elim "" (":" ++ ·)).toList.head? = some c) : c = ':' := by
  cases format with
  | none => cases h
  | some f =>
    rw [Option.elim_some, String.toList_append] at h
    exact (Option.some.inj h).symm

section

variable {α : Type} {p : α → Bool} {as bs : List α}

theorem takeWhile_append_of_head? (has : ∀ a ∈ as, p a = true)
    (hbs : ∀ b, bs.head? = some b → p b = false) : (as ++ bs).takeWhile p = as := by
  rw [List.takeWhile_append_of_pos has]
  cases bs with
  | nil => exact List.append_nil as
  | cons b bs => rw [List.takeWhile_cons_of_neg (Bool.eq_false_iff.1 (hbs b rfl)), List.append_nil]

theorem dropWhile_append_of_head? (has : ∀ a ∈ as, p a = true)
    (hbs : ∀ b, bs.head? = some b → p b = false) : (as ++ bs).dropWhile p = bs := by
  rw [List.dropWhile_append_of_pos has]
  cases bs with
  | nil => rfl
  | cons b bs => exact List.dropWhile_cons_of_neg (Bool.eq_false_iff.1 (hbs b rfl))

end

namespace Hole

theorem body_ofBody (body : String) : (ofBody body).body = body := by
  rw [ofBody]
  split
  · next rest hrest =>
    calc
      _ = String.ofList (body.toList.takeWhile inName) ++
            ("," ++ String.ofList (rest.takeWhile inAlignment)) ++
            String.ofList (rest.dropWhile inAlignment) :=
          congrArg _ (formatOf_elim fun _ => eq_colon)
      _ = String.ofList (body.toList.takeWhile inName) ++ String.ofList (',' :: rest) := by
          rw [String.append_assoc, String.append_assoc, ofList_takeWhile_append_dropWhile,
            String.ofList_cons]
          rfl
      _ = body := by
          rw [← hrest, ofList_takeWhile_append_dropWhile, String.ofList_toList]
  · next hcomma =>
    have hcolon (c : Char) (hc : (body.toList.dropWhile inName).head? = some c) : c = ':' := by
      refine (eq_comma_or_eq_colon hc).resolve_left ?_
      rintro rfl
      obtain ⟨rest, hrest⟩ := List.head?_eq_some_iff.1 hc
      exact hcomma rest hrest
    calc
      _ = String.ofList (body.toList.takeWhile inName) ++ "" ++
            String.ofList (body.toList.dropWhile inName) :=
          congrArg _ (formatOf_elim hcolon)
      _ = body := by
          rw [String.append_empty, ofList_takeWhile_append_dropWhile, String.ofList_toList]

/-- Separators stand only where they end a part: none in the name, and no colon in the alignment. -/
structure Separated (h : Hole) : Prop where
  name : ∀ c ∈ h.name.toList, c ≠ ',' ∧ c ≠ ':'
  alignment : ∀ a, h.alignment = some a → ':' ∉ a.toList

theorem inName_iff {c : Char} : inName c = true ↔ c ≠ ',' ∧ c ≠ ':' := by simp [inName]

theorem separated_ofBody (body : String) : (ofBody body).Separated := by
  have hname (c : Char) (hc : c ∈ (String.ofList (body.toList.takeWhile inName)).toList) :
      c ≠ ',' ∧ c ≠ ':' := by
    rw [String.toList_ofList] at hc
    exact inName_iff.1 (List.all_eq_true.1 List.all_takeWhile c hc)
  rw [ofBody]
  split
  · next rest _ =>
    refine ⟨hname, fun a ha hmem => ?_⟩
    obtain rfl := Option.some.inj ha
    rw [String.toList_ofList] at hmem
    have hcolon := List.all_eq_true.1 List.all_takeWhile _ hmem
    simp [inAlignment] at hcolon
  · exact ⟨hname, nofun⟩

section

variable {body : String} {name alignment rest : List Char}

theorem ofBody_of_comma (hname : ∀ c ∈ name, c ≠ ',' ∧ c ≠ ':') (halignment : ':' ∉ alignment)
    (hrest : ∀ c, rest.head? = some c → c = ':')
    (hbody : body.toList = name ++ ',' :: (alignment ++ rest)) :
    ofBody body = ⟨String.ofList name, some (String.ofList alignment), formatOf rest⟩ := by
  have hname (c : Char) (hc : c ∈ name) : inName c = true := inName_iff.2 (hname c hc)
  have hcomma (c : Char) (hc : (',' :: (alignment ++ rest)).head? = some c) : inName c = false := by
    obtain rfl := Option.some.inj hc
    rfl
  have halignment (c : Char) (hc : c ∈ alignment) : inAlignment c = true := by
    simpa [inAlignment] using ne_of_mem_of_not_mem hc halignment
  have hcolon (c : Char) (hc : rest.head? = some c) : inAlignment c = false := by
    rw [hrest c hc]
    rfl
  rw [ofBody, hbody, takeWhile_append_of_head? hname hcomma, dropWhile_append_of_head? hname hcomma]
  change Hole.mk _ (some (String.ofList ((alignment ++ rest).takeWhile inAlignment)))
    (formatOf ((alignment ++ rest).dropWhile inAlignment)) = _
  rw [takeWhile_append_of_head? halignment hcolon, dropWhile_append_of_head? halignment hcolon]

theorem ofBody_of_no_comma (hname : ∀ c ∈ name, c ≠ ',' ∧ c ≠ ':')
    (hrest : ∀ c, rest.head? = some c → c = ':') (hbody : body.toList = name ++ rest) :
    ofBody body = ⟨String.ofList name, none, formatOf rest⟩ := by
  have hname (c : Char) (hc : c ∈ name) : inName c = true := inName_iff.2 (hname c hc)
  have hcolon (c : Char) (hc : rest.head? = some c) : inName c = false := by
    rw [hrest c hc]
    rfl
  rw [ofBody, hbody, takeWhile_append_of_head? hname hcolon, dropWhile_append_of_head? hname hcolon]
  split
  · next rest' => exact absurd (hrest ',' rfl) (by decide)
  · rfl

end

theorem ofBody_body {h : Hole} (hs : h.Separated) : ofBody h.body = h := by
  obtain ⟨name, alignment, format⟩ := h
  have hformat (c : Char) (hc : (format.elim "" (":" ++ ·)).toList.head? = some c) : c = ':' :=
    head?_format hc
  cases alignment with
  | none =>
    have hbody : (body ⟨name, none, format⟩).toList =
        name.toList ++ (format.elim "" (":" ++ ·)).toList := by
      rw [body, String.toList_append, Option.elim_none, String.append_empty]
    rw [ofBody_of_no_comma hs.name hformat hbody, formatOf_toList, String.ofList_toList]
  | some a =>
    have hbody : (body ⟨name, some a, format⟩).toList =
        name.toList ++ ',' :: (a.toList ++ (format.elim "" (":" ++ ·)).toList) := by
      rw [body, Option.elim_some, String.toList_append, String.toList_append, String.toList_append,
        List.append_assoc]
      rfl
    rw [ofBody_of_comma hs.name (hs.alignment a rfl) hformat hbody, formatOf_toList,
      String.ofList_toList, String.ofList_toList]

theorem ofBody_eq_iff {body : String} {h : Hole} :
    ofBody body = h ↔ h.Separated ∧ h.body = body := by
  constructor
  · rintro rfl
    exact ⟨separated_ofBody body, body_ofBody body⟩
  · rintro ⟨hs, rfl⟩
    exact ofBody_body hs

/-- Bodies and holes with separators in their places are the same thing: the split of a body is the
one such hole that is written like the body. -/
theorem split_bijective :
    Function.Bijective (fun body => (⟨ofBody body, separated_ofBody body⟩ : { h // Separated h })) ∧
      ∀ (body : String) (h : Hole), ofBody body = h ↔ h.Separated ∧ h.body = body := by
  refine ⟨Function.bijective_iff_has_inverse.mpr ⟨fun h => h.1.body, ?_, ?_⟩, fun _ _ => ofBody_eq_iff⟩
  · exact body_ofBody
  · exact fun h => Subtype.ext (ofBody_body h.2)

example : ofBody "a:b,c:d" = ⟨"a", none, some "b,c:d"⟩ := by decide +kernel

end Hole

end LogTemplate.Template
