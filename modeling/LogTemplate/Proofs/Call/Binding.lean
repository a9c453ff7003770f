import Mathlib.Data.List.Induction
import LogTemplate.Call.Site

/-! Which parameter of a method holds the template, and which argument is bound to it. -/

namespace LogTemplate

def IsLast {α : Type} (f : α → Bool) (as : List α) (i : Nat) : Prop :=
  (∃ a, as[i]? = some a ∧ f a = true) ∧ ∀ j, i < j → ∀ a, as[j]? = some a → f a = false

namespace IsLast
variable {α : Type} {f : α → Bool} {as : List α} {a : α} {i : Nat}

theorem le_of_getElem?_concat {b : α} (h : (as ++ [a])[i]? = some b) :
    i ≤ as.length := by
  have hlt := (List.getElem?_eq_some_iff.1 h).1
  rw [List.length_append, List.length_singleton] at hlt
  omega

theorem concat_of_pos (ha : f a = true) : IsLast f (as ++ [a]) i ↔ as.length = i := by
  constructor
  · rintro ⟨⟨b, hb, -⟩, hnone⟩
    by_contra hne
    have hlt : i < as.length := by
      have hle := le_of_getElem?_concat hb
      omega
    have hfalse := hnone _ hlt a List.getElem?_concat_length
    exact Bool.false_ne_true (hfalse.symm.trans ha)
  · rintro rfl
    refine ⟨⟨a, List.getElem?_concat_length, ha⟩, fun j hj b hb => ?_⟩
    have hle := le_of_getElem?_concat hb
    omega

theorem concat_of_neg (ha : f a = false) : IsLast f (as ++ [a]) i ↔ IsLast f as i := by
  have hbefore {j : Nat} (hj : j < as.length) : (as ++ [a])[j]? = as[j]? :=
    List.getElem?_append_left hj
  constructor
  · rintro ⟨⟨b, hb, hfb⟩, hnone⟩
    have hi : i < as.length := by
      have hle := le_of_getElem?_concat hb
      have hne : i ≠ as.length := by
        rintro rfl
        obtain rfl : a = b := Option.some.inj (List.getElem?_concat_length.symm.trans hb)
        exact Bool.false_ne_true (ha.symm.trans hfb)
      omega
    refine ⟨⟨b, by rw [← hbefore hi, hb], hfb⟩, fun j hj c hc => ?_⟩
    have hlt := (List.getElem?_eq_some_iff.1 hc).1
    exact hnone j hj c (by rw [hbefore hlt, hc])
  · rintro ⟨⟨b, hb, hfb⟩, hnone⟩
    have hi := (List.getElem?_eq_some_iff.1 hb).1
    refine ⟨⟨b, by rw [hbefore hi, hb], hfb⟩, fun j hj c hc => ?_⟩
    by_cases hlt : j < as.length
    · exact hnone j hj c (by rw [← hbefore hlt, hc])
    · obtain rfl : j = as.length := by
        have hle := le_of_getElem?_concat hc
        omega
      obtain rfl : a = c := Option.some.inj (List.getElem?_concat_length.symm.trans hc)
      exact ha

theorem getLast?_filter_zipIdx_iff (f : α → Bool) (as : List α) (i : Nat) :
    (as.zipIdx.filter fun (a, _) => f a).getLast?.map Prod.snd = some i ↔ IsLast f as i := by
  induction as using List.reverseRecOn with
  | nil => simp [IsLast]
  | append_singleton as a ih =>
    rw [List.zipIdx_append, List.filter_append, Nat.zero_add, List.zipIdx_singleton]
    cases ha : f a with
    | true =>
      have hsingle : [(a, as.length)].filter (fun (a, _) => f a) = [(a, as.length)] := by simp [ha]
      rw [hsingle, List.getLast?_concat, Option.map_some, Option.some_inj, concat_of_pos ha]
    | false =>
      have hsingle : [(a, as.length)].filter (fun (a, _) => f a) = [] := by simp [ha]
      rw [hsingle, List.append_nil, ih, concat_of_neg ha]

end IsLast

namespace Signature

def HasTemplateAt (s : Signature) (i : Nat) : Prop :=
  ∃ p, s.parameters[i]? = some p ∧ p.type = .string ∧
    (p.name = "message" ∨ p.name = "messageFormat" ∨ p.name = "formatString" ∨
      s.name = "BeginScope" ∧ p.name = "state")

/-- The largest position of a parameter that holds a template. -/
def IsTemplateParameter (s : Signature) (i : Nat) : Prop :=
  s.HasTemplateAt i ∧ ∀ j, i < j → ¬ s.HasTemplateAt j

theorem bearsTemplate_iff (s : Signature) (p : Parameter) :
    s.bearsTemplate p = true ↔ p.type = .string ∧
      (p.name = "message" ∨ p.name = "messageFormat" ∨ p.name = "formatString" ∨
        s.name = "BeginScope" ∧ p.name = "state") := by
  simp [bearsTemplate, templateNames, or_assoc]

theorem hasTemplateAt_iff (s : Signature) (i : Nat) :
    s.HasTemplateAt i ↔ ∃ p, s.parameters[i]? = some p ∧ s.bearsTemplate p = true := by
  simp only [HasTemplateAt, bearsTemplate_iff]

theorem templateParameter?_eq_some_iff (s : Signature) (i : Nat) :
    s.templateParameter? = some i ↔ s.IsTemplateParameter i := by
  rw [templateParameter?, IsLast.getLast?_filter_zipIdx_iff, IsLast, IsTemplateParameter,
    hasTemplateAt_iff]
  refine and_congr_right fun _ => forall_congr' fun j => imp_congr_right fun _ => ?_
  rw [hasTemplateAt_iff]
  simp only [not_exists, not_and, Bool.not_eq_true]

end Signature

variable {ε : Type}

def Argument.Names (a : Argument ε) (i : Nat) : Prop := a.parameter.map UInt64.toNat = some i

instance (a : Argument ε) (i : Nat) : Decidable (a.Names i) :=
  inferInstanceAs (Decidable (_ = _))

/-- The first argument that names the parameter has the value. -/
def Call.Binds (c : Call ε) (i : Nat) (e : ε) : Prop :=
  ∃ before a after, c.arguments = before ++ a :: after ∧ (∀ b ∈ before, ¬ b.Names i) ∧
    a.Names i ∧ a.value = some e

namespace Call

def first? (c : Call ε) (i : Nat) : Option (Argument ε) := c.arguments.find? fun a => a.Names i

theorem argument?_eq_bind_first? (c : Call ε) (i : Nat) :
    c.argument? i = (c.first? i).bind Argument.value := rfl

theorem first?_eq_some_iff {c : Call ε} {i : Nat} {a : Argument ε} : c.first? i = some a ↔
    a.Names i ∧
      ∃ before after, c.arguments = before ++ a :: after ∧ ∀ b ∈ before, ¬ b.Names i := by
  unfold first?
  rw [List.find?_eq_some_iff_append, decide_eq_true_iff]
  simp only [Bool.not_eq_true', decide_eq_false_iff_not]

theorem first?_eq_none_iff {c : Call ε} {i : Nat} :
    c.first? i = none ↔ ∀ a ∈ c.arguments, ¬ a.Names i := by
  unfold first?
  rw [List.find?_eq_none]
  simp only [decide_eq_true_iff]

theorem argument?_eq_some_iff (c : Call ε) (i : Nat) (e : ε) :
    c.argument? i = some e ↔ c.Binds i e := by
  rw [argument?_eq_bind_first?, Option.bind_eq_some_iff]
  constructor
  · rintro ⟨a, hfirst, hvalue⟩
    obtain ⟨ha, before, after, harguments, hbefore⟩ := first?_eq_some_iff.mp hfirst
    exact ⟨before, a, after, harguments, hbefore, ha, hvalue⟩
  · rintro ⟨before, a, after, harguments, hbefore, ha, hvalue⟩
    exact ⟨a, first?_eq_some_iff.mpr ⟨ha, before, after, harguments, hbefore⟩, hvalue⟩

end Call

end LogTemplate
