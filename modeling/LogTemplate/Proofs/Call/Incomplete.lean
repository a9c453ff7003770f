import LogTemplate.Proofs.Call.Arguments

/-! Arguments that lack a side. The first argument that names the template parameter decides also where
it has no value: the call is unbound then, whatever values come later. So arguments that lack a side
can be left out of a call, but for one that hides another in this way. -/

namespace LogTemplate

variable {ε : Type}

def Argument.isComplete (a : Argument ε) : Bool := a.parameter.isSome && a.value.isSome

theorem Argument.Names.isComplete_iff {a : Argument ε} {i : Nat} (h : a.Names i) :
    a.isComplete = true ↔ a.value ≠ none := by
  obtain ⟨u, hu, -⟩ := Option.map_eq_some_iff.mp h
  unfold isComplete
  rw [hu, Option.isSome_some, Bool.true_and, Option.isSome_iff_ne_none]

namespace Call

def completed (c : Call ε) : Call ε := { c with arguments := c.arguments.filter Argument.isComplete }

/-- The first argument that names the parameter has no value, and a later one that names it has. -/
def Hides (c : Call ε) (i : Nat) : Prop :=
  ∃ before a after, c.arguments = before ++ a :: after ∧ (∀ b ∈ before, ¬ b.Names i) ∧
    a.Names i ∧ a.value = none ∧ ∃ b ∈ after, b.Names i ∧ b.value ≠ none

variable {c : Call ε} {i : Nat} {e : ε}

theorem hides_iff : c.Hides i ↔
    c.argument? i = none ∧ ∃ a ∈ c.arguments, a.Names i ∧ a.value ≠ none := by
  constructor
  · rintro ⟨before, a, after, harguments, hbefore, ha, hvalue, b, hb, hnames⟩
    have hfirst := first?_eq_some_iff.mpr ⟨ha, before, after, harguments, hbefore⟩
    refine ⟨by rw [argument?_eq_bind_first?, hfirst, Option.bind_some, hvalue], b, ?_, hnames⟩
    rw [harguments]
    exact List.mem_append_right before (List.mem_cons_of_mem a hb)
  · rintro ⟨hnone, b, hb, hnames, hvalue⟩
    rw [argument?_eq_bind_first?] at hnone
    cases hfirst : c.first? i with
    | none => exact absurd hnames (first?_eq_none_iff.mp hfirst b hb)
    | some a =>
      rw [hfirst, Option.bind_some] at hnone
      obtain ⟨ha, before, after, harguments, hbefore⟩ := first?_eq_some_iff.mp hfirst
      refine ⟨before, a, after, harguments, hbefore, ha, hnone, b, ?_, hnames, hvalue⟩
      rw [harguments] at hb
      rcases List.mem_append.mp hb with hb | hb
      · exact absurd hnames (hbefore b hb)
      · rcases List.mem_cons.mp hb with rfl | hb
        · exact absurd hnone hvalue
        · exact hb

theorem argument?_completed_of_eq_some (h : c.argument? i = some e) :
    c.completed.argument? i = some e := by
  obtain ⟨before, a, after, harguments, hbefore, ha, hvalue⟩ := (c.argument?_eq_some_iff i e).mp h
  have hcomplete : a.isComplete = true := by
    rw [ha.isComplete_iff, hvalue]
    exact Option.some_ne_none e
  refine (c.completed.argument?_eq_some_iff i e).mpr
    ⟨before.filter Argument.isComplete, a, after.filter Argument.isComplete, ?_, ?_, ha, hvalue⟩
  · unfold completed
    dsimp only
    rw [harguments, List.filter_append, List.filter_cons_of_pos hcomplete]
  · exact fun b hb => hbefore b (List.mem_of_mem_filter hb)

theorem argument?_completed_eq_none_iff :
    c.completed.argument? i = none ↔ ∀ a ∈ c.arguments, a.Names i → a.value = none := by
  rw [argument?_eq_bind_first?]
  constructor
  · intro h a ha hnames
    by_contra hvalue
    have hkept : a ∈ c.completed.arguments :=
      List.mem_filter.mpr ⟨ha, hnames.isComplete_iff.mpr hvalue⟩
    cases hfirst : c.completed.first? i with
    | none => exact first?_eq_none_iff.mp hfirst a hkept hnames
    | some b =>
      rw [hfirst, Option.bind_some] at h
      obtain ⟨hb, before, after, harguments, -⟩ := first?_eq_some_iff.mp hfirst
      have hmem : b ∈ c.completed.arguments := by
        rw [harguments]
        exact List.mem_append_right before (List.mem_cons_self ..)
      exact hb.isComplete_iff.mp (List.of_mem_filter hmem) h
  · intro h
    have hnone : c.completed.first? i = none := by
      refine first?_eq_none_iff.mpr fun a ha hnames => ?_
      obtain ⟨hmem, hcomplete⟩ := List.mem_filter.mp ha
      exact hnames.isComplete_iff.mp hcomplete (h a hmem hnames)
    rw [hnone, Option.bind_none]

theorem argument?_completed_eq_iff : c.completed.argument? i = c.argument? i ↔ ¬ c.Hides i := by
  rw [hides_iff]
  cases h : c.argument? i with
  | some e => exact iff_of_true (argument?_completed_of_eq_some h) fun hides => nomatch hides.1
  | none =>
    rw [argument?_completed_eq_none_iff]
    push Not
    exact ⟨fun hall _ a ha hnames => hall a ha hnames, fun hall a ha hnames => hall rfl a ha hnames⟩

theorem argument?_eq_none_iff : c.argument? i = none ↔
    (∀ a ∈ c.arguments, a.Names i → a.value = none) ∨ c.Hides i := by
  rw [← argument?_completed_eq_none_iff, hides_iff]
  constructor
  · intro h
    by_cases hcompleted : c.completed.argument? i = none
    · exact .inl hcompleted
    · rw [argument?_completed_eq_none_iff] at hcompleted
      push Not at hcompleted
      exact .inr ⟨h, hcompleted⟩
  · rintro (h | h)
    · cases hargument : c.argument? i with
      | none => rfl
      | some e =>
        rw [argument?_completed_of_eq_some hargument] at h
        cases h
    · exact h.1

variable [Host ε]

theorem resolve_eq_unbound_iff : c.resolve = .unbound ↔
    ∃ i, c.signature.IsTemplateParameter i ∧ c.argument? i = none := by
  simp only [← Signature.templateParameter?_eq_some_iff]
  unfold resolve
  cases hi : c.signature.templateParameter? with
  | none => simp
  | some i =>
    cases ha : c.argument? i with
    | none => simp [ha]
    | some e => cases ht : textOf e <;> simp [ha, ht]

theorem resolve_completed_eq_iff : c.completed.resolve = c.resolve ↔
    ∀ i, c.signature.IsTemplateParameter i → ¬ c.Hides i := by
  constructor
  · intro h i hi hhides
    obtain ⟨hnone, a, ha, hnames, hvalue⟩ := hides_iff.mp hhides
    rw [resolve_eq_unbound_iff.mpr ⟨i, hi, hnone⟩] at h
    obtain ⟨j, hj, hcompleted⟩ := resolve_eq_unbound_iff.mp h
    have hsame : some i = some j := by
      rw [← (c.signature.templateParameter?_eq_some_iff i).mpr hi]
      exact (c.signature.templateParameter?_eq_some_iff j).mpr hj
    obtain rfl := Option.some.inj hsame
    exact hvalue (argument?_completed_eq_none_iff.mp hcompleted a ha hnames)
  · exact fun h => resolve_congr rfl fun i hi => argument?_completed_eq_iff.mpr (h i hi)

end Call

namespace Surface

variable [Host ε] {s : Surface} {c : Call ε}

theorem classify_eq_argumentNotBound_iff : s.classify c = .notApplicable .argumentNotBound ↔
    c.signature.declaringType ∈ s.types ∧ c.resolve = .unbound := by
  by_cases hin : c.signature.declaringType ∈ s.types
  · have hcontains : s.contains c.signature.declaringType = true := List.contains_iff_mem.mpr hin
    rw [classify, if_pos hcontains, and_iff_right hin]
    cases c.resolve with
    | noTemplateParameter | unbound | unresolvable => simp
    | resolved text e =>
      dsimp only
      rw [Verdict.ofTemplate_eq]
      split <;> simp
  · rw [classify_of_outside hin]
    exact iff_of_false (by simp) fun h => hin h.1

theorem classify_completed_eq_iff : s.classify c.completed = s.classify c ↔
    (c.signature.declaringType ∈ s.types → ∀ i, c.signature.IsTemplateParameter i → ¬ c.Hides i) := by
  constructor
  · intro h hin i hi hhides
    have hunbound := Call.resolve_eq_unbound_iff.mpr ⟨i, hi, (Call.hides_iff.mp hhides).1⟩
    have hverdict := classify_eq_argumentNotBound_iff.mpr ⟨hin, hunbound⟩
    rw [← h] at hverdict
    have hcompleted := (classify_eq_argumentNotBound_iff.mp hverdict).2
    exact Call.resolve_completed_eq_iff.mp (hcompleted.trans hunbound.symm) i hi hhides
  · intro h
    by_cases hin : c.signature.declaringType ∈ s.types
    · exact classify_congr rfl (Call.resolve_completed_eq_iff.mpr (h hin))
    · have hcompleted : s.classify c.completed = .notApplicable .outsideSurface :=
        classify_of_outside hin
      rw [hcompleted, classify_of_outside hin]

end Surface

/-- To drop the arguments that lack a side changes what is bound, and on the surface the verdict,
exactly if the first argument for the template parameter has no value and hides a later one that has.
Else a call is unbound only if no argument names that parameter and has a value, as it is always
once the others are dropped. -/
theorem Call.completed_transparent_iff [Host ε] (c : Call ε) :
    (c.completed.resolve = c.resolve ↔
      ∀ i, c.signature.IsTemplateParameter i → ¬ c.Hides i) ∧
    (∀ s : Surface, s.classify c.completed = s.classify c ↔
      (c.signature.declaringType ∈ s.types →
        ∀ i, c.signature.IsTemplateParameter i → ¬ c.Hides i)) ∧
    (c.resolve = .unbound ↔ ∃ i, c.signature.IsTemplateParameter i ∧
      ((∀ a ∈ c.arguments, a.Names i → a.value = none) ∨ c.Hides i)) ∧
    (c.completed.resolve = .unbound ↔ ∃ i, c.signature.IsTemplateParameter i ∧
      ∀ a ∈ c.arguments, a.Names i → a.value = none) := by
  refine ⟨resolve_completed_eq_iff, fun s => Surface.classify_completed_eq_iff, ?_, ?_⟩
  · simp only [resolve_eq_unbound_iff, argument?_eq_none_iff]
  · simp only [resolve_eq_unbound_iff, argument?_completed_eq_none_iff]
    rfl

def hidingCall : Call Expr where
  signature := ⟨"Log", "T", [⟨"message", .string⟩]⟩
  arguments := [⟨some 0, none⟩, ⟨some 0, some (.string "\x7b" default)⟩]

/-- The argument that lacks a value makes the call unbound; without it an invalid template is
reported. -/
theorem classify_hidingCall :
    hidingCall.resolve = .unbound ∧
    hidingCall.completed.resolve = .resolved "\x7b" (.string "\x7b" default) ∧
    Surface.classify ⟨["T"]⟩ hidingCall = .notApplicable .argumentNotBound ∧
    Surface.classify ⟨["T"]⟩ hidingCall.completed
      = .invalid (.invalidTemplate default "\x7b") := by
  have hresolved : hidingCall.completed.resolve = .resolved "\x7b" (.string "\x7b" default) :=
    (Call.resolve_eq_resolved_iff _ _ _).mpr
      ⟨0, (Signature.templateParameter?_eq_some_iff _ _).mp rfl,
        (Call.argument?_eq_some_iff _ _ _).mp rfl, foldText_of_text rfl⟩
  have hinvalid : ¬ Template.isValid "\x7b" = true := by decide +kernel
  have hcontains : Surface.contains ⟨["T"]⟩ hidingCall.completed.signature.declaringType = true := rfl
  refine ⟨rfl, hresolved, rfl, ?_⟩
  rw [Surface.classify, if_pos hcontains, hresolved]
  dsimp only
  rw [Verdict.ofTemplate_eq, if_neg hinvalid]
  rfl

end LogTemplate
