import Mathlib.Data.List.Forall2
import LogTemplate.Proofs.Call.Reporting

/-! Which arguments of a call count. The verdict depends on the method and on the first argument that
names the template parameter: no other argument has a say, nor has their order where they name
different parameters, nor the place of the call. -/

namespace LogTemplate

theorem find?_eq_of_perm {α : Type} {p : α → Bool} {as bs : List α}
    (hone : as.Pairwise fun a b => ¬ (p a = true ∧ p b = true)) (h : as.Perm bs) :
    as.find? p = bs.find? p := by
  have hfiltered : (as.filter p).Perm (bs.filter p) := h.filter p
  have hfew := hone.filter p
  rw [← List.head?_filter, ← List.head?_filter]
  cases has : as.filter p with
  | nil =>
    rw [has] at hfiltered
    rw [List.nil_perm.mp hfiltered]
  | cons a rest =>
    rw [has] at hfiltered hfew
    cases rest with
    | nil => rw [List.singleton_perm.mp hfiltered]
    | cons b rest =>
      -- both of them satisfy the predicate, for they were filtered by it
      have hp : ∀ x ∈ a :: b :: rest, p x = true := fun x hx => List.of_mem_filter (has ▸ hx)
      obtain ⟨ha, hb⟩ := List.forall_mem_cons.mp hp
      exact absurd ⟨ha, (List.forall_mem_cons.mp hb).1⟩
        ((List.pairwise_cons.mp hfew).1 b (List.mem_cons_self ..))

namespace Call

variable {ε : Type} {c d : Call ε}

theorem pairwise_not_names (h : (c.arguments.filterMap Argument.parameter).Nodup) (i : Nat) :
    c.arguments.Pairwise fun a b => ¬ (a.Names i ∧ b.Names i) := by
  refine (List.pairwise_filterMap.mp h).imp ?_
  rintro a b hne ⟨ha, hb⟩
  obtain ⟨u, hu, hui⟩ := Option.map_eq_some_iff.mp ha
  obtain ⟨v, hv, hvi⟩ := Option.map_eq_some_iff.mp hb
  exact hne u hu v hv (UInt64.toNat_inj.mp (hui.trans hvi.symm))

theorem first?_eq_of_perm (hparameters : (c.arguments.filterMap Argument.parameter).Nodup)
    (h : c.arguments.Perm d.arguments) (i : Nat) : c.first? i = d.first? i := by
  refine find?_eq_of_perm ((pairwise_not_names hparameters i).imp fun hnot hboth => hnot ?_) h
  exact ⟨of_decide_eq_true hboth.1, of_decide_eq_true hboth.2⟩

variable [Host ε]

theorem resolve_congr (hsignature : c.signature = d.signature)
    (hargument : ∀ i, c.signature.IsTemplateParameter i → c.argument? i = d.argument? i) :
    c.resolve = d.resolve := by
  unfold resolve
  rw [← hsignature]
  cases hi : c.signature.templateParameter? with
  | none => rfl
  | some i =>
    dsimp only
    rw [hargument i ((c.signature.templateParameter?_eq_some_iff i).mp hi)]

end Call

namespace Surface

variable {ε : Type} [Host ε] {s : Surface} {c d : Call ε}

theorem classify_congr (hsignature : c.signature = d.signature) (h : c.resolve = d.resolve) :
    s.classify c = s.classify d := by
  unfold classify
  rw [hsignature, h]

theorem classify_of_outside (h : c.signature.declaringType ∉ s.types) :
    s.classify c = .notApplicable .outsideSurface := by
  unfold classify
  exact if_neg (mt List.contains_iff_mem.mp h)

theorem diagnostics_congr {calls calls' : List (Call ε)}
    (h : List.Forall₂ (fun c d => s.classify c = s.classify d) calls calls') :
    s.diagnostics calls = s.diagnostics calls' := by
  induction h with
  | nil => rfl
  | cons hcall _ ih => rw [diagnostics_cons, diagnostics_cons, hcall, ih]

/-- Calls of one method with the same first argument for the template parameter, or without any, have
one verdict. So have two orders of arguments that name different parameters. Calls outside the
surface can be exchanged for any others outside. -/
theorem verdict_relevant (s : Surface) :
    (∀ c d : Call ε, c.signature = d.signature →
      (∀ i, c.signature.IsTemplateParameter i → c.first? i = d.first? i) →
        s.classify c = s.classify d) ∧
    (∀ c d : Call ε, c.signature = d.signature → c.arguments.Perm d.arguments →
      (c.arguments.filterMap Argument.parameter).Nodup → s.classify c = s.classify d) ∧
    ∀ calls calls' : List (Call ε),
      List.Forall₂ (fun c d => c = d ∨
        c.signature.declaringType ∉ s.types ∧ d.signature.declaringType ∉ s.types) calls calls' →
      s.diagnostics calls = s.diagnostics calls' := by
  have hfirst (c d : Call ε) (hsignature : c.signature = d.signature)
      (h : ∀ i, c.signature.IsTemplateParameter i → c.first? i = d.first? i) :
      s.classify c = s.classify d := by
    refine classify_congr hsignature (Call.resolve_congr hsignature fun i hi => ?_)
    rw [Call.argument?_eq_bind_first?, h i hi, Call.argument?_eq_bind_first?]
  refine ⟨hfirst, fun c d hsignature hperm hparameters => ?_, fun calls calls' h => ?_⟩
  · exact hfirst c d hsignature fun i _ => Call.first?_eq_of_perm hparameters hperm i
  · refine diagnostics_congr (h.imp ?_)
    rintro c d (rfl | ⟨hc, hd⟩)
    · rfl
    · rw [classify_of_outside hc, classify_of_outside hd]

/-! A call with its arguments out of order, and one that has arguments of no account beside the same
template: one without a parameter, a second one for the template, and one without a value. -/

def namedCall : Call Expr where
  signature := ⟨"Log", "T", [⟨"logger", .other "ILogger"⟩, ⟨"message", .string⟩]⟩
  arguments := [⟨some 1, some (.string "\x7b" default)⟩, ⟨some 0, some (.other "local" default)⟩]

def burdenedCall : Call Expr where
  signature := namedCall.signature
  arguments := [⟨none, some (.string "\x7d" default)⟩, ⟨some 1, some (.string "\x7b" default)⟩,
    ⟨some 1, some (.string "" default)⟩, ⟨some 0, none⟩]
  location := some default

theorem verdict_relevant_burdened :
    Surface.classify ⟨["T"]⟩ namedCall = Surface.classify ⟨["T"]⟩ burdenedCall ∧
    Surface.classify ⟨["T"]⟩ namedCall
      = Surface.classify ⟨["T"]⟩ { namedCall with arguments := namedCall.arguments.reverse } ∧
    Surface.diagnostics ⟨["U"]⟩ [namedCall, burdenedCall]
      = Surface.diagnostics ⟨["U"]⟩ [burdenedCall, namedCall] := by
  obtain ⟨hfirst, hperm, -⟩ := verdict_relevant (ε := Expr) ⟨["T"]⟩
  obtain ⟨-, -, houtside⟩ := verdict_relevant (ε := Expr) ⟨["U"]⟩
  have hout : "T" ∉ ["U"] := by decide
  refine ⟨hfirst _ _ rfl fun i hi => ?_, hperm _ _ rfl ?_ ?_, houtside _ _ ?_⟩
  · obtain rfl : 1 = i :=
      Option.some.inj ((namedCall.signature.templateParameter?_eq_some_iff i).mpr hi)
    rfl
  · exact namedCall.arguments.reverse_perm.symm
  · decide
  · exact .cons (.inr ⟨hout, hout⟩) (.cons (.inr ⟨hout, hout⟩) .nil)

end Surface

end LogTemplate
