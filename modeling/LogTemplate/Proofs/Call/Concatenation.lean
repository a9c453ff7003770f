import LogTemplate.Proofs.Call.Reporting

/-! Verdicts on sums of texts. A valid text in front leaves the rest of the sum as it is to the scan,
though braces may meet where the texts join; so a sum of valid texts is valid, and a valid operand in
front can be left out. -/

namespace LogTemplate

/-- Equal, but for what the diagnostic of an invalid template says. -/
def Verdict.SameKind : Verdict → Verdict → Prop
  | invalid _, invalid _ => True
  | v, w => v = w

variable {ε : Type} [Host ε]

/-- The expression is the sum of its operands. If it offers a constant text as well, that is what the
operands' texts join to. -/
def Host.IsSum (e : ε) (es : List ε) : Prop :=
  Host.operands? e = some es ∧
    ∀ text, Host.text? e = some text → (es.mapM textOf).map String.join = some text

theorem Host.IsSum.textOf_eq {e : ε} {es : List ε} (h : Host.IsSum e es) :
    textOf e = (es.mapM textOf).map String.join := by
  have hfold : (textOf : ε → Option String) = foldText := funext textOf_eq_foldText
  cases ht : Host.text? e with
  | none => rw [hfold, foldText_of_operands ht h.1]
  | some text => rw [textOf_eq_foldText, foldText_of_text ht, h.2 text ht]

def Host.HasValidText (e : ε) : Prop := ∃ text, textOf e = some text ∧ Template.isValid? (some text) = true

theorem exists_texts {es : List ε} (h : ∀ e ∈ es, Host.HasValidText e) :
    ∃ texts, es.mapM textOf = some texts ∧ ∀ text ∈ texts, Template.isValid text = true := by
  induction es with
  | nil => exact ⟨[], rfl, nofun⟩
  | cons e es ih =>
    obtain ⟨text, htext, hvalid⟩ := h e (List.mem_cons_self ..)
    obtain ⟨texts, htexts, hvalids⟩ := ih fun x hx => h x (List.mem_cons_of_mem _ hx)
    refine ⟨text :: texts, ?_, ?_⟩
    · rw [List.mapM_cons, htext, htexts]
      rfl
    · exact List.forall_mem_cons.2 ⟨hvalid, hvalids⟩

namespace Surface

variable {s : Surface} {c : Call ε} {e : ε}

/-- The call is on the surface, and the expression is what is bound to its template parameter. -/
def Inspects (s : Surface) (c : Call ε) (e : ε) : Prop :=
  c.signature.declaringType ∈ s.types ∧ ∃ i, c.signature.IsTemplateParameter i ∧ c.Binds i e

theorem classify_eq (h : s.Inspects c e) : s.classify c =
    match textOf e with
    | none => .unresolvable
    | some text => .ofTemplate text (Host.location e) := by
  obtain ⟨hs, i, hi, he⟩ := h
  rw [← Signature.templateParameter?_eq_some_iff] at hi
  rw [← Call.argument?_eq_some_iff] at he
  have hcontains : s.contains c.signature.declaringType = true := by simpa [contains] using hs
  rw [classify, if_pos hcontains, Call.resolve]
  simp only [hi, he]
  cases textOf e <;> rfl

theorem classify_eq_of_textOf {text : String} (h : s.Inspects c e) (htext : textOf e = some text) :
    s.classify c = if Template.isValid text then .valid
      else .invalid (.invalidTemplate (Host.location e) text) := by
  rw [classify_eq h, htext]
  exact Verdict.ofTemplate_eq text (Host.location e)

theorem classify_eq_valid_of_sum {es : List ε} (h : s.Inspects c e) (hsum : Host.IsSum e es)
    (hes : ∀ x ∈ es, Host.HasValidText x) : s.classify c = .valid := by
  obtain ⟨texts, htexts, hvalid⟩ := exists_texts hes
  have htext : textOf e = some (String.join texts) := by
    rw [hsum.textOf_eq, htexts]
    rfl
  rw [classify_eq_of_textOf h htext, if_pos (Template.isValid_join hvalid)]

theorem sameKind_of_sum {c' : Call ε} {e' x : ε} {es : List ε} (h : s.Inspects c e)
    (h' : s.Inspects c' e') (hsum : Host.IsSum e (x :: es)) (hsum' : Host.IsSum e' es)
    (hx : Host.HasValidText x) : (s.classify c).SameKind (s.classify c') := by
  obtain ⟨text, htext, hvalid⟩ := hx
  have hcons : textOf e = (textOf e').map (text ++ ·) := by
    rw [hsum.textOf_eq, hsum'.textOf_eq, List.mapM_cons, htext]
    cases es.mapM textOf with
    | none => rfl
    | some texts => exact congrArg some String.join_cons
  cases hrest : textOf e' with
  | none =>
    have hnone : textOf e = none := by rw [hcons, hrest, Option.map_none]
    rw [classify_eq h, classify_eq h', hnone, hrest]
    rfl
  | some rest =>
    have hsome : textOf e = some (text ++ rest) := by rw [hcons, hrest, Option.map_some]
    have hprefix : Template.isValid (text ++ rest) = Template.isValid rest :=
      Template.isValid_append hvalid rest
    rw [classify_eq_of_textOf h hsome, classify_eq_of_textOf h' hrest, hprefix]
    cases Template.isValid rest with
    | true => rfl
    | false => trivial

end Surface

/-- A brace that opens behind a text may be doubled by one that the text ends with, so there is no
such law for a valid text behind another. -/
example : Template.isValid "\x7by\x7d" = true ∧ Template.isValid "\x7bx\x7b" = false ∧
    Template.isValid ("\x7bx\x7b" ++ "\x7by\x7d") = true := by
  decide +kernel

/-- A valid text in front of another does not change whether the other is valid. So a call whose
template is a sum of valid texts is valid, and a call whose template begins with a valid text gets the
same verdict without it. -/
theorem valid_prefix_transparent :
    (∀ a b : String, Template.isValid? (some a) = true →
      Template.isValid? (some (a ++ b)) = Template.isValid? (some b)) ∧
    ∀ (ε : Type) [Host ε] (s : Surface),
      (∀ (c : Call ε) (e : ε) (es : List ε), s.Inspects c e → Host.IsSum e es →
        (∀ x ∈ es, Host.HasValidText x) → s.classify c = .valid) ∧
      ∀ (c c' : Call ε) (e e' x : ε) (es : List ε), s.Inspects c e → s.Inspects c' e' →
        Host.IsSum e (x :: es) → Host.IsSum e' es → Host.HasValidText x →
        (s.classify c).SameKind (s.classify c') := by
  refine ⟨fun a b h => Template.isValid_append h b, fun ε _ s => ⟨?_, ?_⟩⟩
  · exact fun _ _ _ h hsum hes => Surface.classify_eq_valid_of_sum h hsum hes
  · exact fun _ _ _ _ _ _ h h' hsum hsum' hx => Surface.sameKind_of_sum h h' hsum hsum' hx

def sumCall (operands : List Expr) : Call Expr :=
  ⟨⟨"Log", "T", [⟨"message", .string⟩]⟩, [⟨some 0, some (.concat operands default)⟩], none⟩

theorem inspects_sumCall (operands : List Expr) :
    Surface.Inspects ⟨["T"]⟩ (sumCall operands) (.concat operands default) := by
  refine ⟨List.mem_singleton_self _, 0, ?_, ?_⟩
  · rw [← Signature.templateParameter?_eq_some_iff]
    rfl
  · rw [← Call.argument?_eq_some_iff]
    rfl

theorem isSum_concat (operands : List Expr) (l : Location) :
    Host.IsSum (Expr.concat operands l) operands := ⟨rfl, nofun⟩

theorem hasValidText_string {text : String} (h : Template.isValid? (some text) = true)
    (l : Location) : Host.HasValidText (Expr.string text l) := by
  refine ⟨text, ?_, h⟩
  rw [textOf_eq_foldText]
  exact foldText_of_text rfl

theorem valid_prefix_transparent_adjacent_braces :
    Template.isValid? (some ("\x7bx\x7d" ++ "\x7d")) = Template.isValid? (some "\x7d") ∧
    Surface.classify ⟨["T"]⟩
      (sumCall [.string "\x7bx\x7d" default, .string "\x7d\x7d" default]) = .valid ∧
    (Surface.classify ⟨["T"]⟩
        (sumCall [.string "\x7bx\x7d" default, .string "\x7d" default])).SameKind
      (Surface.classify ⟨["T"]⟩ (sumCall [.string "\x7d" default])) := by
  have hvalid : Template.isValid? (some "\x7bx\x7d") = true := by decide +kernel
  have hescape : Template.isValid? (some "\x7d\x7d") = true := by decide +kernel
  obtain ⟨happend, hcalls⟩ := valid_prefix_transparent
  obtain ⟨hsum, hdrop⟩ := hcalls Expr ⟨["T"]⟩
  refine ⟨happend _ _ hvalid, ?_, ?_⟩
  · refine hsum _ _ _ (inspects_sumCall _) (isSum_concat _ _) ?_
    rintro x (_ | ⟨_, _ | ⟨_, ⟨⟩⟩⟩)
    · exact hasValidText_string hvalid _
    · exact hasValidText_string hescape _
  · exact hdrop _ _ _ _ _ _ (inspects_sumCall _) (inspects_sumCall _) (isSum_concat _ _)
      (isSum_concat _ _) (hasValidText_string hvalid _)

end LogTemplate
