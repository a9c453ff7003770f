import LogTemplate.Proofs.Template.Formatter
import LogTemplate.Proofs.Template.Grammar
import LogTemplate.Template.Segment

/-! Templates made from literal texts and placeholders are valid and give the placeholders back.
Doubled braces of a literal may stand next to the brace of a placeholder and form one run with it;
neither the scan nor the search minds. -/

namespace LogTemplate.Template

theorem escape_cons_of_plain {c : Char} (ho : c ≠ '{') (hc : c ≠ '}') (cs : List Char) :
    escape (c :: cs) = c :: escape cs := by
  rw [escape, if_neg (not_or.2 ⟨ho, hc⟩)]

theorem escape_cons_opening (cs : List Char) : escape ('{' :: cs) = '{' :: '{' :: escape cs := by
  rw [escape, if_pos (.inl rfl)]

theorem escape_cons_closing (cs : List Char) : escape ('}' :: cs) = '}' :: '}' :: escape cs := by
  rw [escape, if_pos (.inr rfl)]

theorem escape_mem_grammar (cs : List Char) : escape cs ∈ grammar := by
  induction cs with
  | nil => exact Language.nil_mem_kstar _
  | cons c cs ih =>
    by_cases ho : c = '{'
    · subst ho
      rw [escape_cons_opening]
      exact Grammar.append_mem_kstar Grammar.mem_token_of_openingEscape ih
    · by_cases hc : c = '}'
      · subst hc
        rw [escape_cons_closing]
        exact Grammar.append_mem_kstar Grammar.mem_token_of_closingEscape ih
      · rw [escape_cons_of_plain ho hc]
        exact Grammar.append_mem_kstar (Grammar.mem_token_of_plain (Grammar.mem_plain ho hc)) ih

theorem mem_body_of_plain {cs : List Char} (ho : '{' ∉ cs) (hc : '}' ∉ cs) : cs ∈ Grammar.body := by
  induction cs with
  | nil => exact Language.nil_mem_kstar _
  | cons c cs ih =>
    rw [List.mem_cons, not_or] at ho hc
    exact Grammar.append_mem_kstar (.inl (Grammar.mem_plain (Ne.symm ho.1) (Ne.symm hc.1)))
      (ih ho.2 hc.2)

namespace Token

theorem placeholders_append {lead : List Token} (h : ∀ t ∈ lead, t.isPlaceholder = false)
    (offset : Nat) (tokens : List Token) :
    placeholders offset (lead ++ tokens) = placeholders (offset + (allBytes lead).length) tokens := by
  induction lead generalizing offset with
  | nil => rfl
  | cons t lead ih =>
    have ih := fun offset => ih (fun u hu => h u (List.mem_cons_of_mem _ hu)) offset
    have ht := h t (List.mem_cons_self ..)
    rw [allBytes_cons, List.length_append, ← Nat.add_assoc, ← ih]
    cases t with
    | plain | escape => rfl
    | placeholder => exact absurd ht Bool.true_eq_false.mp

theorem exists_of_plain {bs : List UInt8} (ho : openingByte ∉ bs) (hc : closingByte ∉ bs) :
    ∃ tokens, allBytes tokens = bs ∧ ∀ t ∈ tokens, t.isPlaceholder = false := by
  induction bs with
  | nil => exact ⟨[], rfl, by simp⟩
  | cons b bs ih =>
    rw [List.mem_cons, not_or] at ho hc
    obtain ⟨tokens, rfl, htokens⟩ := ih ho.2 hc.2
    refine ⟨.plain b ⟨Ne.symm ho.1, Ne.symm hc.1⟩ :: tokens, rfl, ?_⟩
    rintro t (_ | ⟨_, ht⟩)
    · rfl
    · exact htokens t ht

theorem exists_of_escape (cs : List Char) :
    ∃ tokens, allBytes tokens = Text.encode (Template.escape cs) ∧
      ∀ t ∈ tokens, t.isPlaceholder = false := by
  induction cs with
  | nil => exact ⟨[], rfl, by simp⟩
  | cons c cs ih =>
    obtain ⟨tokens, hbytes, htokens⟩ := ih
    have hescape (side : Side) : ∀ t ∈ escape side :: tokens, t.isPlaceholder = false := by
      rintro t (_ | ⟨_, ht⟩)
      · rfl
      · exact htokens t ht
    by_cases ho : c = '{'
    · subst ho
      refine ⟨escape .opening :: tokens, ?_, hescape .opening⟩
      rw [escape_cons_opening, encode_opening, encode_opening, ← hbytes]
      rfl
    · by_cases hc : c = '}'
      · subst hc
        refine ⟨escape .closing :: tokens, ?_, hescape .closing⟩
        rw [escape_cons_closing, encode_closing, encode_closing, ← hbytes]
        rfl
      · obtain ⟨plains, hplain, hplains⟩ :=
          exists_of_plain (openingByte_not_mem_encode (show '{' ∉ [c] by simpa using Ne.symm ho))
            (closingByte_not_mem_encode (show '}' ∉ [c] by simpa using Ne.symm hc))
        refine ⟨plains ++ tokens, ?_, ?_⟩
        · rw [allBytes_append, hplain, hbytes, escape_cons_of_plain ho hc, ← Text.encode_append]
          rfl
        · intro t ht
          exact (List.mem_append.1 ht).elim (hplains t) (htokens t)

end Token

namespace Segment

/-- The body of a placeholder has no brace of its own. -/
def WellFormed : Segment → Prop
  | literal _ => True
  | placeholder body => '{' ∉ body ∧ '}' ∉ body

def body? : Segment → Option (List Char)
  | literal _ => none
  | placeholder body => some body

theorem render_mem_grammar {s : Segment} (h : s.WellFormed) : s.render ∈ grammar := by
  cases s with
  | literal text => exact escape_mem_grammar text
  | placeholder body =>
    have hmem := Grammar.append_mem_kstar
      (Grammar.mem_token_of_body (mem_body_of_plain h.1 h.2)) (Language.nil_mem_kstar _)
    rwa [List.append_nil] at hmem

theorem exists_tokens {segments : List Segment} (h : ∀ s ∈ segments, s.WellFormed) :
    ∃ tokens, Token.allBytes tokens = Text.encode (segments.flatMap render) ∧
      ∀ offset, (Token.placeholders offset tokens).map Placeholder.body =
        (segments.filterMap body?).map Text.encode := by
  induction segments with
  | nil => exact ⟨[], rfl, fun _ => rfl⟩
  | cons s segments ih =>
    obtain ⟨tokens, hbytes, hbodies⟩ := ih fun u hu => h u (List.mem_cons_of_mem _ hu)
    cases s with
    | literal text =>
      obtain ⟨lead, hlead, hplain⟩ := Token.exists_of_escape text
      refine ⟨lead ++ tokens, ?_, fun offset => ?_⟩
      · rw [Token.allBytes_append, hlead, hbytes, List.flatMap_cons, Text.encode_append]
        rfl
      · rw [Token.placeholders_append hplain, hbodies]
        rfl
    | placeholder body =>
      have hbody := h _ (List.mem_cons_self ..)
      have hopening := openingByte_not_mem_encode hbody.1
      refine ⟨.placeholder (Text.encode body)
        ⟨closingByte_not_mem_encode hbody.2, fun hhead => hopening (List.mem_of_head? hhead)⟩ ::
        tokens, ?_, fun offset => ?_⟩
      · rw [Token.allBytes_cons, hbytes, List.flatMap_cons, Text.encode_append, render,
          List.cons_append, encode_opening, Text.encode_append]
        rfl
      · rw [Token.placeholders, List.map_cons, hbodies]
        rfl

end Segment

theorem render_mem_grammar {segments : List Segment} (h : ∀ s ∈ segments, s.WellFormed) :
    segments.flatMap Segment.render ∈ grammar := by
  induction segments with
  | nil => exact Language.nil_mem_kstar _
  | cons s segments ih =>
    have hmem := Language.append_mem_mul (Segment.render_mem_grammar (h s (List.mem_cons_self ..)))
      (ih fun u hu => h u (List.mem_cons_of_mem _ hu))
    rwa [grammar, kstar_mul_kstar] at hmem

theorem isValid_render {segments : List Segment} (h : ∀ s ∈ segments, s.WellFormed) :
    isValid (render segments) = true := by
  rw [isValid_iff_mem_grammar, render, String.toList_ofList]
  exact render_mem_grammar h

theorem ofTemplate_render {segments : List Segment} (h : ∀ s ∈ segments, s.WellFormed) :
    Formatter.ofTemplate (render segments) = .ok ⟨render segments,
      (segments.filterMap Segment.body?).map fun b => Hole.ofBody (String.ofList b)⟩ := by
  obtain ⟨tokens, hbytes, hbodies⟩ := Segment.exists_tokens h
  apply Formatter.ofTemplate_of_bodies
  rw [placeholders, render, Text.bytes_ofList, ← hbytes, placeholdersFrom_allBytes, hbodies]

theorem render_literal (text : List Char) :
    render [.literal text] = String.ofList (escape text) := by
  rw [render, List.flatMap_cons, List.flatMap_nil, List.append_nil, Segment.render]

/-- A template made of segments is valid and has one hole for each placeholder, in order, which is
the split of its body. In particular a text whose braces are all doubled is valid and has none. -/
theorem render_roundTrip {segments : List Segment} (h : ∀ s ∈ segments, s.WellFormed) :
    (isValid? (some (render segments)) = true ∧
      Formatter.ofTemplate (render segments) = .ok ⟨render segments,
        (segments.filterMap Segment.body?).map fun b => Hole.ofBody (String.ofList b)⟩) ∧
    ∀ text : String, isValid? (some (String.ofList (escape text.toList))) = true ∧
      Formatter.ofTemplate (String.ofList (escape text.toList)) =
        .ok ⟨String.ofList (escape text.toList), []⟩ := by
  refine ⟨⟨isValid_render h, ofTemplate_render h⟩, fun text => ?_⟩
  have hliteral : ∀ s ∈ [Segment.literal text.toList], s.WellFormed := by
    intro s hs
    rw [List.mem_singleton.1 hs]
    trivial
  rw [← render_literal]
  exact ⟨isValid_render hliteral, ofTemplate_render hliteral⟩

theorem render_roundTrip_adjacent_braces :
    (∀ s ∈ [Segment.literal ['{'], .placeholder ['a', ',', '1', ':', 'x'], .literal ['}', '{']],
      s.WellFormed) ∧
    isValid? (some "\x7b\x7b\x7ba,1:x\x7d\x7d\x7d\x7b\x7b") = true ∧
    Formatter.ofTemplate "\x7b\x7b\x7ba,1:x\x7d\x7d\x7d\x7b\x7b" =
      .ok ⟨"\x7b\x7b\x7ba,1:x\x7d\x7d\x7d\x7b\x7b", [⟨"a", some "1", some "x"⟩]⟩ := by
  have h : ∀ s ∈ [Segment.literal ['{'], .placeholder ['a', ',', '1', ':', 'x'],
      .literal ['}', '{']], s.WellFormed := by
    simp [Segment.WellFormed]
  obtain ⟨hvalid, hholes⟩ := (render_roundTrip h).1
  exact ⟨h, hvalid, hholes⟩

end LogTemplate.Template
