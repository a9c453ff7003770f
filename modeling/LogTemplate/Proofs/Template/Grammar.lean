import Mathlib.Computability.Language
import LogTemplate.Proofs.Template.Balance

/-! The grammar of message templates and its agreement with the validity scan. The grammar is
ambiguous where braces stand next to each other; the scan takes doubled braces first, and finds a
derivation if there is any. -/

namespace LogTemplate.Template

open scoped Computability

namespace Grammar

def plain : Language Char := {w | ∃ c, c ≠ '{' ∧ c ≠ '}' ∧ w = [c]}

def openingEscape : Language Char := {['{', '{']}

def closingEscape : Language Char := {['}', '}']}

/-- What may stand between the braces of a placeholder. -/
def body : Language Char := (plain + openingEscape)∗

def placeholder : Language Char := {['{']} * body * {['}']}

def token : Language Char := plain + openingEscape + closingEscape + placeholder

end Grammar

def grammar : Language Char := Grammar.token∗

namespace Grammar

theorem append_mem_kstar {l : Language Char} {t w : List Char} (ht : t ∈ l) (hw : w ∈ l∗) :
    t ++ w ∈ l∗ := by
  rw [← Language.one_add_self_mul_kstar_eq_kstar]
  exact Or.inr (Language.append_mem_mul ht hw)

theorem mem_plain {c : Char} (ho : c ≠ '{') (hc : c ≠ '}') : [c] ∈ plain := ⟨c, ho, hc, rfl⟩

theorem mem_placeholder_iff {w : List Char} :
    w ∈ placeholder ↔ ∃ b ∈ body, w = '{' :: b ++ ['}'] := by
  constructor
  · rintro ⟨x, ⟨o, rfl, b, hb, rfl⟩, c, rfl, rfl⟩
    exact ⟨b, hb, rfl⟩
  · rintro ⟨b, hb, rfl⟩
    have ho : ['{'] ∈ ({['{']} : Language Char) := rfl
    have hc : ['}'] ∈ ({['}']} : Language Char) := rfl
    exact Language.append_mem_mul (Language.append_mem_mul ho hb) hc

theorem mem_token_of_plain {w : List Char} (h : w ∈ plain) : w ∈ token := .inl (.inl (.inl h))

theorem mem_token_of_openingEscape : ['{', '{'] ∈ token := .inl (.inl (.inr rfl))

theorem mem_token_of_closingEscape : ['}', '}'] ∈ token := .inl (.inr rfl)

theorem mem_token_of_body {b : List Char} (h : b ∈ body) : '{' :: b ++ ['}'] ∈ token :=
  .inr (mem_placeholder_iff.2 ⟨b, h, rfl⟩)

/-! ### From a derivation to the scan -/

theorem balanced_append_body {b : List Char} (hb : b ∈ body) (rest : List Char) :
    balanced '{' '}' true (b ++ rest) = balanced '{' '}' true rest := by
  obtain ⟨parts, rfl, hparts⟩ := Language.mem_kstar.1 hb
  clear hb
  induction parts with
  | nil => rfl
  | cons part parts ih =>
    have ih := ih fun p hp => hparts p (List.mem_cons_of_mem _ hp)
    rw [List.flatten_cons, List.append_assoc]
    rcases hparts part (List.mem_cons_self ..) with ⟨c, ho, hc, rfl⟩ | rfl
    · exact (balanced_plain ho hc _ _).trans ih
    · exact (balanced_doubled_opening _ _).trans ih

theorem balanced_placeholder {b : List Char} (hb : b ∈ body) (rest : List Char) :
    balanced '{' '}' false ('{' :: (b ++ '}' :: rest)) = balanced '{' '}' false rest := by
  have hclose : balanced '{' '}' true ('}' :: rest) = balanced '{' '}' false rest :=
    balanced_closing_of_open (by decide) rest
  obtain ⟨parts, rfl, hparts⟩ := Language.mem_kstar.1 hb
  clear hb
  induction parts with
  | nil => exact (balanced_opening (by simp) false).trans hclose
  | cons part parts ih =>
    have hrest : ∀ p ∈ parts, p ∈ plain + openingEscape := fun p hp =>
      hparts p (List.mem_cons_of_mem _ hp)
    rcases hparts part (List.mem_cons_self ..) with ⟨c, ho, hc, rfl⟩ | rfl
    · have hbody : parts.flatten ∈ body := Language.join_mem_kstar hrest
      rw [List.flatten_cons, List.singleton_append, List.cons_append,
        balanced_opening (by simpa using ho), balanced_plain ho hc, balanced_append_body hbody,
        hclose, Bool.not_false, Bool.true_and]
    · -- the first of three braces is doubled by the second, and the third opens
      exact (balanced_doubled_opening false _).trans (ih hrest)

theorem balanced_append_token {t : List Char} (ht : t ∈ token) (rest : List Char) :
    balanced '{' '}' false (t ++ rest) = balanced '{' '}' false rest := by
  rcases ht with ((⟨c, ho, hc, rfl⟩ | rfl) | rfl) | hp
  · exact balanced_plain ho hc false rest
  · exact balanced_doubled_opening false rest
  · exact balanced_doubled_closing (by decide) rest
  · obtain ⟨b, hb, rfl⟩ := mem_placeholder_iff.1 hp
    simpa only [List.append_assoc, List.cons_append, List.singleton_append, List.nil_append] using
      balanced_placeholder hb rest

theorem balanced_append_of_mem_grammar {cs : List Char} (h : cs ∈ grammar) (rest : List Char) :
    balanced '{' '}' false (cs ++ rest) = balanced '{' '}' false rest := by
  obtain ⟨tokens, rfl, htokens⟩ := Language.mem_kstar.1 h
  clear h
  induction tokens with
  | nil => rfl
  | cons t tokens ih =>
    rw [List.flatten_cons, List.append_assoc,
      balanced_append_token (htokens t (List.mem_cons_self ..))]
    exact ih fun u hu => htokens u (List.mem_cons_of_mem _ hu)

theorem balanced_of_mem_grammar {cs : List Char} (h : cs ∈ grammar) :
    balanced '{' '}' false cs = true := by
  rw [← List.append_nil cs, balanced_append_of_mem_grammar h, balanced_nil, Bool.not_false]

/-! ### From the scan to a derivation -/

/-- What the scan has still to find: a whole template, or the rest of a placeholder and then one. -/
def Derivable : Bool → List Char → Prop
  | false, cs => cs ∈ grammar
  | true, cs => ∃ b ∈ body, ∃ rest ∈ grammar, cs = b ++ '}' :: rest

theorem Derivable.append {t cs : List Char} (hbody : t ∈ plain + openingEscape) {isOpen : Bool}
    (h : Derivable isOpen cs) : Derivable isOpen (t ++ cs) := by
  cases isOpen with
  | false => exact append_mem_kstar (.inl (.inl hbody)) h
  | true =>
    obtain ⟨b, hb, rest, hrest, rfl⟩ := h
    exact ⟨t ++ b, append_mem_kstar hbody hb, rest, hrest, (List.append_assoc ..).symm⟩

theorem Derivable.close {cs : List Char} (h : cs ∈ grammar) : Derivable true ('}' :: cs) :=
  ⟨[], Language.nil_mem_kstar _, cs, h, rfl⟩

theorem Derivable.open {cs : List Char} (h : Derivable true cs) : '{' :: cs ∈ grammar := by
  obtain ⟨b, hb, rest, hrest, rfl⟩ := h
  have hmem := append_mem_kstar (mem_token_of_body hb) hrest
  rwa [List.append_assoc] at hmem

theorem derivable_of_balanced {isOpen : Bool} {cs : List Char}
    (h : balanced '{' '}' isOpen cs = true) : Derivable isOpen cs := by
  -- by length, since the scan takes doubled braces in one step
  induction hn : cs.length using Nat.strongRecOn generalizing isOpen cs with
  | _ n ih =>
    cases cs with
    | nil =>
      cases isOpen with
      | false => exact Language.nil_mem_kstar _
      | true => simp at h
    | cons c rest =>
      have ihRest (b : Bool) (hb : balanced '{' '}' b rest = true) : Derivable b rest :=
        ih rest.length (by rw [← hn]; exact Nat.lt_succ_self _) hb rfl
      by_cases ho : c = '{'
      · subst ho
        by_cases hd : rest.head? = some '{'
        · obtain ⟨rest, rfl⟩ := List.head?_eq_some_iff.1 hd
          rw [balanced_doubled_opening] at h
          exact (ih rest.length (by simp only [← hn, List.length_cons]; omega) h rfl).append
            (t := ['{', '{']) (.inr rfl)
        · rw [balanced_opening hd, Bool.and_eq_true, Bool.not_eq_true'] at h
          obtain ⟨rfl, h⟩ := h
          exact (ihRest true h).open
      · by_cases hc : c = '}'
        · subst hc
          cases isOpen with
          | true =>
            rw [balanced_closing_of_open (by decide)] at h
            exact .close (ihRest false h)
          | false =>
            by_cases hd : rest.head? = some '}'
            · obtain ⟨rest, rfl⟩ := List.head?_eq_some_iff.1 hd
              rw [balanced_doubled_closing (by decide)] at h
              have hrest : rest ∈ grammar :=
                ih rest.length (by simp only [← hn, List.length_cons]; omega) h rfl
              exact append_mem_kstar mem_token_of_closingEscape hrest
            · rw [balanced_closing (by decide) hd] at h
              exact absurd h Bool.false_ne_true
        · rw [balanced_plain ho hc] at h
          exact (ihRest isOpen h).append (t := [c]) (.inl (mem_plain ho hc))

end Grammar

theorem isValid_iff_mem_grammar (s : String) : isValid s = true ↔ s.toList ∈ grammar := by
  rw [isValid_eq_balanced]
  exact ⟨Grammar.derivable_of_balanced, Grammar.balanced_of_mem_grammar⟩

theorem isValid_append {a : String} (h : isValid a = true) (b : String) :
    isValid (a ++ b) = isValid b := by
  rw [isValid_eq_balanced, String.toList_append,
    Grammar.balanced_append_of_mem_grammar ((isValid_iff_mem_grammar a).1 h), isValid_eq_balanced]

theorem isValid_join {texts : List String} (h : ∀ text ∈ texts, isValid text = true) :
    isValid (String.join texts) = true := by
  induction texts with
  | nil => exact (isValid_iff_mem_grammar "").2 (Language.nil_mem_kstar _)
  | cons text texts ih =>
    rw [String.join_cons, isValid_append (h text (List.mem_cons_self ..))]
    exact ih fun t ht => h t (List.mem_cons_of_mem _ ht)

/-- The scan accepts a text exactly if the text can be cut, in whatever way, into plain characters,
doubled braces and placeholders. -/
theorem isValid?_some_iff_mem_grammar (s : String) :
    isValid? (some s) = true ↔ s.toList ∈ grammar :=
  isValid_iff_mem_grammar s

/-- Two derivations, of which the scan follows the first. -/
example : isValid "\x7b\x7b\x7ba\x7d" = true := by decide +kernel

end LogTemplate.Template
