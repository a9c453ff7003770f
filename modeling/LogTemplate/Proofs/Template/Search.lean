import LogTemplate.Template.Brace

/-! The search for placeholders in a text that is known as a row of tokens: it finds the
placeholders among them and nothing else, whatever runs the braces of neighbouring tokens form. -/

namespace LogTemplate.Template

namespace Side

variable (side : Side)

theorem search_of_eq (index run : Nat) (found : Option Nat) (rest : List UInt8) :
    side.search index run found (side.byte :: rest) = side.search (index + 1) (run + 1)
      (if side = opening ∨ run = 0 then some index else found) rest := by
  rw [search, if_pos rfl]

theorem search_of_ne_of_even {b : UInt8} (hb : b ≠ side.byte) {run : Nat} (hrun : run % 2 = 0)
    (index : Nat) (found : Option Nat) (rest : List UInt8) :
    side.search index run found (b :: rest) = side.search (index + 1) 0 none rest := by
  rw [search, if_neg hb, if_neg (by omega)]

theorem search_of_ne_of_odd {b : UInt8} (hb : b ≠ side.byte) {run : Nat} (hrun : run % 2 = 1)
    (index : Nat) (found : Option Nat) (rest : List UInt8) :
    side.search index run found (b :: rest) = found := by
  rw [search, if_neg hb, if_pos hrun]

theorem search_append_of_not_mem {bs : List UInt8} (h : side.byte ∉ bs) (index : Nat)
    (rest : List UInt8) :
    side.search index 0 none (bs ++ rest) = side.search (index + bs.length) 0 none rest := by
  induction bs generalizing index with
  | nil => rfl
  | cons b bs ih =>
    rw [List.mem_cons, not_or] at h
    rw [List.cons_append, side.search_of_ne_of_even (Ne.symm h.1) rfl, ih h.2, List.length_cons,
      Nat.add_assoc, Nat.add_comm 1]

theorem of_search_eq_some {index run o : Nat} {found : Option Nat} {text : List UInt8}
    (h : side.search index run found text = some o) :
    found = some o ∨
      ∃ before after, text = before ++ side.byte :: after ∧ o = index + before.length := by
  induction text generalizing index run found with
  | nil => exact .inl h
  | cons b rest ih =>
    by_cases hb : b = side.byte
    · subst hb
      rw [search_of_eq] at h
      rcases ih h with hfound | ⟨before, after, rfl, rfl⟩
      · split at hfound
        · exact .inr ⟨[], rest, rfl, (Option.some.inj hfound).symm⟩
        · exact .inl hfound
      · exact .inr ⟨side.byte :: before, after, rfl, by simp only [List.length_cons]; omega⟩
    · rcases Nat.mod_two_eq_zero_or_one run with hrun | hrun
      · rw [side.search_of_ne_of_even hb hrun] at h
        rcases ih h with hfound | ⟨before, after, rfl, rfl⟩
        · exact absurd hfound (by simp)
        · exact .inr ⟨b :: before, after, rfl, by simp only [List.length_cons]; omega⟩
      · rw [side.search_of_ne_of_odd hb hrun] at h
        exact .inl h

theorem exists_of_search_eq_some {index o : Nat} {text : List UInt8}
    (h : side.search index 0 none text = some o) :
    ∃ before after, text = before ++ side.byte :: after ∧ o = index + before.length :=
  (side.of_search_eq_some h).resolve_left (by simp)

end Side

theorem closingByte_ne_opening : closingByte ≠ Side.opening.byte := by decide

theorem openingByte_ne_closing : openingByte ≠ Side.closing.byte := by decide

/-! ### One placeholder after the other -/

theorem placeholdersFrom_of_none {offset : Nat} {rest : List UInt8}
    (h : Side.opening.search offset 0 none rest = none) : placeholdersFrom offset rest = [] := by
  rw [placeholdersFrom]
  split
  · rfl
  · next o ho => rw [h] at ho; exact absurd ho (by simp)

theorem placeholdersFrom_of_unclosed {offset : Nat} (lead tail : List UInt8)
    (ho : Side.opening.search offset 0 none (lead ++ tail) = some (offset + lead.length))
    (hc : Side.closing.search (offset + lead.length) 0 none tail = none) :
    placeholdersFrom offset (lead ++ tail) = [] := by
  rw [placeholdersFrom]
  split
  · rfl
  · next o h =>
    obtain rfl : offset + lead.length = o := Option.some.inj (ho.symm.trans h)
    simp only [Nat.add_sub_cancel_left, List.drop_left, hc]

theorem placeholdersFrom_cons {offset : Nat} (lead body rest : List UInt8)
    (ho : Side.opening.search offset 0 none (lead ++ openingByte :: body ++ closingByte :: rest) =
      some (offset + lead.length))
    (hc : Side.closing.search (offset + lead.length) 0 none
      (openingByte :: body ++ closingByte :: rest) = some (offset + lead.length + 1 + body.length)) :
    placeholdersFrom offset (lead ++ openingByte :: body ++ closingByte :: rest) =
      ⟨offset + lead.length, offset + lead.length + 1 + body.length, body⟩ ::
        placeholdersFrom (offset + lead.length + 1 + body.length + 1) rest := by
  have hlength : offset + lead.length + 1 + body.length - (offset + lead.length) =
      (openingByte :: body).length := by
    rw [List.length_cons]
    omega
  have htake : ((openingByte :: body ++ closingByte :: rest).take (openingByte :: body).length) =
      openingByte :: body := List.take_left
  have hdrop : (openingByte :: body ++ closingByte :: rest).drop ((openingByte :: body).length + 1) =
      rest := by
    rw [← List.drop_drop, List.drop_left, List.drop_succ_cons, List.drop_zero]
  rw [List.append_assoc] at ho ⊢
  rw [placeholdersFrom]
  split
  · next h => exact absurd (ho.symm.trans h) (by simp)
  · next o h =>
    obtain rfl : offset + lead.length = o := Option.some.inj (ho.symm.trans h)
    simp only [Nat.add_sub_cancel_left, List.drop_left, hc, hlength, htake, hdrop,
      List.drop_succ_cons, List.drop_zero]

theorem placeholdersFrom_cases (offset : Nat) (text : List UInt8) :
    placeholdersFrom offset text = [] ∨
      ∃ lead body rest, text = lead ++ openingByte :: body ++ closingByte :: rest ∧
        Side.opening.search offset 0 none text = some (offset + lead.length) ∧
        Side.closing.search (offset + lead.length) 0 none
          (openingByte :: body ++ closingByte :: rest) =
            some (offset + lead.length + 1 + body.length) ∧
        placeholdersFrom offset text =
          ⟨offset + lead.length, offset + lead.length + 1 + body.length, body⟩ ::
            placeholdersFrom (offset + lead.length + 1 + body.length + 1) rest := by
  cases ho : Side.opening.search offset 0 none text with
  | none => exact .inl (placeholdersFrom_of_none ho)
  | some o =>
    obtain ⟨lead, tail, rfl, rfl⟩ := Side.opening.exists_of_search_eq_some ho
    cases hc : Side.closing.search (offset + lead.length) 0 none (openingByte :: tail) with
    | none => exact .inl (placeholdersFrom_of_unclosed lead _ ho hc)
    | some c =>
      obtain ⟨before, rest, hbefore, rfl⟩ := Side.closing.exists_of_search_eq_some hc
      cases before with
      | nil => exact absurd (List.cons_eq_cons.1 hbefore).1 openingByte_ne_closing
      | cons b body =>
        obtain ⟨rfl, rfl⟩ := List.cons_eq_cons.1 hbefore
        have hlength : offset + lead.length + (openingByte :: body).length =
            offset + lead.length + 1 + body.length := by
          rw [List.length_cons]
          omega
        rw [hlength] at hc
        have hassoc : lead ++ openingByte :: (body ++ closingByte :: rest) =
            lead ++ openingByte :: body ++ closingByte :: rest := by simp
        refine .inr ⟨lead, body, rest, hassoc, rfl, hc, ?_⟩
        refine (congrArg _ hassoc).trans (placeholdersFrom_cons lead body rest ?_ hc)
        rw [← hassoc]
        exact ho

theorem placeholdersFrom_induction {motive : Nat → List UInt8 → Prop}
    (nil : ∀ offset text, placeholdersFrom offset text = [] → motive offset text)
    (cons : ∀ offset lead body rest,
      Side.opening.search offset 0 none (lead ++ openingByte :: body ++ closingByte :: rest) =
        some (offset + lead.length) →
      Side.closing.search (offset + lead.length) 0 none
        (openingByte :: body ++ closingByte :: rest) =
          some (offset + lead.length + 1 + body.length) →
      placeholdersFrom offset (lead ++ openingByte :: body ++ closingByte :: rest) =
        ⟨offset + lead.length, offset + lead.length + 1 + body.length, body⟩ ::
          placeholdersFrom (offset + lead.length + 1 + body.length + 1) rest →
      motive (offset + lead.length + 1 + body.length + 1) rest →
      motive offset (lead ++ openingByte :: body ++ closingByte :: rest))
    (offset : Nat) (text : List UInt8) : motive offset text := by
  induction hn : text.length using Nat.strongRecOn generalizing offset text with
  | _ n ih =>
    rcases placeholdersFrom_cases offset text with h | ⟨lead, body, rest, rfl, ho, hc, h⟩
    · exact nil offset text h
    · have hshorter : rest.length < n := by
        rw [← hn]
        simp only [List.length_append, List.length_cons]
        omega
      exact cons offset lead body rest ho hc h (ih rest.length hshorter _ rest rfl)

/-! ### Tokens -/

/-- A part of a text as the search sees it. The body of a placeholder may hold doubled opening
braces, but not at its beginning. -/
inductive Token where
  | plain (b : UInt8) (h : b ≠ openingByte ∧ b ≠ closingByte)
  | escape (side : Side)
  | placeholder (body : List UInt8) (h : closingByte ∉ body ∧ body.head? ≠ some openingByte)

namespace Token

def bytes : Token → List UInt8
  | plain b _ => [b]
  | escape side => [side.byte, side.byte]
  | placeholder body _ => openingByte :: body ++ [closingByte]

def isPlaceholder : Token → Bool
  | placeholder _ _ => true
  | _ => false

def allBytes (tokens : List Token) : List UInt8 := tokens.flatMap bytes

def placeholders (offset : Nat) : List Token → List Placeholder
  | [] => []
  | placeholder body _ :: rest =>
    ⟨offset, offset + 1 + body.length, body⟩ :: placeholders (offset + 1 + body.length + 1) rest
  | t :: rest => placeholders (offset + t.bytes.length) rest

@[simp] theorem allBytes_cons (t : Token) (tokens : List Token) :
    allBytes (t :: tokens) = t.bytes ++ allBytes tokens := List.flatMap_cons

@[simp] theorem allBytes_append (as bs : List Token) :
    allBytes (as ++ bs) = allBytes as ++ allBytes bs := List.flatMap_append

/-- The state of the search for an opening brace behind whole tokens: the run before the position
is even, and its last brace would count if the text ended here. -/
structure Skipped (index run : Nat) (found : Option Nat) : Prop where
  even : run % 2 = 0
  found_eq : found = if run = 0 then none else some (index - 1)

theorem Skipped.search_token {index run : Nat} {found : Option Nat} (h : Skipped index run found)
    {t : Token} (ht : t.isPlaceholder = false) (rest : List UInt8) :
    ∃ run' found', Skipped (index + t.bytes.length) run' found' ∧
      Side.opening.search index run found (t.bytes ++ rest) =
        Side.opening.search (index + t.bytes.length) run' found' rest := by
  cases t with
  | plain b hb =>
    exact ⟨0, none, ⟨rfl, rfl⟩, Side.opening.search_of_ne_of_even hb.1 h.even index found rest⟩
  | escape side =>
    cases side with
    | opening =>
      refine ⟨run + 2, some (index + 1), ⟨by have := h.even; omega, ?_⟩, ?_⟩
      · rw [if_neg (by omega)]
        rfl
      · change Side.opening.search _ _ _ (Side.opening.byte :: Side.opening.byte :: rest) = _
        rw [Side.search_of_eq, Side.search_of_eq, if_pos (.inl rfl)]
        rfl
    | closing =>
      refine ⟨0, none, ⟨rfl, rfl⟩, ?_⟩
      change Side.opening.search _ _ _ (closingByte :: closingByte :: rest) = _
      rw [Side.opening.search_of_ne_of_even closingByte_ne_opening h.even,
        Side.opening.search_of_ne_of_even closingByte_ne_opening rfl]
      rfl
  | placeholder body hbody => exact absurd ht Bool.true_eq_false.mp

theorem Skipped.search_tokens {index run : Nat} {found : Option Nat} (h : Skipped index run found)
    {tokens : List Token} (ht : ∀ t ∈ tokens, t.isPlaceholder = false) (rest : List UInt8) :
    ∃ run' found', Skipped (index + (allBytes tokens).length) run' found' ∧
      Side.opening.search index run found (allBytes tokens ++ rest) =
        Side.opening.search (index + (allBytes tokens).length) run' found' rest := by
  induction tokens generalizing index run found with
  | nil => exact ⟨run, found, h, rfl⟩
  | cons t tokens ih =>
    obtain ⟨run₁, found₁, h₁, hsearch₁⟩ :=
      h.search_token (ht t (List.mem_cons_self ..)) (allBytes tokens ++ rest)
    obtain ⟨run₂, found₂, h₂, hsearch₂⟩ := ih h₁ fun u hu => ht u (List.mem_cons_of_mem _ hu)
    refine ⟨run₂, found₂, ?_, ?_⟩
    · rwa [allBytes_cons, List.length_append, ← Nat.add_assoc]
    · rw [allBytes_cons, List.append_assoc, hsearch₁, hsearch₂, List.length_append, Nat.add_assoc]

theorem Skipped.search_opening {index run : Nat} {found : Option Nat} (h : Skipped index run found)
    {body : List UInt8} (hbody : body.head? ≠ some openingByte) (rest : List UInt8) :
    Side.opening.search index run found (openingByte :: body ++ closingByte :: rest) =
      some index := by
  change Side.opening.search _ _ _ (Side.opening.byte :: (body ++ closingByte :: rest)) = _
  -- the brace makes the run odd, and what follows it ends the run
  have hodd : (run + 1) % 2 = 1 := by
    have := h.even
    omega
  rw [Side.search_of_eq, if_pos (.inl rfl)]
  cases body with
  | nil => exact Side.opening.search_of_ne_of_odd closingByte_ne_opening hodd ..
  | cons b body =>
    have hb : b ≠ Side.opening.byte := fun hb => hbody (congrArg some hb)
    exact Side.opening.search_of_ne_of_odd hb hodd ..

theorem search_closing_tokens {index run o : Nat} (hrun : run % 2 = 1) (tokens : List Token) :
    Side.closing.search index run (some o) (allBytes tokens) = some o := by
  induction tokens generalizing index run with
  | nil => rfl
  | cons t tokens ih =>
    rw [allBytes_cons]
    cases t with
    | plain b hb => exact Side.closing.search_of_ne_of_odd hb.2 hrun ..
    | escape side =>
      cases side with
      | opening => exact Side.closing.search_of_ne_of_odd openingByte_ne_closing hrun ..
      | closing =>
        change Side.closing.search _ _ _ (Side.closing.byte :: Side.closing.byte :: _) = _
        have hfirst : ¬ (Side.closing = .opening ∨ run = 0) := by
          simp only [reduceCtorEq, false_or]
          omega
        have hsecond : ¬ (Side.closing = .opening ∨ run + 1 = 0) := by simp
        -- two more of them leave the run odd and the first in its place
        rw [Side.search_of_eq, Side.search_of_eq, if_neg hfirst, if_neg hsecond]
        exact ih (by omega)
    | placeholder body hbody =>
      exact Side.closing.search_of_ne_of_odd openingByte_ne_closing hrun ..

theorem search_closing_placeholder {index : Nat} {body : List UInt8} (hbody : closingByte ∉ body)
    (tokens : List Token) :
    Side.closing.search index 0 none (openingByte :: body ++ closingByte :: allBytes tokens) =
      some (index + 1 + body.length) := by
  have hnot : Side.closing.byte ∉ openingByte :: body := by
    rw [List.mem_cons, not_or]
    exact ⟨openingByte_ne_closing.symm, hbody⟩
  have hlength : index + (openingByte :: body).length = index + 1 + body.length := by
    rw [List.length_cons]
    omega
  rw [Side.closing.search_append_of_not_mem hnot, hlength]
  change Side.closing.search _ _ _ (Side.closing.byte :: _) = _
  rw [Side.search_of_eq, if_pos (.inr rfl), search_closing_tokens rfl]

theorem placeholdersFrom_of_no_placeholder (offset : Nat) {tokens : List Token}
    (ht : ∀ t ∈ tokens, t.isPlaceholder = false) : placeholdersFrom offset (allBytes tokens) = [] := by
  have hstart : Skipped offset 0 none := ⟨rfl, rfl⟩
  obtain ⟨run, found, hend, hsearch⟩ := hstart.search_tokens ht []
  rw [List.append_nil, Side.search_nil, hend.found_eq] at hsearch
  split at hsearch
  · exact placeholdersFrom_of_none hsearch
  · obtain ⟨before, after, hbytes, hlength⟩ := Side.opening.exists_of_search_eq_some hsearch
    have hafter : after = [] := by
      rw [hbytes, List.length_append, List.length_cons] at hlength
      exact List.eq_nil_of_length_eq_zero (by omega)
    subst hafter
    rw [hlength, hbytes] at hsearch
    rw [hbytes]
    exact placeholdersFrom_of_unclosed before _ hsearch
      (Side.closing.search_of_ne_of_even openingByte_ne_closing rfl ..)

theorem placeholdersFrom_append (offset : Nat) {lead : List Token}
    (hlead : ∀ t ∈ lead, t.isPlaceholder = false) (tokens : List Token) :
    placeholdersFrom offset (allBytes (lead ++ tokens)) =
      placeholders (offset + (allBytes lead).length) tokens := by
  -- what has no placeholder is kept in front, for the search to go over it in one piece
  induction tokens generalizing offset lead with
  | nil =>
    rw [List.append_nil]
    exact placeholdersFrom_of_no_placeholder offset hlead
  | cons t tokens ih =>
    by_cases ht : t.isPlaceholder
    · cases t with
      | plain => exact absurd ht Bool.false_ne_true
      | escape => exact absurd ht Bool.false_ne_true
      | placeholder body hbody =>
        have hbytes : allBytes (lead ++ placeholder body hbody :: tokens) =
            allBytes lead ++ openingByte :: body ++ closingByte :: allBytes tokens := by
          simp [bytes]
        have hstart : Skipped offset 0 none := ⟨rfl, rfl⟩
        obtain ⟨run, found, hend, hsearch⟩ := hstart.search_tokens hlead
          (openingByte :: body ++ closingByte :: allBytes tokens)
        rw [hend.search_opening hbody.2, ← List.append_assoc] at hsearch
        have hnil : ∀ t ∈ ([] : List Token), t.isPlaceholder = false := by simp
        have hrest := ih (offset + (allBytes lead).length + 1 + body.length + 1) hnil
        rw [hbytes, placeholdersFrom_cons _ _ _ hsearch (search_closing_placeholder hbody.1 tokens),
          placeholders]
        exact congrArg _ hrest
    · have ht : t.isPlaceholder = false := Bool.eq_false_iff.2 ht
      have hlead' : ∀ u ∈ lead ++ [t], u.isPlaceholder = false := by
        intro u hu
        rcases List.mem_append.1 hu with hu | hu
        · exact hlead u hu
        · rwa [List.mem_singleton.1 hu]
      have hstep : placeholders (offset + (allBytes lead).length) (t :: tokens) =
          placeholders (offset + (allBytes lead).length + t.bytes.length) tokens := by
        cases t with
        | plain | escape => rfl
        | placeholder => exact absurd ht Bool.true_eq_false.mp
      have hlength : (allBytes (lead ++ [t])).length = (allBytes lead).length + t.bytes.length := by
        simp [allBytes]
      rw [List.append_cons, hstep, ih offset hlead', hlength, Nat.add_assoc]

end Token

theorem placeholdersFrom_allBytes (offset : Nat) (tokens : List Token) :
    placeholdersFrom offset (Token.allBytes tokens) = Token.placeholders offset tokens := by
  have hnil : ∀ t ∈ ([] : List Token), t.isPlaceholder = false := by simp
  exact Token.placeholdersFrom_append offset hnil tokens

end LogTemplate.Template
