import LogTemplate.Proofs.Template.Delimiting
import LogTemplate.Proofs.Template.Spans

/-! Which runs of braces delimit the placeholders of a text. A run of odd length does, by its last brace
on the opening side and by its first on the closing side. A run of even length is a row of escapes, but
for one at the very end of the text: nothing follows it that would make the search look at its length,
and it closes a placeholder. No valid text ends that way. -/

namespace LogTemplate.Template

theorem Side.exists_isRun_of_search (side : Side) {index i : Nat} {text : List UInt8}
    (h : side.search index 0 none text = some i) :
    ∃ first count, IsRun side.byte text first count ∧
      (count % 2 = 1 ∨ first + count = text.length) ∧ i = index + first + side.delimiting count := by
  rcases side.search_finds index text with ⟨first, count, hfirst, hsearch⟩ | ⟨-, hsearch⟩
  · rw [h] at hsearch
    exact ⟨first, count, hfirst.toIsRun, hfirst.odd_or_last, Option.some.inj hsearch⟩
  · rw [h] at hsearch
    cases hsearch

namespace Placeholder

/-- The opening brace is the last of a run of odd length. -/
def OpenedByOddRun (text : List UInt8) (p : Placeholder) : Prop :=
  ∃ first count, IsRun openingByte text first count ∧ count % 2 = 1 ∧ p.opening + 1 = first + count

/-- The closing brace is the first of a run of odd length. -/
def ClosedByOddRun (text : List UInt8) (p : Placeholder) : Prop :=
  ∃ count, IsRun closingByte text p.closing count ∧ count % 2 = 1

/-- The closing brace is the first of a run of even length, which the text ends with. -/
def ClosedByEvenRunAtEnd (text : List UInt8) (p : Placeholder) : Prop :=
  ∃ count, IsRun closingByte text p.closing count ∧ count % 2 = 0 ∧ p.closing + count = text.length

theorem not_closedByOddRun {text : List UInt8} {p : Placeholder} (h : p.ClosedByEvenRunAtEnd text) :
    ¬ p.ClosedByOddRun text := by
  obtain ⟨m, hm, heven, -⟩ := h
  rintro ⟨n, hn, hodd⟩
  have heq := hm.count_eq hn
  omega

variable {before text : List UInt8} {p : Placeholder}

theorem openedByOddRun_of_search (hbefore : before.getLast? ≠ some openingByte)
    (h : Side.opening.search before.length 0 none text = some p.opening)
    (hend : p.opening + 1 < (before ++ text).length) : p.OpenedByOddRun (before ++ text) := by
  obtain ⟨first, count, hrun, hodd, hlast⟩ := Side.opening.exists_isRun_of_search h
  have hpos := hrun.pos
  rw [Side.delimiting] at hlast
  rw [List.length_append] at hend
  -- something stands behind the run, so it is not at the end of the text
  have hinner : ¬ first + count = text.length := by omega
  exact ⟨_, count, hrun.append_left fun _ => hbefore, hodd.resolve_right hinner, by omega⟩

theorem closedByRun_of_search {index : Nat} (hindex : before.length = index)
    (htext : text.head? ≠ some closingByte)
    (h : Side.closing.search index 0 none text = some p.closing) :
    p.ClosedByOddRun (before ++ text) ∨ p.ClosedByEvenRunAtEnd (before ++ text) := by
  subst hindex
  obtain ⟨first, count, hrun, hodd, hfirst⟩ := Side.closing.exists_isRun_of_search h
  have hpos : 0 < first := hrun.first_pos htext
  have hrun : IsRun closingByte (before ++ text) (before.length + first) count :=
    hrun.append_left fun hzero => absurd hzero (Nat.ne_of_gt hpos)
  rw [Side.delimiting, Nat.add_zero] at hfirst
  rw [← hfirst] at hrun
  rcases Nat.mod_two_eq_zero_or_one count with heven | hcount
  · refine .inr ⟨count, hrun, heven, ?_⟩
    rw [List.length_append]
    omega
  · exact .inl ⟨count, hrun, hcount⟩

end Placeholder

/-- The text before the offset, read already, must not end with a brace that a run behind it would
carry on. -/
theorem delimited_of_mem {before text : List UInt8} (hbefore : before.getLast? ≠ some openingByte)
    {p : Placeholder} {offset : Nat} (hoffset : before.length = offset)
    (hp : p ∈ placeholdersFrom offset text) :
    p.OpenedByOddRun (before ++ text) ∧
      (p.ClosedByOddRun (before ++ text) ∨ p.ClosedByEvenRunAtEnd (before ++ text)) := by
  induction offset, text using placeholdersFrom_induction generalizing before with
  | nil offset text hnil =>
    rw [hnil] at hp
    cases hp
  | cons offset lead body rest hopening hclosing hcons ih =>
    subst hoffset
    rw [hcons] at hp
    rcases List.mem_cons.1 hp with rfl | hp
    · have hend : before.length + lead.length + 1 <
          (before ++ (lead ++ openingByte :: body ++ closingByte :: rest)).length := by
        simp only [List.length_append, List.length_cons]
        omega
      have hhead : (openingByte :: body ++ closingByte :: rest).head? ≠ some closingByte :=
        fun hhead => openingByte_ne_closing (Option.some.inj hhead)
      refine ⟨Placeholder.openedByOddRun_of_search hbefore hopening hend, ?_⟩
      rw [List.append_assoc lead, ← List.append_assoc before]
      exact Placeholder.closedByRun_of_search List.length_append hhead hclosing
    · have hlength : (before ++ (lead ++ openingByte :: body ++ [closingByte])).length =
          before.length + lead.length + 1 + body.length + 1 := by
        simp only [List.length_append, List.length_cons, List.length_nil]
        omega
      have hlast : (before ++ (lead ++ openingByte :: body ++ [closingByte])).getLast? ≠
          some openingByte := by
        rw [← List.append_assoc, List.getLast?_concat]
        exact fun hlast => closingByte_ne_opening (Option.some.inj hlast)
      rw [List.append_cons, ← List.append_assoc]
      exact ih hlast hlength hp

/-! ### Runs in a valid text -/

namespace Token

theorem exists_of_isValid {s : String} (h : isValid s = true) :
    ∃ tokens, Text.bytes s = allBytes tokens := by
  have hscan : (turns openingByte closingByte 0 false (Text.bytes s)).isSome = true := by
    rw [isSome_turns (by decide)]
    exact h
  obtain ⟨ts, hts⟩ := Option.isSome_iff_exists.1 hscan
  obtain ⟨tokens, hbytes, -⟩ := traced_turns hts
  exact ⟨tokens, hbytes⟩

theorem exists_append_of_mem {tokens : List Token} {offset : Nat} {p : Placeholder}
    (h : p ∈ placeholders offset tokens) :
    ∃ front rest, allBytes tokens = front ++ closingByte :: allBytes rest ∧
      p.closing = offset + front.length := by
  induction tokens generalizing offset with
  | nil => cases h
  | cons t tokens ih =>
    have hlater {next : Nat} (hnext : next = offset + t.bytes.length)
        (h : p ∈ placeholders next tokens) :
        ∃ front rest, allBytes (t :: tokens) = front ++ closingByte :: allBytes rest ∧
          p.closing = offset + front.length := by
      obtain ⟨front, rest, hbytes, hclosing⟩ := ih h
      refine ⟨t.bytes ++ front, rest, ?_, ?_⟩
      · rw [allBytes_cons, hbytes, List.append_assoc]
      · rw [hclosing, hnext, List.length_append, Nat.add_assoc]
    cases t with
    | plain | escape => exact hlater rfl h
    | placeholder body hbody =>
      rcases List.mem_cons.1 h with rfl | h
      · refine ⟨openingByte :: body, tokens, ?_, ?_⟩
        · rw [allBytes_cons, bytes, List.append_assoc]
          rfl
        · change offset + 1 + body.length = offset + (body.length + 1)
          omega
      · refine hlater ?_ h
        simp only [bytes, List.length_append, List.length_cons, List.length_nil]
        omega

theorem even_length_of_forall_mem {tokens : List Token}
    (h : ∀ b ∈ allBytes tokens, b = closingByte) : (allBytes tokens).length % 2 = 0 := by
  induction tokens with
  | nil => rfl
  | cons t tokens ih =>
    rw [allBytes_cons, List.forall_mem_append] at h
    have heven : t.bytes.length % 2 = 0 := by
      cases t with
      | plain b hb => exact absurd (h.1 b (List.mem_singleton_self _)) hb.2
      | escape => simp [bytes]
      | placeholder => exact absurd (h.1 openingByte (List.mem_cons_self ..)) openingByte_ne_closing
    have htokens := ih h.2
    rw [allBytes_cons, List.length_append]
    omega

end Token

theorem not_closedByEvenRunAtEnd {s : String} (h : isValid s = true) {p : Placeholder}
    (hp : p ∈ placeholders s) : ¬ p.ClosedByEvenRunAtEnd (Text.bytes s) := by
  rintro ⟨count, hrun, heven, hend⟩
  obtain ⟨tokens, hbytes⟩ := Token.exists_of_isValid h
  rw [placeholders, hbytes, placeholdersFrom_allBytes] at hp
  obtain ⟨front, rest, hsplit, hclosing⟩ := Token.exists_append_of_mem hp
  rw [Nat.zero_add] at hclosing
  rw [hbytes, hsplit, hclosing] at hrun
  rw [hbytes, hsplit, hclosing, List.length_append, List.length_cons] at hend
  have hrest : ∀ b ∈ Token.allBytes rest, b = closingByte := by
    intro b hb
    obtain ⟨i, hi⟩ := List.mem_iff_getElem?.1 hb
    have hlt := (List.getElem?_eq_some_iff.1 hi).1
    have hclosing := hrun.getElem?_eq (i + 1) (by omega)
    rw [List.getElem?_append_right (Nat.le_add_right ..), Nat.add_sub_cancel_left,
      List.getElem?_cons_succ, hi] at hclosing
    exact Option.some.inj hclosing
  have hlength := Token.even_length_of_forall_mem hrest
  omega

/-- Every placeholder is opened by the last brace of an odd run. It is closed by the first brace of an
odd run as well, unless its closing brace begins an even run that the text ends with; and then the
text is not valid. -/
theorem placeholders_delimited (s : String) : ∀ p ∈ placeholders s,
    p.OpenedByOddRun (Text.bytes s) ∧
      (p.ClosedByOddRun (Text.bytes s) ∨
        p.ClosedByEvenRunAtEnd (Text.bytes s) ∧ isValid? (some s) = false) := by
  intro p hp
  have hnil : ([] : List UInt8).getLast? ≠ some openingByte := nofun
  obtain ⟨hopened, hclosed⟩ := delimited_of_mem hnil rfl hp
  refine ⟨hopened, hclosed.imp_right fun heven => ⟨heven, ?_⟩⟩
  rw [Bool.eq_false_iff]
  exact fun hvalid => not_closedByEvenRunAtEnd hvalid hp heven

theorem placeholders_delimited_runs_of_three :
    ⟨2, 4, [0x61]⟩ ∈ placeholders "\x7b\x7b\x7ba\x7d\x7d\x7d" ∧
    Placeholder.OpenedByOddRun (Text.bytes "\x7b\x7b\x7ba\x7d\x7d\x7d") ⟨2, 4, [0x61]⟩ ∧
    Placeholder.ClosedByOddRun (Text.bytes "\x7b\x7b\x7ba\x7d\x7d\x7d") ⟨2, 4, [0x61]⟩ := by
  have hmem : ⟨2, 4, [0x61]⟩ ∈ placeholders "\x7b\x7b\x7ba\x7d\x7d\x7d" := by decide +kernel
  have hvalid : isValid? (some "\x7b\x7b\x7ba\x7d\x7d\x7d") = true := by decide +kernel
  obtain ⟨hopened, hclosed⟩ := placeholders_delimited _ _ hmem
  refine ⟨hmem, hopened, hclosed.resolve_right ?_⟩
  rintro ⟨-, hinvalid⟩
  exact Bool.false_ne_true (hinvalid.symm.trans hvalid)

/-- Two closing braces at the end of the text close a placeholder, though two of them anywhere else
would be an escape. -/
theorem not_closedByOddRun_of_two_at_end :
    Formatter.ofTemplate "\x7ba\x7d\x7d" = .ok ⟨"\x7ba\x7d\x7d", [⟨"a", none, none⟩]⟩ ∧
    ∃ p ∈ placeholders "\x7ba\x7d\x7d", ¬ p.ClosedByOddRun (Text.bytes "\x7ba\x7d\x7d") := by
  have hbefore : ∀ i, i + 1 = 2 → (Text.bytes "\x7ba\x7d\x7d")[i]? ≠ some closingByte := by
    intro i hi
    obtain rfl : i = 1 := Nat.succ.inj hi
    decide +kernel
  have hrun : IsRun closingByte (Text.bytes "\x7ba\x7d\x7d") 2 2 :=
    ⟨Nat.two_pos, by decide +kernel, hbefore, by decide +kernel⟩
  have hmem : ⟨0, 2, [0x61]⟩ ∈ placeholders "\x7ba\x7d\x7d" := by decide +kernel
  have hbodies : (placeholders "\x7ba\x7d\x7d").map Placeholder.body = [['a']].map Text.encode := by
    decide +kernel
  have hlength : (Text.bytes "\x7ba\x7d\x7d").length = 4 := by decide +kernel
  refine ⟨Formatter.ofTemplate_of_bodies hbodies, _, hmem, Placeholder.not_closedByOddRun ?_⟩
  exact ⟨2, hrun, rfl, hlength.symm⟩

end LogTemplate.Template
