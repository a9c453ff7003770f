import Mathlib.Data.List.Forall2
import LogTemplate.Proofs.Template.Balance
import LogTemplate.Proofs.Template.Formatter

/-! The placeholders that the validity scan passes through, and those that the search finds. On a valid
text they are the same, though the scan goes by one symbol of lookahead and the search by the parity of
runs. -/

namespace LogTemplate.Template

/-- A turn of the scan: where it stands, and whether a placeholder is open before and behind it. -/
structure Turn where
  position : Nat
  before : Bool
  after : Bool
  deriving DecidableEq, Repr

def turns {α : Type} [DecidableEq α] (opening closing : α) (position : Nat) (isOpen : Bool) :
    List α → Option (List Turn)
  | [] => if isOpen then none else some []
  | c :: rest =>
    if c = opening then
      if rest.head? = some opening then
        (turns opening closing (position + 2) isOpen rest.tail).map (⟨position, isOpen, isOpen⟩ :: ·)
      else if isOpen then none
      else (turns opening closing (position + 1) true rest).map (⟨position, false, true⟩ :: ·)
    else if c = closing then
      if isOpen then
        (turns opening closing (position + 1) false rest).map (⟨position, true, false⟩ :: ·)
      else if rest.head? = some closing then
        (turns opening closing (position + 2) false rest.tail).map (⟨position, false, false⟩ :: ·)
      else none
    else (turns opening closing (position + 1) isOpen rest).map (⟨position, isOpen, isOpen⟩ :: ·)
termination_by text => text.length
decreasing_by all_goals simp only [List.length_tail, List.length_cons]; omega

def rises (ts : List Turn) : List Nat :=
  (ts.filter fun t => !t.before && t.after).map Turn.position

def falls (ts : List Turn) : List Nat :=
  (ts.filter fun t => t.before && !t.after).map Turn.position

theorem isSome_turns {α : Type} [DecidableEq α] {o c : α} (hne : c ≠ o) (position : Nat)
    (isOpen : Bool) (text : List α) :
    (turns o c position isOpen text).isSome = balanced o c isOpen text := by
  induction position, isOpen, text using turns.induct o c with
  | case1 position => rw [turns, if_pos rfl, balanced_nil]; rfl
  | case2 position isOpen h => rw [turns, if_neg h, balanced_nil, Bool.eq_false_iff.2 h]; rfl
  | case3 position isOpen rest hd ih =>
    obtain ⟨rest, rfl⟩ := List.head?_eq_some_iff.1 hd
    rw [turns, if_pos rfl, if_pos hd, Option.isSome_map, ih, balanced_doubled_opening, List.tail_cons]
  | case4 position rest hd =>
    rw [turns, if_pos rfl, if_neg hd, if_pos rfl, balanced_opening hd]
    rfl
  | case5 position isOpen rest hd h ih =>
    rw [turns, if_pos rfl, if_neg hd, if_neg h, Option.isSome_map, ih, balanced_opening hd,
      Bool.eq_false_iff.2 h]
    rfl
  | case6 position rest _ ih =>
    rw [turns, if_neg hne, if_pos rfl, if_pos rfl, Option.isSome_map, ih,
      balanced_closing_of_open hne]
  | case7 position isOpen rest h hd _ ih =>
    obtain ⟨rest, rfl⟩ := List.head?_eq_some_iff.1 hd
    rw [turns, if_neg hne, if_pos rfl, if_neg h, if_pos hd, Option.isSome_map, ih,
      Bool.eq_false_iff.2 h, balanced_doubled_closing hne, List.tail_cons]
  | case8 position isOpen rest h hd _ =>
    rw [turns, if_neg hne, if_pos rfl, if_neg h, if_neg hd, Bool.eq_false_iff.2 h,
      balanced_closing hne hd]
    rfl
  | case9 position isOpen x rest ho hc ih =>
    rw [turns, if_neg ho, if_neg hc, Option.isSome_map, ih, balanced_plain ho hc]

namespace Token

/-- What the turns from a position on make of the text: a row of tokens whose placeholders are those
that the turns open and close; first the rest of a placeholder, if one is open. -/
def Traced (position : Nat) (ts : List Turn) (text : List UInt8) : Bool → Prop
  | false => ∃ tokens, text = allBytes tokens ∧
      rises ts = (placeholders position tokens).map Placeholder.opening ∧
      falls ts = (placeholders position tokens).map Placeholder.closing
  | true => ∃ body tokens, closingByte ∉ body ∧ text = body ++ closingByte :: allBytes tokens ∧
      rises ts = (placeholders (position + body.length + 1) tokens).map Placeholder.opening ∧
      falls ts = (position + body.length) ::
        (placeholders (position + body.length + 1) tokens).map Placeholder.closing

theorem Traced.append {position : Nat} {ts : List Turn} {text : List UInt8} {isOpen : Bool}
    {t : Token} (ht : t.isPlaceholder = false) (hclosing : isOpen = true → closingByte ∉ t.bytes)
    (h : Traced (position + t.bytes.length) ts text isOpen) :
    Traced position (⟨position, isOpen, isOpen⟩ :: ts) (t.bytes ++ text) isOpen := by
  cases isOpen with
  | false =>
    obtain ⟨tokens, rfl, hrises, hfalls⟩ := h
    have hstep : placeholders position (t :: tokens) =
        placeholders (position + t.bytes.length) tokens := by
      cases t with
      | plain | escape => rfl
      | placeholder => exact absurd ht Bool.true_eq_false.mp
    refine ⟨t :: tokens, (allBytes_cons t tokens).symm, ?_, ?_⟩
    · rw [hstep]
      exact hrises
    · rw [hstep]
      exact hfalls
  | true =>
    obtain ⟨body, tokens, hbody, rfl, hrises, hfalls⟩ := h
    have hlength : position + t.bytes.length + body.length =
        position + (t.bytes ++ body).length := by
      rw [List.length_append, Nat.add_assoc]
    rw [hlength] at hrises hfalls
    refine ⟨t.bytes ++ body, tokens, ?_, (List.append_assoc ..).symm, hrises, hfalls⟩
    exact fun hmem => (List.mem_append.1 hmem).elim (hclosing rfl) hbody

theorem Traced.open {position : Nat} {ts : List Turn} {text : List UInt8}
    (hhead : text.head? ≠ some openingByte) (h : Traced (position + 1) ts text true) :
    Traced position (⟨position, false, true⟩ :: ts) (openingByte :: text) false := by
  obtain ⟨body, tokens, hbody, rfl, hrises, hfalls⟩ := h
  have hfirst : body.head? ≠ some openingByte := by
    intro hfirst
    rw [List.head?_append, hfirst] at hhead
    exact hhead rfl
  refine ⟨placeholder body ⟨hbody, hfirst⟩ :: tokens, ?_, ?_, ?_⟩
  · rw [allBytes_cons, bytes, List.append_assoc]
    rfl
  · rw [placeholders, List.map_cons, ← hrises]
    rfl
  · rw [placeholders, List.map_cons, ← hfalls]
    rfl

theorem Traced.close {position : Nat} {ts : List Turn} {text : List UInt8}
    (h : Traced (position + 1) ts text false) :
    Traced position (⟨position, true, false⟩ :: ts) (closingByte :: text) true := by
  obtain ⟨tokens, rfl, hrises, hfalls⟩ := h
  exact ⟨[], tokens, List.not_mem_nil, rfl, hrises, congrArg (position :: ·) hfalls⟩

theorem traced_turns {position : Nat} {isOpen : Bool} {text : List UInt8} {ts : List Turn}
    (h : turns openingByte closingByte position isOpen text = some ts) :
    Traced position ts text isOpen := by
  have hne : closingByte ≠ openingByte := by decide
  induction position, isOpen, text using turns.induct openingByte closingByte generalizing ts with
  | case1 position =>
    rw [turns, if_pos rfl] at h
    cases h
  | case2 position isOpen hopen =>
    obtain rfl := Bool.eq_false_iff.2 hopen
    rw [turns, if_neg hopen] at h
    obtain rfl := Option.some.inj h
    exact ⟨[], rfl, rfl, rfl⟩
  | case3 position isOpen rest hd ih =>
    rw [turns, if_pos rfl, if_pos hd] at h
    obtain ⟨rest, rfl⟩ := List.head?_eq_some_iff.1 hd
    obtain ⟨ts, hts, rfl⟩ := Option.map_eq_some_iff.1 h
    exact (ih hts).append (t := escape .opening) rfl fun _ => by decide
  | case4 position rest hd =>
    rw [turns, if_pos rfl, if_neg hd, if_pos rfl] at h
    cases h
  | case5 position isOpen rest hd hopen ih =>
    obtain rfl := Bool.eq_false_iff.2 hopen
    rw [turns, if_pos rfl, if_neg hd, if_neg hopen] at h
    obtain ⟨ts, hts, rfl⟩ := Option.map_eq_some_iff.1 h
    exact (ih hts).open hd
  | case6 position rest _ ih =>
    rw [turns, if_neg hne, if_pos rfl, if_pos rfl] at h
    obtain ⟨ts, hts, rfl⟩ := Option.map_eq_some_iff.1 h
    exact (ih hts).close
  | case7 position isOpen rest hopen hd _ ih =>
    obtain rfl := Bool.eq_false_iff.2 hopen
    rw [turns, if_neg hne, if_pos rfl, if_neg hopen, if_pos hd] at h
    obtain ⟨rest, rfl⟩ := List.head?_eq_some_iff.1 hd
    obtain ⟨ts, hts, rfl⟩ := Option.map_eq_some_iff.1 h
    exact (ih hts).append (t := escape .closing) rfl nofun
  | case8 position isOpen rest hopen hd _ =>
    rw [turns, if_neg hne, if_pos rfl, if_neg hopen, if_neg hd] at h
    cases h
  | case9 position isOpen b rest ho hc ih =>
    rw [turns, if_neg ho, if_neg hc] at h
    obtain ⟨ts, hts, rfl⟩ := Option.map_eq_some_iff.1 h
    exact (ih hts).append (t := plain b ⟨ho, hc⟩) rfl fun _ hmem =>
      hc (List.mem_singleton.1 hmem).symm

end Token

/-- What lies between two positions of a text, the first of them not included. -/
def slice (text : List UInt8) (span : Nat × Nat) : List UInt8 := (text.take span.2).drop (span.1 + 1)

theorem slice_append_of_le {lead : List UInt8} {first : Nat} (h : lead.length ≤ first)
    (text : List UInt8) (last : Nat) :
    slice (lead ++ text) (first, last) = slice text (first - lead.length, last - lead.length) := by
  by_cases hlast : lead.length ≤ last
  · simp only [slice, List.take_append, List.take_of_length_le hlast]
    rw [List.drop_append, List.drop_eq_nil_of_le (by omega), List.nil_append]
    congr 1
    omega
  · have hempty : last - lead.length = 0 := by omega
    have hshort : (lead.take last).length ≤ first + 1 := by
      rw [List.length_take]
      omega
    simp only [slice, List.take_append, hempty, List.take_zero, List.append_nil, List.drop_nil]
    exact List.drop_eq_nil_of_le hshort

theorem body_eq_slice {offset : Nat} {text : List UInt8} {p : Placeholder}
    (h : p ∈ placeholdersFrom offset text) :
    offset ≤ p.opening ∧ p.body = slice text (p.opening - offset, p.closing - offset) := by
  induction offset, text using placeholdersFrom_induction with
  | nil offset text hnil =>
    rw [hnil] at h
    cases h
  | cons offset lead body rest _ _ hcons ih =>
    rw [hcons] at h
    rcases List.mem_cons.1 h with rfl | h
    · refine ⟨Nat.le_add_right _ _, ?_⟩
      have hopening : offset + lead.length - offset = lead.length := by omega
      have hclosing : offset + lead.length + 1 + body.length - offset =
          (lead ++ openingByte :: body).length := by
        rw [List.length_append, List.length_cons]
        omega
      have hdrop : (lead ++ openingByte :: body).drop (lead.length + 1) = body := by
        rw [← List.drop_drop, List.drop_left, List.drop_succ_cons, List.drop_zero]
      rw [hopening, hclosing, slice, List.take_left, hdrop]
    · have hlength : (lead ++ openingByte :: body ++ [closingByte]).length =
          lead.length + 1 + body.length + 1 := by
        simp only [List.length_append, List.length_cons, List.length_nil]
        omega
      obtain ⟨hle, hbody⟩ := ih h
      refine ⟨by omega, ?_⟩
      rw [List.append_cons, slice_append_of_le (by omega), hlength, hbody]
      congr 2 <;> omega

/-- On a valid text the search visits the placeholders that the scan opens and closes, in the same
order, and the formatter has one hole for each of them, which is the split of what lies between the
positions where the flag of the scan goes up and down again. -/
theorem placeholders_eq_turns {s : String} (h : isValid? (some s) = true) :
    ∃ ts, turns openingByte closingByte 0 false (Text.bytes s) = some ts ∧
      (placeholders s).map Placeholder.opening = rises ts ∧
      (placeholders s).map Placeholder.closing = falls ts ∧
      ∃ holes, Formatter.ofTemplate s = .ok ⟨s, holes⟩ ∧
        List.Forall₂ (fun span hole => ∃ body : String,
            Text.bytes body = slice (Text.bytes s) span ∧ hole = Hole.ofBody body)
          ((rises ts).zip (falls ts)) holes := by
  have hscan : (turns openingByte closingByte 0 false (Text.bytes s)).isSome = true := by
    rw [isSome_turns (by decide)]
    exact h
  obtain ⟨ts, hts⟩ := Option.isSome_iff_exists.1 hscan
  obtain ⟨tokens, hbytes, hrises, hfalls⟩ := Token.traced_turns hts
  have hplaceholders : placeholders s = Token.placeholders 0 tokens := by
    rw [placeholders, hbytes, placeholdersFrom_allBytes]
  rw [← hplaceholders] at hrises hfalls
  obtain ⟨bodies, hbodies⟩ := exists_bodies 0 s.toList
  rw [← Text.bytes_eq_encode] at hbodies
  refine ⟨ts, hts, hrises.symm, hfalls.symm, _, Formatter.ofTemplate_of_bodies hbodies, ?_⟩
  have hpairs : List.Forall₂ (fun (p : Placeholder) b => p.body = Text.encode b) (placeholders s)
      bodies := by
    have heq : List.Forall₂ Eq ((placeholders s).map Placeholder.body) (bodies.map Text.encode) := by
      rw [List.forall₂_eq_eq_eq]
      exact hbodies
    exact List.forall₂_map_right_iff.1 (List.forall₂_map_left_iff.1 heq)
  have hmem := (List.forall₂_and_left _ _).2 ⟨fun p (hp : p ∈ placeholders s) => hp, hpairs⟩
  rw [hrises, hfalls, List.zip_map', List.forall₂_map_left_iff, List.forall₂_map_right_iff]
  refine List.Forall₂.imp ?_ hmem
  rintro p b ⟨hp, hb⟩
  refine ⟨String.ofList b, ?_, rfl⟩
  rw [Text.bytes_ofList, ← hb]
  exact (body_eq_slice hp).2

theorem placeholders_eq_turns_adjacent_braces :
    isValid? (some "\x7b\x7b\x7ba\x7b\x7b\x7d\x7d\x7d\x7bb\x7d") = true ∧
    ∃ ts, turns openingByte closingByte 0 false
        (Text.bytes "\x7b\x7b\x7ba\x7b\x7b\x7d\x7d\x7d\x7bb\x7d") = some ts ∧
      rises ts = [2, 9] ∧ falls ts = [6, 11] := by
  have hvalid : isValid? (some "\x7b\x7b\x7ba\x7b\x7b\x7d\x7d\x7d\x7bb\x7d") = true := by
    decide +kernel
  obtain ⟨ts, hts, hrises, hfalls, -⟩ := placeholders_eq_turns hvalid
  refine ⟨hvalid, ts, hts, ?_, ?_⟩
  · rw [← hrises]
    decide +kernel
  · rw [← hfalls]
    decide +kernel

end LogTemplate.Template
