import LogTemplate.Proofs.Template.Search

/-! Runs of equal braces, and the one whose brace a search finds: the first that has odd length or that
the text ends with. A run of even length is a row of escapes, but nothing follows a run at the very end
that would make the search look at its length. -/

namespace LogTemplate.Template

/-- The byte stands `count` times from position `first` on, and on neither side once more. -/
structure IsRun (b : UInt8) (text : List UInt8) (first count : Nat) : Prop where
  pos : 0 < count
  getElem?_eq : ∀ i < count, text[first + i]? = some b
  before : ∀ i, i + 1 = first → text[i]? ≠ some b
  after : text[first + count]? ≠ some b

namespace IsRun

variable {b : UInt8} {text : List UInt8} {first count : Nat}

theorem le_of_first {m n : Nat} (hm : IsRun b text first m) (hn : IsRun b text first n) : n ≤ m :=
  Nat.le_of_not_lt fun hlt => hm.after (hn.getElem?_eq m hlt)

theorem count_eq {m n : Nat} (hm : IsRun b text first m) (hn : IsRun b text first n) : m = n :=
  Nat.le_antisymm (hn.le_of_first hm) (hm.le_of_first hn)

theorem append_left (h : IsRun b text first count) {lead : List UInt8}
    (hlead : first = 0 → lead.getLast? ≠ some b) :
    IsRun b (lead ++ text) (lead.length + first) count where
  pos := h.pos
  getElem?_eq i hi := by
    rw [Nat.add_assoc, List.getElem?_append_right (Nat.le_add_right ..), Nat.add_sub_cancel_left]
    exact h.getElem?_eq i hi
  before i hi := by
    by_cases hlt : i < lead.length
    · have hfirst : first = 0 := by omega
      have hlast : i = lead.length - 1 := by omega
      rw [List.getElem?_append_left hlt, hlast, ← List.getLast?_eq_getElem?]
      exact hlead hfirst
    · rw [List.getElem?_append_right (Nat.le_of_not_lt hlt)]
      exact h.before _ (by omega)
  after := by
    rw [Nat.add_assoc, List.getElem?_append_right (Nat.le_add_right ..), Nat.add_sub_cancel_left]
    exact h.after

theorem of_replicate {rest : List UInt8} (hcount : 0 < count) (hrest : rest.head? ≠ some b) :
    IsRun b (List.replicate count b ++ rest) 0 count where
  pos := hcount
  getElem?_eq i hi := by
    rw [Nat.zero_add, List.getElem?_append_left (by rwa [List.length_replicate]),
      List.getElem?_replicate_of_lt hi]
  before i hi := absurd hi (Nat.succ_ne_zero i)
  after := by
    have hlength : (List.replicate count b).length ≤ count := Nat.le_of_eq List.length_replicate
    rw [Nat.zero_add, List.getElem?_append_right hlength, List.length_replicate, Nat.sub_self,
      ← List.head?_eq_getElem?]
    exact hrest

theorem first_pos (h : IsRun b text first count) (hhead : text.head? ≠ some b) : 0 < first := by
  refine Nat.pos_of_ne_zero ?_
  rintro rfl
  have hfirst := h.getElem?_eq 0 h.pos
  rw [Nat.add_zero, ← List.head?_eq_getElem?] at hfirst
  exact hhead hfirst

theorem mem (h : IsRun b text first count) : b ∈ text := by
  have hfirst := h.getElem?_eq 0 h.pos
  exact List.mem_of_getElem? hfirst

theorem length_le_first {lead : List UInt8} (hlead : b ∉ lead)
    (h : IsRun b (lead ++ text) first count) : lead.length ≤ first := by
  refine Nat.le_of_not_lt fun hlt => hlead ?_
  have hfirst := h.getElem?_eq 0 h.pos
  rw [Nat.add_zero, List.getElem?_append_left hlt] at hfirst
  exact List.mem_of_getElem? hfirst

theorem of_append_left {lead : List UInt8} (h : IsRun b (lead ++ text) (lead.length + first) count) :
    IsRun b text first count := by
  have hshift (i : Nat) : (lead ++ text)[lead.length + i]? = text[i]? := by
    rw [List.getElem?_append_right (Nat.le_add_right ..), Nat.add_sub_cancel_left]
  refine ⟨h.pos, fun i hi => ?_, fun i hi => ?_, ?_⟩
  · rw [← hshift, ← Nat.add_assoc]
    exact h.getElem?_eq i hi
  · rw [← hshift]
    exact h.before _ (by omega)
  · rw [← hshift, ← Nat.add_assoc]
    exact h.after

theorem first_eq_zero_or_le {n : Nat} {rest : List UInt8}
    (h : IsRun b (List.replicate n b ++ rest) first count) : first = 0 ∨ n ≤ first := by
  rcases Nat.eq_zero_or_pos first with hzero | hpos
  · exact .inl hzero
  · refine .inr (Nat.le_of_not_lt fun hlt => h.before (first - 1) (by omega) ?_)
    have hinside : first - 1 < n := by omega
    rw [List.getElem?_append_left (by rwa [List.length_replicate]),
      List.getElem?_replicate_of_lt hinside]

end IsRun

theorem exists_first_run (b : UInt8) (text : List UInt8) :
    ∃ lead count rest, text = lead ++ (List.replicate count b ++ rest) ∧ b ∉ lead ∧
      rest.head? ≠ some b ∧ (count = 0 → rest = []) := by
  induction text with
  | nil => exact ⟨[], 0, [], rfl, List.not_mem_nil, by simp, fun _ => rfl⟩
  | cons c text ih =>
    obtain ⟨lead, count, rest, rfl, hlead, hrest, hnil⟩ := ih
    by_cases hc : c = b
    · subst hc
      cases lead with
      | nil => exact ⟨[], count + 1, rest, rfl, List.not_mem_nil, hrest, nofun⟩
      | cons x lead =>
        have hx : x ≠ c := Ne.symm (List.ne_of_not_mem_cons hlead)
        refine ⟨[], 1, x :: lead ++ (List.replicate count c ++ rest), rfl, List.not_mem_nil, ?_, nofun⟩
        simpa using hx
    · refine ⟨c :: lead, count, rest, rfl, ?_, hrest, hnil⟩
      rw [List.mem_cons, not_or]
      exact ⟨Ne.symm hc, hlead⟩

theorem isRun_append_iff {b : UInt8} {lead rest : List UInt8} {n first count : Nat}
    (hlead : b ∉ lead) (hn : 0 < n) (hrest : rest.head? ≠ some b) :
    IsRun b (lead ++ (List.replicate n b ++ rest)) first count ↔
      first = lead.length ∧ count = n ∨
        ∃ next, first = lead.length + (n + next) ∧ IsRun b rest next count := by
  have hfront (hzero : (0 : Nat) = 0) : lead.getLast? ≠ some b :=
    fun hlast => hlead (List.mem_of_getLast? hlast)
  constructor
  · intro h
    obtain ⟨inner, rfl⟩ := Nat.exists_eq_add_of_le (h.length_le_first hlead)
    have hinner := h.of_append_left
    rcases hinner.first_eq_zero_or_le with rfl | hle
    · exact .inl ⟨rfl, hinner.count_eq (IsRun.of_replicate hn hrest)⟩
    · obtain ⟨next, rfl⟩ := Nat.exists_eq_add_of_le hle
      have hlength : n + next = (List.replicate n b).length + next := by rw [List.length_replicate]
      rw [hlength] at hinner
      exact .inr ⟨next, rfl, hinner.of_append_left⟩
  · rintro (⟨rfl, rfl⟩ | ⟨next, rfl, h⟩)
    · exact (IsRun.of_replicate hn hrest).append_left hfront
    · have hpos := h.first_pos hrest
      have hbehind : IsRun b (List.replicate n b ++ rest) ((List.replicate n b).length + next) count :=
        h.append_left fun hzero => absurd hzero (Nat.ne_of_gt hpos)
      rw [List.length_replicate] at hbehind
      exact hbehind.append_left fun hzero => absurd hzero (by omega)

/-! ### Runs that delimit -/

/-- A run that is no row of escapes: one of odd length, or one that the text ends with. -/
structure IsDelimiting (b : UInt8) (text : List UInt8) (first count : Nat) : Prop extends
    IsRun b text first count where
  odd_or_last : count % 2 = 1 ∨ first + count = text.length

structure IsFirstDelimiting (b : UInt8) (text : List UInt8) (first count : Nat) : Prop extends
    IsDelimiting b text first count where
  least : ∀ first' count', IsDelimiting b text first' count' → first ≤ first'

section

variable {b : UInt8} {lead rest : List UInt8} {n first count : Nat}

theorem isFirstDelimiting_of_odd_or_last (hlead : b ∉ lead) (hn : 0 < n) (hrest : rest.head? ≠ some b)
    (h : n % 2 = 1 ∨ rest = []) :
    IsFirstDelimiting b (lead ++ (List.replicate n b ++ rest)) lead.length n where
  toIsRun := (isRun_append_iff hlead hn hrest).mpr (.inl ⟨rfl, rfl⟩)
  odd_or_last := by
    refine h.imp_right ?_
    rintro rfl
    rw [List.append_nil, List.length_append, List.length_replicate]
  least _ _ hother := hother.length_le_first hlead

theorem isDelimiting_append_iff (hlead : b ∉ lead) (hn : 0 < n) (hrest : rest.head? ≠ some b)
    (heven : n % 2 = 0) (hne : rest ≠ []) :
    IsDelimiting b (lead ++ (List.replicate n b ++ rest)) first count ↔
      ∃ next, first = lead.length + (n + next) ∧ IsDelimiting b rest next count := by
  have hlength : (lead ++ (List.replicate n b ++ rest)).length = lead.length + (n + rest.length) := by
    rw [List.length_append, List.length_append, List.length_replicate]
  have hpos := List.length_pos_iff.mpr hne
  constructor
  · rintro ⟨hrun, hodd⟩
    rw [hlength] at hodd
    rcases (isRun_append_iff hlead hn hrest).mp hrun with ⟨rfl, rfl⟩ | ⟨next, rfl, hnext⟩
    · omega
    · exact ⟨next, rfl, hnext, hodd.imp_right (by omega)⟩
  · rintro ⟨next, rfl, hnext, hodd⟩
    refine ⟨(isRun_append_iff hlead hn hrest).mpr (.inr ⟨next, rfl, hnext⟩), ?_⟩
    rw [hlength]
    exact hodd.imp_right (by omega)

theorem IsFirstDelimiting.behind (hlead : b ∉ lead) (hn : 0 < n) (hrest : rest.head? ≠ some b)
    (heven : n % 2 = 0) (hne : rest ≠ []) (h : IsFirstDelimiting b rest first count) :
    IsFirstDelimiting b (lead ++ (List.replicate n b ++ rest)) (lead.length + (n + first)) count where
  toIsDelimiting :=
    (isDelimiting_append_iff hlead hn hrest heven hne).mpr ⟨first, rfl, h.toIsDelimiting⟩
  least first' count' hother := by
    obtain ⟨next, rfl, hnext⟩ := (isDelimiting_append_iff hlead hn hrest heven hne).mp hother
    have hle := h.least _ _ hnext
    omega

end

namespace Side

def delimiting : Side → Nat → Nat
  | opening, count => count - 1
  | closing, _ => 0

variable (side : Side)

theorem search_replicate {first read : Nat} (hread : 0 < read) (count : Nat) (rest : List UInt8) :
    side.search (first + read) read (some (first + side.delimiting read))
        (List.replicate count side.byte ++ rest) =
      side.search (first + (read + count)) (read + count)
        (some (first + side.delimiting (read + count))) rest := by
  induction count generalizing read with
  | zero => rfl
  | succ count ih =>
    have hmark : (if side = opening ∨ read = 0 then some (first + read)
        else some (first + side.delimiting read)) = some (first + side.delimiting (read + 1)) := by
      cases side with
      | opening => rw [if_pos (.inl rfl)]; rfl
      | closing => rw [if_neg (by simp; omega)]; rfl
    have hread : read + 1 + count = read + (count + 1) := by omega
    rw [List.replicate_succ, List.cons_append, search_of_eq, hmark, Nat.add_assoc,
      ih (Nat.succ_pos read), Nat.succ_eq_add_one, hread]

theorem search_run {first count : Nat} (hcount : 0 < count) (rest : List UInt8) :
    side.search first 0 none (List.replicate count side.byte ++ rest) =
      side.search (first + count) count (some (first + side.delimiting count)) rest := by
  obtain ⟨count, rfl⟩ := Nat.exists_eq_add_of_lt hcount
  have hfirst : first = first + side.delimiting 1 := by cases side <;> rfl
  have hmark : side.search (first + 1) 1 (some first) (List.replicate count side.byte ++ rest) =
      side.search (first + (count + 1)) (count + 1) (some (first + side.delimiting (count + 1)))
        rest := by
    rw [Nat.add_comm count 1, ← side.search_replicate Nat.one_pos count rest, ← hfirst]
  rw [Nat.zero_add, List.replicate_succ, List.cons_append, search_of_eq, if_pos (.inr rfl),
    Nat.zero_add]
  exact hmark

theorem search_of_even {c : UInt8} (hc : c ≠ side.byte) {run : Nat} (hrun : run % 2 = 0)
    (index : Nat) (found : Option Nat) (rest : List UInt8) :
    side.search index run found (c :: rest) = side.search index 0 none (c :: rest) := by
  rw [side.search_of_ne_of_even hc hrun, side.search_of_ne_of_even hc (Nat.zero_mod 2)]

theorem search_first_run {lead rest : List UInt8} {count : Nat} (hlead : side.byte ∉ lead)
    (hcount : 0 < count) (hrest : rest.head? ≠ some side.byte) (h : count % 2 = 1 ∨ rest = [])
    (index : Nat) :
    side.search index 0 none (lead ++ (List.replicate count side.byte ++ rest)) =
      some (index + lead.length + side.delimiting count) := by
  rw [side.search_append_of_not_mem hlead, side.search_run hcount]
  cases rest with
  | nil => rfl
  | cons c rest =>
    have hc : c ≠ side.byte := fun hc => hrest (congrArg some hc)
    exact side.search_of_ne_of_odd hc (h.resolve_right (List.cons_ne_nil _ _)) ..

theorem search_behind_run {lead rest : List UInt8} {count : Nat} (hlead : side.byte ∉ lead)
    (hcount : 0 < count) (hrest : rest.head? ≠ some side.byte) (heven : count % 2 = 0)
    (hne : rest ≠ []) (index : Nat) :
    side.search index 0 none (lead ++ (List.replicate count side.byte ++ rest)) =
      side.search (index + lead.length + count) 0 none rest := by
  obtain ⟨c, rest, rfl⟩ := List.exists_cons_of_ne_nil hne
  have hc : c ≠ side.byte := fun hc => hrest (congrArg some hc)
  rw [side.search_append_of_not_mem hlead, side.search_run hcount, side.search_of_even hc heven]

theorem search_finds (index : Nat) (text : List UInt8) :
    (∃ first count, IsFirstDelimiting side.byte text first count ∧
      side.search index 0 none text = some (index + first + side.delimiting count)) ∨
    (∀ first count, ¬ IsDelimiting side.byte text first count) ∧
      side.search index 0 none text = none := by
  -- by length, since an even run is passed over as a whole
  induction hn : text.length using Nat.strongRecOn generalizing index text with
  | _ n ih =>
    obtain ⟨lead, count, rest, rfl, hlead, hrest, hnil⟩ := exists_first_run side.byte text
    rcases Nat.eq_zero_or_pos count with rfl | hcount
    · obtain rfl := hnil rfl
      refine .inr ⟨fun first count h => hlead ?_, side.search_append_of_not_mem hlead ..⟩
      simpa using h.mem
    by_cases hdelimits : count % 2 = 1 ∨ rest = []
    · exact .inl ⟨_, _, isFirstDelimiting_of_odd_or_last hlead hcount hrest hdelimits,
        side.search_first_run hlead hcount hrest hdelimits index⟩
    · rw [not_or] at hdelimits
      obtain ⟨hodd, hne⟩ := hdelimits
      have heven : count % 2 = 0 := by omega
      rw [side.search_behind_run hlead hcount hrest heven hne]
      simp only [List.length_append, List.length_replicate] at hn
      rcases ih _ (by omega) (index + lead.length + count) rest rfl with
        ⟨next, count', hfirst, hsearch⟩ | ⟨hnone, hsearch⟩
      · refine .inl ⟨_, count', hfirst.behind hlead hcount hrest heven hne, ?_⟩
        rw [hsearch]
        congr 1
        omega
      · refine .inr ⟨fun first count' h => ?_, hsearch⟩
        obtain ⟨next, -, h⟩ := (isDelimiting_append_iff hlead hcount hrest heven hne).mp h
        exact hnone _ _ h

theorem delimiting_lt {count : Nat} (hcount : 0 < count) : side.delimiting count < count := by
  cases side with
  | opening => exact Nat.sub_lt hcount Nat.one_pos
  | closing => exact hcount

/-- From a position on, the last opening or the first closing brace is found of the first run that has
odd length or reaches the end of the text, and the length of the text if there is no such run. What is
found before the end is such a brace, not before the position. -/
theorem find_delimits (text : List UInt8) (start : Nat) :
    ((∃ first count, IsFirstDelimiting side.byte (text.drop start) first count ∧
        side.find text start = start + first + side.delimiting count) ∨
      (∀ first count, ¬ IsDelimiting side.byte (text.drop start) first count) ∧
        side.find text start = text.length) ∧
    (side.find text start < text.length →
      start ≤ side.find text start ∧ text[side.find text start]? = some side.byte) := by
  unfold find
  rcases side.search_finds start (text.drop start) with
    ⟨first, count, hfirst, hsearch⟩ | ⟨hnone, hsearch⟩
  · rw [hsearch, Option.getD_some]
    refine ⟨.inl ⟨first, count, hfirst, rfl⟩, fun _ => ⟨by omega, ?_⟩⟩
    rw [Nat.add_assoc, ← List.getElem?_drop]
    exact hfirst.getElem?_eq _ (side.delimiting_lt hfirst.pos)
  · rw [hsearch, Option.getD_none]
    exact ⟨.inr ⟨hnone, rfl⟩, fun hlt => absurd hlt (Nat.lt_irrefl _)⟩

example : closing.find (Text.bytes "\x7ba\x7d\x7db\x7d\x7d") 0 = 5 := by decide +kernel

end Side

end LogTemplate.Template
