import LogTemplate.Proofs.Json.Shapes

/-! What readers leave of a text of which only a beginning was written. A string is refused then; of a
number the digits that are there are read, and nothing is left. -/

namespace LogTemplate.Json

/-- A beginning of a text and not all of it. -/
def IsCut (text whole : List Char) : Prop := ∃ rest, rest ≠ [] ∧ text ++ rest = whole

namespace IsCut

variable {text s t : List Char} {c : Char}

theorem cons_cases (h : IsCut text (c :: s)) : text = [] ∨ ∃ u, text = c :: u ∧ IsCut u s := by
  obtain ⟨rest, hrest, heq⟩ := h
  cases text with
  | nil => exact .inl rfl
  | cons d u =>
    obtain ⟨rfl, hu⟩ := List.cons.inj heq
    exact .inr ⟨u, rfl, rest, hrest, hu⟩

theorem of_cons {u : List Char} (h : IsCut (c :: u) (c :: s)) : IsCut u s := by
  obtain ⟨rest, hrest, heq⟩ := h
  exact ⟨rest, hrest, List.cons_injective heq⟩

theorem cons {u : List Char} (h : IsCut u s) (c : Char) : IsCut (c :: u) (c :: s) := by
  obtain ⟨rest, hrest, rfl⟩ := h
  exact ⟨rest, hrest, rfl⟩

theorem append_cases (h : IsCut text (s ++ t)) : IsCut text s ∨ ∃ u, text = s ++ u ∧ IsCut u t := by
  obtain ⟨rest, hrest, heq⟩ := h
  rcases List.append_eq_append_iff.mp heq with ⟨cut, rfl, hcut⟩ | ⟨u, rfl, rfl⟩
  · by_cases hnil : cut = []
    · subst hnil
      refine .inr ⟨[], ?_, t, ?_, rfl⟩
      · rw [List.append_nil, List.append_nil]
      · rwa [← List.nil_append t, ← hcut]
    · exact .inl ⟨cut, hnil, rfl⟩
  · exact .inr ⟨u, rfl, rest, hrest, rfl⟩

theorem mem (h : IsCut text s) (hc : c ∈ text) : c ∈ s := by
  obtain ⟨rest, -, rfl⟩ := h
  exact List.mem_append_left rest hc

theorem head?_eq (h : IsCut text s) (htext : text ≠ []) : text.head? = s.head? := by
  obtain ⟨rest, -, rfl⟩ := h
  rw [List.head?_append_of_ne_nil text htext]

theorem length_lt (h : IsCut text s) : text.length < s.length := by
  obtain ⟨rest, hrest, rfl⟩ := h
  rw [List.length_append]
  exact Nat.lt_add_of_pos_right (List.length_pos_iff.mpr hrest)

end IsCut

theorem not_isCut_nil (text : List Char) : ¬ IsCut text [] :=
  fun h => absurd h.length_lt (Nat.not_lt_zero _)

theorem Delimited.of_isCut {text rest : List Char} (h : Delimited rest) (hcut : IsCut text rest) :
    Delimited text := by
  intro c hc
  refine h c ?_
  rw [← hc, hcut.head?_eq fun hnil => by rw [hnil] at hc; cases hc]

namespace Reader

variable {α β σ : Type} {P : List Char → Prop} {r : Reader α} {text : List Char}

/-- What the reader leaves of the text has the property, if it answers. -/
def Leaves (P : List Char → Prop) (r : Reader α) (text : List Char) : Prop :=
  ∀ p size, text.length ≤ size → ∀ a d, r ⟨text, p, size⟩ = (.ok a, d) → P d.rest

abbrev Exhausts (r : Reader α) (text : List Char) : Prop := r.Leaves (· = []) text

abbrev Refuses (r : Reader α) (text : List Char) : Prop := r.Leaves (fun _ => False) text

theorem Refuses.leaves (h : r.Refuses text) : r.Leaves P text :=
  fun p size hsize a d hr => (h p size hsize a d hr).elim

theorem leaves_pure (h : P text) (a : α) : (pure a : Reader α).Leaves P text := by
  intro p size _ b d heq
  cases heq
  exact h

theorem refuses_rejectPast (fault : Fault) (text : List Char) :
    (rejectPast fault : Reader α).Refuses text := by
  intro p size _ a d h
  cases h

theorem Exhausts.bind {f : α → Reader β} (hr : r.Exhausts text) (hf : ∀ a, (f a).Leaves P []) :
    (r >>= f).Leaves P text := by
  intro p size hsize b d h
  cases hrun : r ⟨text, p, size⟩ with
  | mk answer c =>
    cases answer with
    | error e =>
      rw [bind_of_error hrun] at h
      cases h
    | ok a =>
      rw [bind_of_ok hrun] at h
      obtain ⟨rest, q, n⟩ := c
      obtain rfl : rest = [] := hr p size hsize a _ hrun
      exact hf a q n (Nat.zero_le n) b d h

theorem Refuses.bind (hr : r.Refuses text) (f : α → Reader β) : (r >>= f).Refuses text := by
  intro p size hsize b d h
  cases hrun : r ⟨text, p, size⟩ with
  | mk answer c =>
    cases answer with
    | error e =>
      rw [bind_of_error hrun] at h
      cases h
    | ok a => exact hr p size hsize a c hrun

theorem Accepts.bind_leaves {f : α → Reader β} {s t : List Char} {a : α} (hr : r.Accepts s t a)
    (hf : (f a).Leaves P t) : (r >>= f).Leaves P (s ++ t) := by
  intro p size hsize b d h
  obtain ⟨q, hq⟩ := hr p size hsize
  rw [bind_of_ok hq] at h
  rw [List.length_append] at hsize
  exact hf q size (Nat.le_trans (Nat.le_add_left _ _) hsize) b d h

theorem Leaves.located (hr : r.Leaves P text) : r.located.Leaves P text := by
  intro p size hsize a d h
  cases hrun : r ⟨text, p, size⟩ with
  | mk answer c =>
    cases answer with
    | error e =>
      obtain ⟨fault, position⟩ := e
      cases position <;> (simp only [Reader.located, hrun] at h; cases h)
    | ok b =>
      simp only [Reader.located, hrun] at h
      cases h
      exact hr p size hsize a d hrun

theorem leaves_size_bind {f : Nat → Reader α} (hf : ∀ n, text.length ≤ n → (f n).Leaves P text) :
    (size >>= f).Leaves P text := by
  intro p n hn a d h
  have hsize : size ⟨text, p, n⟩ = (.ok n, ⟨text, p, n⟩) := rfl
  rw [bind_of_ok hsize] at h
  exact hf n hn p n hn a d h

theorem refuses_enclosed {close : Reader Unit} {body : Reader α} (hbody : body.Exhausts text)
    (hclose : close.Refuses []) (c : Char) : (enclosed close body).Refuses (c :: text) := by
  intro p size hsize a d h
  have hopened : (do advance; body : Reader α).Exhausts (c :: text) :=
    (accepts_advance c text).bind_leaves hbody
  cases hrun : (do advance; body : Reader α) ⟨c :: text, p, size⟩ with
  | mk answer d' =>
    cases answer with
    | error e =>
      simp only [Reader.enclosed, hrun] at h
      cases h
    | ok b =>
      obtain ⟨rest, q, n⟩ := d'
      obtain rfl : rest = [] := hopened p size hsize b _ hrun
      cases hend : close ⟨[], q, n⟩ with
      | mk closed d'' =>
        cases closed with
        | error e =>
          simp only [Reader.enclosed, hrun, hend] at h
          cases h
        | ok u => exact hclose q n (Nat.zero_le n) u d'' hend

theorem Refuses.exists_error {x : String} (h : r.Refuses x.toList) :
    ∃ e, readAll r x = .error e := by
  cases hread : readAll r x with
  | error e => exact ⟨e, rfl⟩
  | ok a =>
    have hwhole : (do let a ← r; finish; return a : Reader α).Refuses x.toList :=
      h.bind fun a => do finish; return a
    cases hrun : (do let a ← r; finish; return a : Reader α) (.ofText x) with
    | mk answer d =>
      have hanswer : answer = .ok a := by
        rw [← hread]
        exact (congrArg Prod.fst hrun).symm
      rw [hanswer] at hrun
      exact (hwhole .start x.toList.length (Nat.le_refl _) a d hrun).elim

/-! ### Behind blanks -/

theorem accepts_next_none (h : Blank text) : next.Accepts text [] none := by
  intro p size _
  have hdrop : (text ++ []).dropWhile isBlank = [] := by
    rw [List.dropWhile_append_of_pos h, List.dropWhile_nil]
  refine ⟨p.afterAll ((text ++ []).takeWhile isBlank), ?_⟩
  show (Except.ok ((text ++ []).dropWhile isBlank).head?, Cursor.mk ((text ++ []).dropWhile isBlank) _ _)
    = _
  rw [hdrop]
  rfl

theorem leaves_next_of_blank {f : Option Char → Reader α} (h : Blank text)
    (hnone : (f none).Leaves P []) : (next >>= f).Leaves P text := by
  have hnext := (accepts_next_none h).bind_leaves hnone
  rwa [List.append_nil] at hnext

/-- Before a beginning of a text that opens with no blank the reader sees that character or nothing. -/
theorem leaves_next {f : Option Char → Reader α} {blank whole : List Char} {c : Char}
    (hblank : Blank blank) (hc : isBlank c = false) (hhead : whole.head? = some c)
    (hnone : (f none).Leaves P []) (hsome : ∀ u, IsCut (c :: u) whole → (f (some c)).Leaves P (c :: u))
    (h : IsCut text (blank ++ whole)) : (next >>= f).Leaves P text := by
  rcases h.append_cases with h | ⟨u, rfl, hu⟩
  · exact leaves_next_of_blank (fun d hd => hblank d (h.mem hd)) hnone
  · cases u with
    | nil =>
      rw [List.append_nil]
      exact leaves_next_of_blank hblank hnone
    | cons d u =>
      have hd : d = c := Option.some.inj ((hu.head?_eq (List.cons_ne_nil d u)).trans hhead)
      subst hd
      exact (accepts_next hblank hc u).bind_leaves (hsome u hu)

theorem leaves_begin {f : Char → Reader α} {blank whole : List Char} {c : Char}
    (hblank : Blank blank) (hc : isBlank c = false) (hhead : whole.head? = some c)
    (hf : ∀ u, IsCut (c :: u) whole → (f c).Leaves P (c :: u)) (h : IsCut text (blank ++ whole)) :
    (located (begin >>= f)).Leaves P text := by
  unfold begin
  rw [bind_assoc]
  exact (leaves_next hblank hc hhead (refuses_rejectPast _ []).leaves hf h).located

end Reader

/-! ### Strings and numbers -/

theorem IsCut.byteCount_lt {text whole : List Char} (h : IsCut text whole) :
    byteCount text < byteCount whole := by
  obtain ⟨rest, hrest, rfl⟩ := h
  obtain ⟨c, tail, rfl⟩ := List.exists_cons_of_ne_nil hrest
  have hc := c.utf8Size_pos
  simp only [byteCount, total_append, total_cons]
  omega

theorem scanHex_of_isCut {a b c d : Char} {text : List Char} (h : IsCut text [a, b, c, d])
    (hsize : byteCount [a, b, c, d] = 4) (p : Position) :
    scanHex text p = rejectAt .endInString (p.afterAll text) := by
  have hlength : text.length < 4 := h.length_lt
  have hshort : byteCount (text.take 4) < 4 := by
    rw [List.take_of_length_le (Nat.le_of_lt hlength), ← hsize]
    exact h.byteCount_lt
  rw [scanHex, if_pos hshort]

theorem scanEscape_nil (strict : Bool) (p : Position) :
    scanEscape strict [] p = rejectAt .endInString p := by
  rw [scanEscape]

theorem scanEscape_of_isCut {n : Nat} (hn : n < 32) {text : List Char}
    (h : IsCut text ['u', '0', '0', hexDigit (n / 16), hexDigit (n % 16)]) (p : Position) :
    ∃ e, scanEscape true text p = .error e := by
  rcases h.cons_cases with rfl | ⟨u, rfl, hu⟩
  · exact ⟨_, scanEscape_nil true p⟩
  · have hdigit : ∀ d < 16, (hexDigit d).utf8Size = 1 := by decide
    have hsize : byteCount ['0', '0', hexDigit (n / 16), hexDigit (n % 16)] = 4 := by
      have hzero : ('0').utf8Size = 1 := rfl
      simp only [byteCount, total_cons, total_nil, hzero, hdigit (n / 16) (by omega),
        hdigit (n % 16) (by omega)]
    refine ⟨⟨.endInString, some ((p.after 'u').afterAll u)⟩, ?_⟩
    rw [scanEscape, scanCodePoint, scanHex_of_isCut hu hsize]
    rfl

theorem scanString_of_scanEscape {strict : Bool} {text : List Char} {p : Position} {e : Rejection}
    (h : scanEscape strict text (p.after '\\') = .error e) (done : List Char) :
    scanString strict done ('\\' :: text) p = .error e := by
  rw [scanString]
  split
  · next hx =>
    rw [h] at hx
    cases hx
  · next hx =>
    rw [h] at hx
    exact hx.symm

theorem scanString_nil (strict : Bool) (done : List Char) (p : Position) :
    scanString strict done [] p = rejectAt .endInString p := by
  rw [scanString]

theorem scanString_of_isCut {c : Char} {text : List Char} (h : IsCut text (escapeChar c))
    (done : List Char) (p : Position) : ∃ e, scanString true done text p = .error e := by
  have short {mark : Char} (h : IsCut text ['\\', mark]) :
      ∃ e, scanString true done text p = .error e := by
    rcases h.cons_cases with rfl | ⟨u, rfl, hu⟩
    · exact ⟨_, scanString_nil true done p⟩
    rcases hu.cons_cases with rfl | ⟨v, -, hv⟩
    · exact ⟨_, scanString_of_scanEscape (scanEscape_nil true _) done⟩
    · exact absurd hv (not_isCut_nil v)
  unfold escapeChar at h
  split_ifs at h with _ _ _ _ _ _ _ hcontrol
  · exact short h
  · exact short h
  · exact short h
  · exact short h
  · exact short h
  · exact short h
  · exact short h
  · rcases h.cons_cases with rfl | ⟨u, rfl, hu⟩
    · exact ⟨_, scanString_nil true done p⟩
    obtain ⟨e, he⟩ := scanEscape_of_isCut hcontrol hu (p.after '\\')
    exact ⟨e, scanString_of_scanEscape he done⟩
  · rcases h.cons_cases with rfl | ⟨u, -, hu⟩
    · exact ⟨_, scanString_nil true done p⟩
    · exact absurd hu (not_isCut_nil u)

theorem scanString_of_unquoted {s text : List Char} (h : IsCut text (s.flatMap escapeChar ++ ['"']))
    (done : List Char) (p : Position) : ∃ e, scanString true done text p = .error e := by
  induction s generalizing text done p with
  | nil =>
    rcases h.cons_cases with rfl | ⟨u, -, hu⟩
    · exact ⟨_, scanString_nil true done p⟩
    · exact absurd hu (not_isCut_nil u)
  | cons c s ih =>
    rw [List.flatMap_cons, List.append_assoc] at h
    rcases h.append_cases with h | ⟨u, rfl, hu⟩
    · exact scanString_of_isCut h done p
    · obtain ⟨q, hq⟩ := scanString_escapeChar c done u p
      rw [hq]
      exact ih hu (c :: done) q

namespace Reader

theorem refuses_string {s : String} {u : List Char} (h : IsCut ('"' :: u) (quote s)) :
    Reader.string.Refuses ('"' :: u) := by
  have hscan : (scan (scanString true [])).Refuses u := by
    intro p size _ a d hrun
    obtain ⟨e, he⟩ := scanString_of_unquoted h.of_cons [] p
    simp only [scan, he] at hrun
    cases hrun
  exact (accepts_advance '"' u).bind_leaves (hscan.bind _)

section

variable {text : List Char} (h : ∀ c ∈ text, c.isDigit = true)

include h

theorem exhausts_wholeDigits : (wholeDigits true).Exhausts text := by
  refine (accepts_peek text).bind_leaves ?_
  cases text with
  | nil =>
    intro p size _ a d hrun
    cases hrun
  | cons c u =>
    by_cases hc : c = '0'
    · subst hc
      refine (accepts_advance '0' u).bind_leaves ((accepts_peek u).bind_leaves ?_)
      cases u with
      | nil => exact leaves_pure (P := (· = [])) rfl ['0']
      | cons d u =>
        have hd := h d (List.mem_cons_of_mem '0' (List.mem_cons_self ..))
        simp only [List.head?_cons, hd, if_true]
        exact (refuses_rejectPast _ _).leaves
    · split
      · next heq => cases heq
      · next heq => exact absurd (Option.some.inj heq) hc
      · next d _ heq =>
        obtain rfl := Option.some.inj heq
        rw [if_pos (h c (List.mem_cons_self ..))]
        intro p size hsize ds d hrun
        obtain ⟨q, hq⟩ := accepts_digits h delimited_nil p size (by rwa [List.append_nil])
        rw [List.append_nil, hrun] at hq
        cases hq
        rfl

theorem exhausts_numeral : (numeral true).Exhausts text := by
  have hsign : text.head? ≠ some '-' := by
    intro hhead
    obtain ⟨tail, rfl⟩ := List.head?_eq_some_iff.mp hhead
    exact absurd (h '-' (List.mem_cons_self ..)) (by decide)
  have hfraction : (fractionDigits true).Accepts [] [] none := fun p _ _ => ⟨p, rfl⟩
  have hexponent : (exponentDigits true).Accepts [] [] none := fun p _ _ => ⟨p, rfl⟩
  refine (accepts_peek text).bind_leaves ?_
  simp only [hsign, decide_false]
  refine (exhausts_wholeDigits h).bind fun whole => ?_
  refine hfraction.bind_leaves (t := []) (hexponent.bind_leaves (t := []) ?_)
  exact leaves_pure (P := (· = [])) rfl _

theorem exhausts_number : number.Exhausts text := by
  refine (exhausts_numeral h).bind fun n => ?_
  cases n.value? with
  | some v => exact leaves_pure (P := (· = [])) rfl v
  | none =>
    intro p size _ a d hrun
    cases hrun

end

end Reader

end LogTemplate.Json
