import LogTemplate.Proofs.Json.Tokens
import Mathlib.Data.List.Forall2

/-! What is written for an array or an object is read item by item and field by field, in every
layout. -/

namespace LogTemplate.Json

theorem write_string (l : Layout) (s : String) : write l (.string s) = quote s := by
  rw [write]

theorem write_nat (l : Layout) (n : Nat) : write l (.nat n) = Decimal.digits n := by
  rw [nat, write]
  rfl

theorem head?_write_array (l : Layout) (vs : List Json) :
    (write l (.array vs)).head? = some '[' := by
  cases vs with
  | nil => rw [write]; rfl
  | cons v vs => rw [write]; rfl

theorem head?_write_object (l : Layout) (kvs : List (String × Json)) :
    (write l (.object kvs)).head? = some '{' := by
  cases kvs with
  | nil => rw [write]; rfl
  | cons f kvs => rw [write]; rfl

def Opens (v : Json) : Prop :=
  ∀ l, ∃ c text, write l v = c :: text ∧ Reader.isBlank c = false ∧ c ≠ ']'

theorem opens_of_head? {v : Json} {c : Char} (hc : Reader.isBlank c = false) (hclose : c ≠ ']')
    (hhead : ∀ l, (write l v).head? = some c) : Opens v := by
  intro l
  obtain ⟨text, htext⟩ := List.head?_eq_some_iff.mp (hhead l)
  exact ⟨c, text, htext, hc, hclose⟩

theorem opens_string (s : String) : Opens (.string s) := by
  refine opens_of_head? (c := '"') rfl (by decide) ?_
  intro l
  rw [write_string]
  rfl

theorem opens_array (vs : List Json) : Opens (.array vs) :=
  opens_of_head? (c := '[') rfl (by decide) fun l => head?_write_array l vs

theorem opens_object (kvs : List (String × Json)) : Opens (.object kvs) :=
  opens_of_head? (c := '{') rfl (by decide) fun l => head?_write_object l kvs

theorem isBlank_of_isDigit {c : Char} (hc : c.isDigit = true) : Reader.isBlank c = false := by
  simp only [Reader.isBlank, Bool.or_eq_false_iff, decide_eq_false_iff_not]
  refine ⟨⟨⟨?_, ?_⟩, ?_⟩, ?_⟩ <;> (rintro rfl; cases hc)

theorem exists_head?_write_nat (n : Nat) :
    ∃ c, c.isDigit = true ∧ ∀ l, (write l (.nat n)).head? = some c := by
  obtain ⟨c, tail, heq, -⟩ := Decimal.exists_digits_eq_cons n
  refine ⟨c, Decimal.isDigit_of_mem_digits (heq ▸ List.mem_cons_self ..), fun l => ?_⟩
  rw [write_nat, heq]
  rfl

theorem opens_nat (n : Nat) : Opens (.nat n) := by
  obtain ⟨c, hc, hhead⟩ := exists_head?_write_nat n
  refine opens_of_head? (isBlank_of_isDigit hc) ?_ hhead
  rintro rfl
  cases hc

theorem length_le_writeItems (l : Layout) (vs : List Json) :
    vs.length ≤ (writeItems l vs).length := by
  induction vs with
  | nil => exact Nat.le_refl 0
  | cons v vs ih =>
    rw [writeItems]
    simp only [List.length_cons, List.length_append]
    omega

theorem length_le_writeFields (l : Layout) (kvs : List (String × Json)) :
    kvs.length ≤ (writeFields l kvs).length := by
  induction kvs with
  | nil => exact Nat.le_refl 0
  | cons f kvs ih =>
    rw [writeFields]
    simp only [List.length_cons, List.length_append]
    omega

theorem delimited_cons {c : Char} (hc : c ∈ [',', ']', '}', ' ', '\n', '\t', '\r'])
    (rest : List Char) : Delimited (c :: rest) := by
  intro d hd
  obtain rfl := Option.some.inj hd
  have h : ∀ c ∈ [',', ']', '}', ' ', '\n', '\t', '\r'],
      c.isDigit = false ∧ c ≠ '.' ∧ c ≠ 'e' ∧ c ≠ 'E' := by simp [Char.isDigit]
  exact h c hc

theorem delimited_nil : Delimited [] := by
  intro c hc
  cases hc

theorem delimited_writeItems (l : Layout) (vs : List Json) {rest : List Char}
    (hrest : Delimited rest) : Delimited (writeItems l vs ++ rest) := by
  cases vs with
  | nil => exact hrest
  | cons v vs =>
    rw [writeItems]
    exact delimited_cons (by decide) _

theorem delimited_writeFields (l : Layout) (kvs : List (String × Json)) {rest : List Char}
    (hrest : Delimited rest) : Delimited (writeFields l kvs ++ rest) := by
  cases kvs with
  | nil => exact hrest
  | cons f kvs =>
    rw [writeFields]
    exact delimited_cons (by decide) _

namespace Reader

theorem blank_nil : Blank [] := by
  intro c hc
  cases hc

theorem blank_newline (l : Layout) : Blank l.newline := by
  cases l with
  | compact => exact blank_nil
  | indented n =>
    intro c hc
    rcases List.mem_cons.mp hc with rfl | hc
    · rfl
    · rw [List.eq_of_mem_replicate hc]
      rfl

theorem delimited_blank {blank rest : List Char} (hblank : Blank blank) (hrest : Delimited rest) :
    Delimited (blank ++ rest) := by
  cases blank with
  | nil => exact hrest
  | cons c blank =>
    have hc := hblank c (List.mem_cons_self ..)
    simp only [isBlank, Bool.or_eq_true, decide_eq_true_eq] at hc
    refine delimited_cons ?_ _
    rcases hc with ((rfl | rfl) | rfl) | rfl <;> decide

variable {α σ : Type}

/-- The reader answers `a` to what is written for a value, in every layout and behind any blanks. -/
def Reads (r : Reader α) (v : Json) (a : α) : Prop :=
  ∀ l blank rest, Blank blank → Delimited rest → r.Accepts (blank ++ write l v) rest a

theorem Reads.accepts {r : Reader α} {v : Json} {a : α} (h : r.Reads v a) (l : Layout)
    {rest : List Char} (hrest : Delimited rest) : r.Accepts (write l v) rest a :=
  h l [] rest blank_nil hrest

theorem Reads.bind_pure {β : Type} {r : Reader α} {v : Json} {a : α} (h : r.Reads v a)
    (f : α → β) : (r >>= fun a => pure (f a)).Reads v (f a) := by
  intro l blank rest hblank hrest
  exact (h l blank rest hblank hrest).bind_pure

theorem accepts_closeList (rest : List Char) : closeList.Accepts [']'] rest () :=
  .of_next blank_nil rfl rfl (accepts_advance ']' rest)

theorem accepts_closeObject (rest : List Char) : closeObject.Accepts ['}'] rest () :=
  .of_next blank_nil rfl rfl (accepts_advance '}' rest)

/-! ### Items of an array -/

def leadIn (l : Layout) (isFirst : Bool) : List Char :=
  if isFirst then l.newline else ',' :: l.newline

theorem accepts_nextItem (l : Layout) (isFirst : Bool) {c : Char} (hc : isBlank c = false)
    (hclose : c ≠ ']') (rest : List Char) :
    (nextItem isFirst).Accepts (leadIn l isFirst) (c :: rest) true := by
  cases isFirst with
  | true =>
    refine (accepts_next (blank_newline l) hc rest).bind_last ?_
    split
    · next h => cases h
    · next h => exact absurd (Option.some.inj h) hclose
    · exact accepts_pure _ true
  | false =>
    refine .of_next blank_nil (c := ',') rfl rfl ?_
    refine (accepts_advance ',' _).bind ?_
    refine (accepts_next (blank_newline l) hc rest).bind_last ?_
    split
    · next h => exact absurd (Option.some.inj h) hclose
    · exact accepts_pure _ true
    · next h => cases h

theorem accepts_nextItem_end {blank : List Char} (hblank : Blank blank) (isFirst : Bool)
    (rest : List Char) : (nextItem isFirst).Accepts blank (']' :: rest) false :=
  (accepts_next hblank rfl rest).bind_last (accepts_pure _ false)

theorem accepts_items_cons {item : Reader α} {v : Json} {vs : List Json} {a : α} {as : List α}
    {n : Nat} {blank rest : List Char} (hopens : Opens v) (hitem : item.Reads v a)
    (hblank : Blank blank) (l : Layout) (isFirst : Bool)
    (hrest : (items item n false).Accepts (writeItems l vs ++ blank) (']' :: rest) as) :
    (items item (n + 1) isFirst).Accepts
      (leadIn l isFirst ++ write l v ++ (writeItems l vs ++ blank)) (']' :: rest) (a :: as) := by
  obtain ⟨c, text, hwrite, hc, hclose⟩ := hopens l
  have hfollows : Delimited ((writeItems l vs ++ blank) ++ ']' :: rest) := by
    rw [List.append_assoc]
    exact delimited_writeItems l vs (delimited_blank hblank (delimited_cons (by decide) rest))
  have hnext := accepts_nextItem l isFirst hc hclose
    (text ++ (writeItems l vs ++ blank) ++ ']' :: rest)
  rw [List.append_assoc]
  refine Accepts.bind (a := true) ?_ ?_
  · rw [hwrite]
    exact hnext
  · rw [if_pos rfl]
    exact (hitem.accepts l hfollows).bind (hrest.bind_pure (f := (a :: ·)))

def ReadsAll (item : Reader α) : List Json → List α → Prop :=
  List.Forall₂ fun v a => Opens v ∧ item.Reads v a

theorem accepts_items {item : Reader α} {vs : List Json} {as : List α} (h : ReadsAll item vs as)
    (l : Layout) {n : Nat} (hn : vs.length < n) {blank : List Char} (hblank : Blank blank)
    (rest : List Char) :
    (items item n false).Accepts (writeItems l vs ++ blank) (']' :: rest) as := by
  induction h generalizing n with
  | nil =>
    obtain ⟨m, rfl⟩ := Nat.exists_eq_add_one.mpr hn
    exact (accepts_nextItem_end hblank false rest).bind_last (accepts_pure _ [])
  | cons hv _ ih =>
    obtain ⟨m, rfl⟩ := Nat.exists_eq_add_one.mpr (Nat.zero_lt_of_lt hn)
    have hitems := ih (Nat.lt_of_succ_lt_succ hn)
    have h := accepts_items_cons hv.1 hv.2 hblank l false hitems
    rw [List.append_assoc] at h
    rw [writeItems, List.append_assoc, List.append_assoc]
    exact h

theorem accepts_array {item : Reader α} {vs : List Json} {as : List α} (h : ReadsAll item vs as)
    (l : Layout) (rest : List Char) :
    (enclosed closeList (do items item (← size) true)).Accepts (write l (.array vs)) rest as := by
  cases h with
  | nil =>
    rw [write]
    refine Accepts.enclosed (s := []) (t := [']']) ?_ (accepts_closeList rest) '['
    refine accepts_size_bind fun n hn => ?_
    obtain ⟨m, rfl⟩ := Nat.exists_eq_add_one.mpr (Nat.zero_lt_of_lt hn)
    exact (accepts_nextItem_end blank_nil true rest).bind_last (accepts_pure _ [])
  | @cons v a vs as hv hvs =>
    have hbody : (do items item (← size) true).Accepts
        (leadIn l.deeper true ++ write l.deeper v ++ (writeItems l.deeper vs ++ l.newline))
        (']' :: rest) (a :: as) := by
      refine accepts_size_bind fun n hn => ?_
      have hlength := length_le_writeItems l.deeper vs
      -- an item takes at least one character, so the size of the text counts enough of them
      simp only [List.length_append, List.length_cons] at hn
      obtain ⟨m, rfl⟩ := Nat.exists_eq_add_one.mpr (show 0 < n by omega)
      obtain ⟨c, text, hwrite, -, -⟩ := hv.1 l.deeper
      rw [hwrite, List.length_cons] at hn
      have hitems := accepts_items hvs l.deeper (n := m) (by omega) (blank_newline l) rest
      exact accepts_items_cons hv.1 hv.2 (blank_newline l) l.deeper true hitems
    have henclosed := Accepts.enclosed (t := [']']) hbody (accepts_closeList rest) '['
    rw [write]
    simp only [leadIn, if_true, List.append_assoc, List.cons_append] at henclosed ⊢
    exact henclosed

/-! ### Fields of an object -/

theorem accepts_nextKey (l : Layout) (isFirst : Bool) (key : String) (rest : List Char) :
    (nextKey isFirst).Accepts (leadIn l isFirst ++ quote key) rest (some key) := by
  have hhead : (quote key ++ rest).head? = some '"' := rfl
  have hkey : (do let key ← string; return some key : Reader (Option String)).Accepts (quote key)
      rest (some key) := (accepts_string key rest).bind_pure
  cases isFirst with
  | true =>
    exact .of_next (blank_newline l) rfl hhead hkey
  | false =>
    have hseparator : (leadIn l false ++ quote key ++ rest).head? = some ',' := rfl
    show (nextKey false).Accepts ([] ++ (leadIn l false ++ quote key)) rest (some key)
    refine .of_next blank_nil rfl hseparator ?_
    refine Accepts.bind (s := [',']) (t := l.newline ++ quote key) (accepts_advance ',' _) ?_
    exact .of_next (blank_newline l) rfl hhead hkey

theorem accepts_nextKey_end {blank : List Char} (hblank : Blank blank) (isFirst : Bool)
    (rest : List Char) : (nextKey isFirst).Accepts blank ('}' :: rest) none :=
  (accepts_next hblank rfl rest).bind_last (accepts_pure _ none)

/-- Reading what stands behind a name takes one state to another, in every layout. -/
def ReadsField (field : String → σ → Reader σ) (key : String) (v : Json) (s s' : σ) : Prop :=
  ∀ l rest, Delimited rest → (field key s).Accepts (l.colon ++ write l v) rest s'

inductive ReadsFields (field : String → σ → Reader σ) : List (String × Json) → σ → σ → Prop where
  | nil (s : σ) : ReadsFields field [] s s
  | cons {key : String} {v : Json} {kvs : List (String × Json)} {s s' s'' : σ}
      (hfield : ReadsField field key v s s') (hfields : ReadsFields field kvs s' s'') :
      ReadsFields field ((key, v) :: kvs) s s''

theorem Layout.colon_deeper (l : Layout) : l.deeper.colon = l.colon := by
  cases l <;> rfl

theorem exists_colon_eq (l : Layout) : ∃ blank, l.colon = ':' :: blank ∧ Blank blank := by
  cases l with
  | compact => exact ⟨[], rfl, blank_nil⟩
  | indented n =>
    refine ⟨[' '], rfl, ?_⟩
    intro c hc
    rw [List.mem_singleton.mp hc]
    rfl

theorem accepts_colon (rest : List Char) : colon.Accepts [':'] rest () :=
  .of_next blank_nil (c := ':') rfl rfl (accepts_advance ':' rest)

theorem Reads.accepts_colon {r : Reader α} {v : Json} {a : α} (h : r.Reads v a) (l : Layout)
    {rest : List Char} (hrest : Delimited rest) :
    (do colon; r : Reader α).Accepts (l.colon ++ write l v) rest a := by
  obtain ⟨blank, hl, hblank⟩ := exists_colon_eq l
  rw [hl]
  exact (Reader.accepts_colon _).bind (h l blank rest hblank hrest)

theorem accepts_fields_cons {field : String → σ → Reader σ} {key : String} {v : Json}
    {kvs : List (String × Json)} {s s' s'' : σ} {n : Nat} {blank rest : List Char}
    (hfield : ReadsField field key v s s') (hblank : Blank blank) (l : Layout) (isFirst : Bool)
    (hrest : (fields field n false s').Accepts (writeFields l kvs ++ blank) ('}' :: rest) s'') :
    (fields field (n + 1) isFirst s).Accepts
      (leadIn l isFirst ++ quote key ++ (l.colon ++ write l v ++ (writeFields l kvs ++ blank)))
      ('}' :: rest) s'' := by
  have hfollows : Delimited ((writeFields l kvs ++ blank) ++ '}' :: rest) := by
    rw [List.append_assoc]
    exact delimited_writeFields l kvs (delimited_blank hblank (delimited_cons (by decide) rest))
  exact (accepts_nextKey l isFirst key _).bind ((hfield l _ hfollows).bind hrest)

theorem accepts_fields {field : String → σ → Reader σ} {kvs : List (String × Json)} {s s' : σ}
    (h : ReadsFields field kvs s s') (l : Layout) {n : Nat} (hn : kvs.length < n)
    {blank : List Char} (hblank : Blank blank) (rest : List Char) :
    (fields field n false s).Accepts (writeFields l kvs ++ blank) ('}' :: rest) s' := by
  induction h generalizing n with
  | nil s =>
    obtain ⟨m, rfl⟩ := Nat.exists_eq_add_one.mpr hn
    exact (accepts_nextKey_end hblank false rest).bind_last (accepts_pure _ s)
  | cons hfield _ ih =>
    obtain ⟨m, rfl⟩ := Nat.exists_eq_add_one.mpr (Nat.zero_lt_of_lt hn)
    have hfields := ih (Nat.lt_of_succ_lt_succ hn)
    have h := accepts_fields_cons hfield hblank l false hfields
    simp only [writeFields, leadIn, List.append_assoc, List.cons_append] at h ⊢
    exact h

theorem accepts_object {field : String → σ → Reader σ} {kvs : List (String × Json)} {s s' : σ}
    (h : ReadsFields field kvs s s') {f : σ → Reader α} {a : α}
    (hf : ∀ rest, (f s').Accepts [] rest a) (l : Layout) (rest : List Char) :
    (enclosed closeObject (do f (← fields field (← size) true s))).Accepts (write l (.object kvs))
      rest a := by
  cases h with
  | nil =>
    rw [write]
    refine Accepts.enclosed (s := []) (t := ['}']) ?_ (accepts_closeObject rest) '{'
    refine accepts_size_bind fun n hn => ?_
    obtain ⟨m, rfl⟩ := Nat.exists_eq_add_one.mpr (Nat.zero_lt_of_lt hn)
    refine Accepts.bind_last ?_ (hf _)
    exact (accepts_nextKey_end blank_nil true rest).bind_last (accepts_pure _ s)
  | @cons key v kvs _ s₁ _ hfield hfields =>
    have hbody : (do f (← fields field (← size) true s)).Accepts
        (leadIn l.deeper true ++ quote key ++
          (l.deeper.colon ++ write l.deeper v ++ (writeFields l.deeper kvs ++ l.newline)))
        ('}' :: rest) a := by
      refine accepts_size_bind fun n hn => ?_
      have hlength := length_le_writeFields l.deeper kvs
      have hkey : 0 < (quote key).length := Nat.succ_pos _
      simp only [List.length_append, List.length_cons] at hn
      obtain ⟨m, rfl⟩ := Nat.exists_eq_add_one.mpr (show 0 < n by omega)
      have hrest := accepts_fields hfields l.deeper (n := m) (by omega) (blank_newline l) rest
      refine Accepts.bind_last ?_ (hf _)
      exact accepts_fields_cons hfield (blank_newline l) l.deeper true hrest
    have henclosed := Accepts.enclosed (t := ['}']) hbody (accepts_closeObject rest) '{'
    rw [write]
    simp only [leadIn, if_true, Layout.colon_deeper, List.append_assoc, List.cons_append]
      at henclosed ⊢
    exact henclosed

end Reader

end LogTemplate.Json
