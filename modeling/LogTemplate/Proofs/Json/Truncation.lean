import LogTemplate.Proofs.Json.Cuts

/-! Texts of which only a beginning was written. Where such a text ends the reader of an array or an
object wants at least a closing bracket, also when it ends behind a whole item or in a number. -/

namespace LogTemplate.Json

namespace Reader

variable {α β σ : Type}

/-! ### Arrays and objects -/

/-- Of a beginning of what is written for the value the reader leaves nothing, if it answers. -/
def Spends (r : Reader α) (v : Json) : Prop :=
  ∀ l blank text, Blank blank → IsCut text (blank ++ write l v) → r.Exhausts text

theorem Spends.map {r : Reader α} {v : Json} (h : r.Spends v) (f : α → β) :
    (r >>= fun a => pure (f a)).Spends v := by
  intro l blank text hblank hcut
  exact (h l blank text hblank hcut).bind fun a => leaves_pure (P := (· = [])) rfl (f a)

theorem blank_of_isCut {blank text : List Char} {c : Char} (hblank : Blank blank)
    (h : IsCut text (blank ++ [c])) : Blank text := by
  rcases h.append_cases with h | ⟨u, rfl, hu⟩
  · exact fun d hd => hblank d (h.mem hd)
  rcases hu.cons_cases with rfl | ⟨v, -, hv⟩
  · rwa [List.append_nil]
  · exact absurd hv (not_isCut_nil v)

/-- Reading in rounds, of which there may be as many as there are characters to read. -/
theorem exhausts_of_length {loop : Nat → Reader α} (hnil : ∀ n, (loop n).Exhausts []) {n : Nat}
    {text : List Char} (hn : text.length ≤ n) (h : ∀ m, n = m + 1 → (loop (m + 1)).Exhausts text) :
    (loop n).Exhausts text := by
  cases n with
  | zero =>
    rw [List.length_eq_zero_iff.mp (Nat.le_zero.mp hn)]
    exact hnil 0
  | succ m => exact h m rfl

theorem refuses_nextItem {text : List Char} (h : Blank text) (isFirst : Bool) :
    (nextItem isFirst).Refuses text :=
  leaves_next_of_blank h (refuses_rejectPast _ [])

theorem refuses_nextKey {text : List Char} (h : Blank text) (isFirst : Bool) :
    (nextKey isFirst).Refuses text :=
  leaves_next_of_blank h (refuses_rejectPast _ [])

theorem exhausts_fields_nil (field : String → σ → Reader σ) (n : Nat) (isFirst : Bool) (s : σ) :
    (fields field n isFirst s).Exhausts [] := by
  cases n with
  | zero => exact leaves_pure (P := (· = [])) rfl s
  | succ n => exact ((refuses_nextKey blank_nil isFirst).bind _).leaves

theorem refuses_nextKey_of_isCut (l : Layout) (isFirst : Bool) (key : String) {text : List Char}
    (h : IsCut text (leadIn l isFirst ++ quote key)) : (nextKey isFirst).Refuses text := by
  have hkey (u : List Char) (hu : IsCut ('"' :: u) (quote key)) :
      (do let key ← string; return some key : Reader (Option String)).Refuses ('"' :: u) :=
    (refuses_string hu).bind _
  cases isFirst with
  | true => exact leaves_next (blank_newline l) rfl rfl (refuses_rejectPast _ []) hkey h
  | false =>
    refine leaves_next blank_nil rfl rfl (refuses_rejectPast _ []) (fun u hu => ?_) h
    refine (accepts_advance ',' u).bind_leaves ?_
    exact leaves_next (blank_newline l) rfl rfl (refuses_rejectPast _ []) hkey hu.of_cons

/-- The same for what stands behind a name, whatever was read before. -/
def SpendsField (field : String → σ → Reader σ) (key : String) (v : Json) : Prop :=
  ∀ s l text, IsCut text (l.colon ++ write l v) → (field key s).Exhausts text

theorem Spends.colon {r : Reader α} {v : Json} (h : r.Spends v) (l : Layout) {text : List Char}
    (hcut : IsCut text (l.colon ++ write l v)) : (do colon; r : Reader α).Exhausts text := by
  obtain ⟨blank, hl, hblank⟩ := exists_colon_eq l
  rw [hl] at hcut
  rcases hcut.cons_cases with rfl | ⟨u, rfl, hu⟩
  · have hcolon : Reader.colon.Refuses [] := leaves_next_of_blank blank_nil (refuses_rejectPast _ [])
    exact (hcolon.bind _).leaves
  · exact (accepts_colon u).bind_leaves (h l blank u hblank hu)

theorem exhausts_fields_cons {field : String → σ → Reader σ} {key : String} {v : Json}
    {kvs : List (String × Json)} {s s' : σ} {n : Nat} {blank text : List Char}
    (hfield : ReadsField field key v s s') (hspends : SpendsField field key v)
    (hblank : Blank blank) (l : Layout) (isFirst : Bool)
    (hrest : ∀ u, IsCut u (writeFields l kvs ++ (blank ++ ['}'])) → u.length ≤ n →
      (fields field n false s').Exhausts u)
    (hn : text.length ≤ n + 1)
    (hcut : IsCut text (leadIn l isFirst ++ quote key ++ (l.colon ++ write l v ++
      (writeFields l kvs ++ (blank ++ ['}']))))) :
    (fields field (n + 1) isFirst s).Exhausts text := by
  rcases hcut.append_cases with hcut | ⟨u, rfl, hu⟩
  · exact ((refuses_nextKey_of_isCut l isFirst key hcut).bind _).leaves
  refine (accepts_nextKey l isFirst key u).bind_leaves ?_
  rcases hu.append_cases with hu | ⟨w, rfl, hw⟩
  · exact (hspends s l u hu).bind fun s => exhausts_fields_nil field n false s
  have hfollows : Delimited w := by
    refine .of_isCut ?_ hw
    exact delimited_writeFields l kvs (delimited_blank hblank (delimited_cons (by decide) []))
  refine (hfield l w hfollows).bind_leaves (hrest w hw ?_)
  have hkey : 0 < (quote key).length := Nat.succ_pos _
  simp only [List.length_append] at hn
  omega

theorem exhausts_fields {field : String → σ → Reader σ} {kvs : List (String × Json)} {s s' : σ}
    (h : ReadsFields field kvs s s') (hspends : ∀ f ∈ kvs, SpendsField field f.1 f.2) (l : Layout)
    {n : Nat} {blank text : List Char} (hblank : Blank blank) (hn : text.length ≤ n)
    (hcut : IsCut text (writeFields l kvs ++ (blank ++ ['}']))) :
    (fields field n false s).Exhausts text := by
  induction h generalizing n text with
  | nil s =>
    refine exhausts_of_length (exhausts_fields_nil field · _ _) hn fun m _ => ?_
    exact ((refuses_nextKey (blank_of_isCut hblank hcut) false).bind _).leaves
  | cons hfield _ ih =>
    refine exhausts_of_length (exhausts_fields_nil field · _ _) hn fun m hm => ?_
    subst hm
    obtain ⟨hv, hkvs⟩ := List.forall_mem_cons.mp hspends
    refine exhausts_fields_cons hfield hv hblank l false (fun u hu hm => ih hkvs hm hu) hn ?_
    simp only [writeFields, leadIn, List.append_assoc, List.cons_append] at hcut ⊢
    exact hcut

theorem refuses_object {field : String → σ → Reader σ} {kvs : List (String × Json)} {s s' : σ}
    (h : ReadsFields field kvs s s') (hspends : ∀ f ∈ kvs, SpendsField field f.1 f.2)
    {f : σ → Reader α} (hf : ∀ s, (f s).Exhausts []) (l : Layout) {u : List Char}
    (hcut : IsCut ('{' :: u) (write l (.object kvs))) :
    (enclosed closeObject (do f (← fields field (← size) true s))).Refuses ('{' :: u) := by
  have hclose : closeObject.Refuses [] := leaves_next_of_blank blank_nil (refuses_rejectPast _ [])
  refine refuses_enclosed (leaves_size_bind fun n hn => Exhausts.bind ?_ hf) hclose '{'
  cases h with
  | nil =>
    rw [write] at hcut
    refine exhausts_of_length (exhausts_fields_nil field · _ _) hn fun m _ => ?_
    have hblank : Blank u := blank_of_isCut blank_nil hcut.of_cons
    exact ((refuses_nextKey hblank true).bind _).leaves
  | cons hfield hfields =>
    refine exhausts_of_length (exhausts_fields_nil field · _ _) hn fun m hm => ?_
    subst hm
    obtain ⟨hv, hkvs⟩ := List.forall_mem_cons.mp hspends
    refine exhausts_fields_cons hfield hv (blank_newline l) l.deeper true
      (fun u hu hm => exhausts_fields hfields hkvs l.deeper (blank_newline l) hm hu) hn ?_
    simp only [write, leadIn, if_true, Layout.colon_deeper, List.append_assoc, List.cons_append]
      at hcut ⊢
    exact hcut.of_cons

theorem exhausts_items_nil (item : Reader α) (n : Nat) (isFirst : Bool) :
    (items item n isFirst).Exhausts [] := by
  cases n with
  | zero => exact leaves_pure (P := (· = [])) rfl []
  | succ n => exact ((refuses_nextItem blank_nil isFirst).bind _).leaves

theorem refuses_nextItem_of_isCut (l : Layout) (isFirst : Bool) {c : Char} {text : List Char}
    (h : IsCut text (leadIn l isFirst ++ [c])) : (nextItem isFirst).Refuses text := by
  cases isFirst with
  | true => exact refuses_nextItem (blank_of_isCut (blank_newline l) h) true
  | false =>
    rcases h.cons_cases with rfl | ⟨u, rfl, hu⟩
    · exact refuses_nextItem blank_nil false
    · refine (accepts_next blank_nil rfl u).bind_leaves ?_
      refine (accepts_advance ',' u).bind_leaves ?_
      exact leaves_next_of_blank (blank_of_isCut (blank_newline l) hu) (refuses_rejectPast _ [])

theorem exhausts_items_cons {item : Reader α} {v : Json} {vs : List Json} {a : α} {n : Nat}
    {blank text : List Char} (hopens : Opens v) (hitem : item.Reads v a) (hspends : item.Spends v)
    (hblank : Blank blank) (l : Layout) (isFirst : Bool)
    (hrest : ∀ u, IsCut u (writeItems l vs ++ (blank ++ [']'])) → u.length ≤ n →
      (items item n false).Exhausts u)
    (hn : text.length ≤ n + 1)
    (hcut : IsCut text (leadIn l isFirst ++ (write l v ++ (writeItems l vs ++ (blank ++ [']']))))) :
    (items item (n + 1) isFirst).Exhausts text := by
  obtain ⟨c, tail, hwrite, hc, hclose⟩ := hopens l
  have hopened : leadIn l isFirst ++ (write l v ++ (writeItems l vs ++ (blank ++ [']'])))
      = leadIn l isFirst ++ [c] ++ (tail ++ (writeItems l vs ++ (blank ++ [']']))) := by
    rw [hwrite, List.append_assoc]
    rfl
  rw [hopened] at hcut
  rcases hcut.append_cases with hcut | ⟨u, rfl, hu⟩
  · exact ((refuses_nextItem_of_isCut l isFirst hcut).bind _).leaves
  rw [List.append_assoc] at hn ⊢
  refine (accepts_nextItem l isFirst hc hclose u).bind_leaves ?_
  rw [if_pos rfl]
  rcases hu.append_cases with hu | ⟨w, rfl, hw⟩
  · have hvalue : IsCut (c :: u) ([] ++ write l v) := by
      rw [List.nil_append, hwrite]
      exact hu.cons c
    refine (hspends l [] (c :: u) blank_nil hvalue).bind fun a => ?_
    exact (exhausts_items_nil item n false).bind fun as => leaves_pure (P := (· = [])) rfl (a :: as)
  · have hfollows : Delimited w := by
      refine .of_isCut ?_ hw
      exact delimited_writeItems l vs (delimited_blank hblank (delimited_cons (by decide) []))
    have hvalue : item.Accepts (c :: tail) w a := hwrite ▸ hitem.accepts l hfollows
    refine hvalue.bind_leaves ((hrest w hw ?_).bind fun as => leaves_pure (P := (· = [])) rfl (a :: as))
    simp only [List.length_append, List.length_cons] at hn
    omega

theorem exhausts_items {item : Reader α} {vs : List Json} {as : List α} (h : ReadsAll item vs as)
    (hspends : ∀ v ∈ vs, item.Spends v) (l : Layout) {n : Nat} {blank text : List Char}
    (hblank : Blank blank) (hn : text.length ≤ n)
    (hcut : IsCut text (writeItems l vs ++ (blank ++ [']']))) : (items item n false).Exhausts text := by
  induction h generalizing n text with
  | nil =>
    refine exhausts_of_length (exhausts_items_nil item · _) hn fun m _ => ?_
    exact ((refuses_nextItem (blank_of_isCut hblank hcut) false).bind _).leaves
  | cons hv _ ih =>
    refine exhausts_of_length (exhausts_items_nil item · _) hn fun m hm => ?_
    subst hm
    obtain ⟨hspend, hvs⟩ := List.forall_mem_cons.mp hspends
    refine exhausts_items_cons hv.1 hv.2 hspend hblank l false (fun u hu hm => ih hvs hm hu) hn ?_
    simp only [writeItems, leadIn, List.append_assoc, List.cons_append] at hcut ⊢
    exact hcut

theorem refuses_array {item : Reader α} {vs : List Json} {as : List α} (h : ReadsAll item vs as)
    (hspends : ∀ v ∈ vs, item.Spends v) (l : Layout) {u : List Char}
    (hcut : IsCut ('[' :: u) (write l (.array vs))) :
    (enclosed closeList (do items item (← size) true)).Refuses ('[' :: u) := by
  have hclose : closeList.Refuses [] := leaves_next_of_blank blank_nil (refuses_rejectPast _ [])
  refine refuses_enclosed (leaves_size_bind fun n hn => ?_) hclose '['
  cases h with
  | nil =>
    rw [write] at hcut
    refine exhausts_of_length (exhausts_items_nil item · _) hn fun m _ => ?_
    have hblank : Blank u := blank_of_isCut blank_nil hcut.of_cons
    exact ((refuses_nextItem hblank true).bind _).leaves
  | cons hv hrest =>
    refine exhausts_of_length (exhausts_items_nil item · _) hn fun m hm => ?_
    subst hm
    obtain ⟨hspend, hvs⟩ := List.forall_mem_cons.mp hspends
    refine exhausts_items_cons hv.1 hv.2 hspend (blank_newline l) l.deeper true
      (fun u hu hm => exhausts_items hrest hvs l.deeper (blank_newline l) hm hu) hn ?_
    simp only [write, leadIn, if_true, List.append_assoc, List.cons_append] at hcut ⊢
    exact hcut.of_cons

theorem exhausts_ofExcept (e : Except Fault α) : (ofExcept e).Exhausts [] := by
  cases e with
  | ok a => exact leaves_pure (P := (· = [])) rfl a
  | error e =>
    intro p size _ a d h
    cases h

theorem spends_of_begin {f : Char → Reader α} {v : Json} {c : Char} (hc : isBlank c = false)
    (hhead : ∀ l, (write l v).head? = some c)
    (h : ∀ l u, IsCut (c :: u) (write l v) → (f c).Exhausts (c :: u)) :
    (located (begin >>= f)).Spends v := by
  intro l blank text hblank hcut
  exact leaves_begin hblank hc (hhead l) (h l) hcut

end Reader

open Reader

variable {α β σ : Type}

namespace Shape

/-- What is written for a value is read as the value, and of a beginning of it nothing is left over. -/
structure Sealed (s : Shape α) (a : α) : Prop extends s.RoundTrips a where
  spends : ∀ levels, (s.write a).depth ≤ levels → (s.stream levels).Spends (s.write a)

theorem sealed_text (a : String) : text.Sealed a where
  toRoundTrips := roundTrips_text a
  spends levels _ := by
    have hwrite (l : Layout) : Json.write l (text.write a) = quote a := write_string l a
    refine spends_of_begin (c := '"') rfl (fun l => by rw [hwrite]; rfl) fun l u hu => ?_
    rw [hwrite] at hu
    exact (refuses_string hu).leaves

theorem sealed_bounded (name : String) {bound n : Nat} (hn : n < bound)
    (hbound : bound ≤ UInt64.size) : (bounded name bound).Sealed n where
  toRoundTrips := roundTrips_bounded name hn hbound
  spends levels _ := by
    obtain ⟨c, hc, hhead⟩ := exists_head?_write_nat n
    have hstarts : startsNumber c = true := by rw [startsNumber, hc, Bool.or_true]
    refine spends_of_begin (isBlank_of_isDigit hc) hhead fun l u hu => ?_
    have hwrite : Json.write l ((bounded name bound).write n) = Decimal.digits n := write_nat l n
    rw [hwrite] at hu
    rw [if_pos hstarts]
    refine (exhausts_number fun d hd => Decimal.isDigit_of_mem_digits (hu.mem hd)).bind fun v => ?_
    exact exhausts_ofExcept (expectNat name bound v)

theorem Sealed.convert {s : Shape α} {forth : α → β} {back : β → α} {b : β}
    (h : s.Sealed (back b)) (hb : forth (back b) = b) : (s.convert forth back).Sealed b where
  toRoundTrips := h.toRoundTrips.convert hb
  spends levels hdepth := (h.spends levels hdepth).map forth

theorem sealed_uint64 (n : UInt64) : uint64.Sealed n :=
  (sealed_bounded "usize" n.toNat_lt (Nat.le_refl _)).convert UInt64.ofNat_toNat

theorem sealed_uint32 (n : UInt32) : uint32.Sealed n :=
  (sealed_bounded "u32" n.toNat_lt (by decide)).convert UInt32.ofNat_toNat

theorem Sealed.list {s : Shape α} {as : List α} (h : ∀ a ∈ as, s.Sealed a) : s.list.Sealed as where
  toRoundTrips := .list fun a ha => (h a ha).toRoundTrips
  spends levels hdepth := by
    obtain ⟨m, rfl, hitems⟩ := exists_levels_of_array hdepth
    have hspends : ∀ v ∈ as.map s.write, (s.stream m).Spends v := by
      intro v hv
      obtain ⟨a, ha, rfl⟩ := List.mem_map.mp hv
      exact (h a ha).spends m (Nat.le_trans (depth_le_depthItems hv) hitems)
    have hreads := readsAll_map (fun a ha => (h a ha).toRoundTrips) hitems
    refine spends_of_begin rfl (fun l => head?_write_array l (as.map s.write)) fun l u hu => ?_
    exact (refuses_array hreads hspends l hu).leaves

end Shape

/-! ### Records and choices -/

def Member.Spends (f : Member σ) (s : σ) : Prop :=
  ∀ levels, (f.write s).depth ≤ levels → (f.stream levels).Spends (f.write s)

theorem Member.sealed_ofShape {sh : Shape α} {get : σ → α} {s : σ} (h : sh.Sealed (get s))
    (name : String) (presence : Presence) (put : α → σ → σ) :
    (Member.ofShape name presence sh get put).Spends s ∧
      (Member.ofShape name presence sh get put).Reads s (put (get s)) :=
  ⟨fun levels hdepth => (h.spends levels hdepth).map put,
    Member.reads_ofShape h.toRoundTrips name presence put⟩

section

variable {fields : List (Member σ)} (hnames : (fields.map (·.name)).Nodup) {s : σ}

include hnames

theorem spendsField_streamField {f : Member σ} (hf : f ∈ fields) (h : f.Spends s) {levels : Nat}
    (hdepth : (f.write s).depth ≤ levels) :
    SpendsField (streamField fields levels) f.name (f.write s) := by
  rintro ⟨seen, r⟩ l text hcut
  unfold streamField
  dsimp only
  by_cases hseen : seen.contains f.name = true
  · rw [if_pos hseen]
    intro p size _ a d hrun
    cases hrun
  · rw [if_neg hseen, find?_name hnames hf]
    exact ((h levels hdepth).map fun put => (f.name :: seen, put r)).colon l hcut

variable {puts : List (σ → σ)}
  (hputs : List.Forall₂ (fun f put => f.Spends s ∧ f.Reads s put) fields puts)

include hputs

theorem Shape.refuses_record {kind : String} {r : σ} {levels : Nat}
    (hdepth : ((Shape.record kind fields r).write s).depth ≤ levels) (l : Layout)
    {blank text : List Char} (hblank : Blank blank)
    (hcut : IsCut text (blank ++ Json.write l ((Shape.record kind fields r).write s))) :
    ((Shape.record kind fields r).stream levels).Refuses text := by
  obtain ⟨m, rfl, hmembers⟩ := exists_levels_of_object hdepth
  obtain ⟨hspends, hreads⟩ := (List.forall₂_and_left fields puts).mp hputs
  have hfields : ∀ e ∈ fields.map (fun f => (f.name, f.write s)),
      SpendsField (streamField fields m) e.1 e.2 := by
    intro e he
    obtain ⟨f, hf, rfl⟩ := List.mem_map.mp he
    have hle := Nat.le_trans (depth_le_depthFields he) hmembers
    exact spendsField_streamField hnames hf (hspends f hf) hle
  refine leaves_begin hblank rfl (head?_write_object l _) (fun u hu => ?_) hcut
  refine refuses_object (readsFields_record hnames hreads hmembers r) hfields (fun p => ?_) l hu
  exact (exhausts_ofExcept _).bind fun _ => leaves_pure (P := (· = [])) rfl p.2

theorem Shape.sealed_record {kind : String} {r : σ} (hs : puts.foldl (fun r put => put r) r = s) :
    (Shape.record kind fields r).Sealed s where
  toRoundTrips := roundTrips_record hnames ((List.forall₂_and_left fields puts).mp hputs).2 hs
  spends levels hdepth := by
    intro l blank text hblank hcut
    exact (refuses_record hnames hputs hdepth l hblank hcut).leaves

end

theorem Shape.sealed_plain {cases : List (Case α)} {write : α → Json} {name : String} {a : α}
    (hfind : findCase cases name = .ok (.plain name a)) (hwrite : write a = .string name) :
    (Shape.choice cases write).Sealed a where
  toRoundTrips := roundTrips_plain hfind hwrite
  spends levels _ := by
    intro l blank text hblank hcut
    have htext : IsCut text (blank ++ Json.write l (write a)) := hcut
    rw [hwrite, write_string] at htext
    refine leaves_next hblank rfl rfl (refuses_rejectPast _ []).leaves (fun u hu => ?_) htext
    have hcase : (located do let name ← Reader.string; ofExcept (findCase cases name)).Refuses
        ('"' :: u) := Leaves.located ((refuses_string hu).bind _)
    exact (hcase.bind _).leaves

end LogTemplate.Json
