import LogTemplate.Json.Shape
import LogTemplate.Proofs.Json.Sequences

/-! Shapes read back what they write. A shape that is put together from others does so for a value
if the others do for its parts. -/

namespace LogTemplate.Json

open Reader

variable {α β σ : Type}

theorem depth_le_depthItems {v : Json} {vs : List Json} (hv : v ∈ vs) : v.depth ≤ depthItems vs := by
  induction vs with
  | nil => cases hv
  | cons w vs ih =>
    rw [depthItems]
    rcases List.mem_cons.mp hv with rfl | hv
    · exact Nat.le_max_left _ _
    · exact Nat.le_trans (ih hv) (Nat.le_max_right _ _)

theorem depth_le_depthFields {key : String} {v : Json} {kvs : List (String × Json)}
    (hv : (key, v) ∈ kvs) : v.depth ≤ depthFields kvs := by
  induction kvs with
  | nil => cases hv
  | cons f kvs ih =>
    obtain ⟨k, w⟩ := f
    rw [depthFields]
    rcases List.mem_cons.mp hv with h | hv
    · cases h
      exact Nat.le_max_left _ _
    · exact Nat.le_trans (ih hv) (Nat.le_max_right _ _)

theorem exists_levels_of_array {vs : List Json} {levels : Nat}
    (hdepth : (Json.array vs).depth ≤ levels) : ∃ m, levels = m + 1 ∧ depthItems vs ≤ m := by
  rw [depth] at hdepth
  obtain ⟨m, rfl⟩ := Nat.exists_eq_add_one.mpr (Nat.zero_lt_of_lt hdepth)
  exact ⟨m, rfl, Nat.le_of_succ_le_succ hdepth⟩

theorem exists_levels_of_object {kvs : List (String × Json)} {levels : Nat}
    (hdepth : (Json.object kvs).depth ≤ levels) : ∃ m, levels = m + 1 ∧ depthFields kvs ≤ m := by
  rw [depth] at hdepth
  obtain ⟨m, rfl⟩ := Nat.exists_eq_add_one.mpr (Nat.zero_lt_of_lt hdepth)
  exact ⟨m, rfl, Nat.le_of_succ_le_succ hdepth⟩

theorem depthItems_le {vs : List Json} {n : Nat} (h : ∀ v ∈ vs, v.depth ≤ n) :
    depthItems vs ≤ n := by
  induction vs with
  | nil => exact Nat.zero_le n
  | cons v vs ih =>
    rw [depthItems]
    have hv := h v (List.mem_cons_self ..)
    have hvs := ih fun w hw => h w (List.mem_cons_of_mem v hw)
    exact Nat.max_le.mpr ⟨hv, hvs⟩

theorem depthFields_le {kvs : List (String × Json)} {n : Nat} (h : ∀ f ∈ kvs, f.2.depth ≤ n) :
    depthFields kvs ≤ n := by
  induction kvs with
  | nil => exact Nat.zero_le n
  | cons f kvs ih =>
    have hf := h f (List.mem_cons_self ..)
    have hkvs := ih fun g hg => h g (List.mem_cons_of_mem f hg)
    obtain ⟨k, v⟩ := f
    rw [depthFields]
    exact Nat.max_le.mpr ⟨hf, hkvs⟩

theorem Reader.reads_of_begin {f : Char → Reader α} {v : Json} {a : α} {c : Char}
    (hc : isBlank c = false) (hhead : ∀ l, (write l v).head? = some c)
    (h : ∀ l rest, Delimited rest → (f c).Accepts (write l v) rest a) :
    (located (begin >>= f)).Reads v a := by
  intro l blank rest hblank hrest
  have hfirst : (write l v ++ rest).head? = some c := by
    rw [List.head?_append, hhead]
    rfl
  exact (Accepts.of_begin hblank hc hfirst (h l rest hrest)).located

theorem readAll_write {r : Reader α} {v : Json} {a : α} (h : r.Reads v a) (l : Layout) :
    readAll r (String.ofList (write l v)) = .ok a := by
  have hfinish : finish.Accepts [] [] () := by
    intro p size _
    exact ⟨p, rfl⟩
  have haccepts : (do let a ← r; finish; return a : Reader α).Accepts (write l v) [] a := by
    refine (h.accepts l delimited_nil).bind_last ?_
    exact hfinish.bind_pure (f := fun _ => a)
  obtain ⟨q, hq⟩ := haccepts .start (write l v).length (Nat.le_of_eq (by rw [List.append_nil]))
  rw [List.append_nil] at hq
  unfold readAll Cursor.ofText
  rw [String.toList_ofList, hq]

namespace Shape

def Decodes (s : Shape α) (a : α) : Prop := s.decode (s.write a) = .ok a

theorem decodes_text (a : String) : text.Decodes a := rfl

theorem decodes_bounded (name : String) {bound n : Nat} (hn : n < bound) :
    (bounded name bound).Decodes n := by
  have hin : 0 ≤ (n : Int) ∧ (n : Int) < bound := ⟨Int.natCast_nonneg n, Int.ofNat_lt.mpr hn⟩
  exact if_pos hin

theorem Decodes.convert {s : Shape α} {forth : α → β} {back : β → α} {b : β}
    (h : s.Decodes (back b)) (hb : forth (back b) = b) : (s.convert forth back).Decodes b := by
  have hmap : (s.decode (s.write (back b))).map forth = .ok (forth (back b)) := by
    rw [h]
    rfl
  rw [hb] at hmap
  exact hmap

theorem decodes_uint32 (n : UInt32) : uint32.Decodes n :=
  (decodes_bounded "u32" n.toNat_lt).convert UInt32.ofNat_toNat

/-- What is written for a value is read as the value where enough levels are left. -/
structure RoundTrips (s : Shape α) (a : α) : Prop where
  opens : Opens (s.write a)
  reads : ∀ levels, (s.write a).depth ≤ levels → (s.stream levels).Reads (s.write a) a

theorem roundTrips_text (a : String) : text.RoundTrips a where
  opens := opens_string a
  reads levels _ := by
    have hhead (l : Layout) : (Json.write l (.string a)).head? = some '"' := by
      rw [write_string]
      rfl
    refine reads_of_begin rfl hhead ?_
    intro l rest _
    show Reader.string.Accepts (Json.write l (.string a)) rest a
    rw [write_string]
    exact accepts_string a rest

theorem roundTrips_bounded (name : String) {bound n : Nat} (hn : n < bound)
    (hbound : bound ≤ UInt64.size) : (bounded name bound).RoundTrips n where
  opens := opens_nat n
  reads levels _ := by
    obtain ⟨c, hc, hhead⟩ := exists_head?_write_nat n
    have hstarts : startsNumber c = true := by rw [startsNumber, hc, Bool.or_true]
    have hvalue : expectNat name bound (.integer n) = .ok n := decodes_bounded name hn
    refine reads_of_begin (isBlank_of_isDigit hc) hhead ?_
    intro l rest hrest
    rw [if_pos hstarts]
    show Accepts _ (Json.write l (.nat n)) rest n
    rw [write_nat]
    refine (accepts_number (Nat.lt_of_lt_of_le hn hbound) hrest).bind_last ?_
    exact accepts_ofExcept hvalue rest

theorem RoundTrips.convert {s : Shape α} {forth : α → β} {back : β → α} {b : β}
    (h : s.RoundTrips (back b)) (hb : forth (back b) = b) : (s.convert forth back).RoundTrips b where
  opens := h.opens
  reads levels hdepth := by
    have hreads := (h.reads levels hdepth).bind_pure forth
    rw [hb] at hreads
    exact hreads

theorem roundTrips_uint64 (n : UInt64) : uint64.RoundTrips n :=
  (roundTrips_bounded "usize" n.toNat_lt (Nat.le_refl _)).convert UInt64.ofNat_toNat

theorem readsAll_map {s : Shape α} {as : List α} (h : ∀ a ∈ as, s.RoundTrips a) {levels : Nat}
    (hdepth : depthItems (as.map s.write) ≤ levels) :
    ReadsAll (s.stream levels) (as.map s.write) as := by
  refine List.forall₂_map_left_iff.mpr (List.forall₂_same.mpr fun a ha => ?_)
  have hle := depth_le_depthItems (List.mem_map_of_mem (f := s.write) ha)
  exact ⟨(h a ha).opens, (h a ha).reads levels (Nat.le_trans hle hdepth)⟩

theorem RoundTrips.list {s : Shape α} {as : List α} (h : ∀ a ∈ as, s.RoundTrips a) :
    s.list.RoundTrips as where
  opens := opens_array (as.map s.write)
  reads levels hdepth := by
    obtain ⟨m, rfl, hitems⟩ := exists_levels_of_array hdepth
    refine reads_of_begin rfl (fun l => head?_write_array l (as.map s.write)) ?_
    intro l rest _
    exact accepts_array (readsAll_map h hitems) l rest

theorem accepts_word (letters rest : List Char) : (word letters).Accepts letters rest () := by
  induction letters with
  | nil => exact accepts_pure rest ()
  | cons c letters ih =>
    refine (accepts_peek (c :: letters ++ rest)).bind_nil ?_
    show (if c = c then (do advance; word letters) else rejectPast .expectedLiteral).Accepts
      (c :: letters) rest ()
    rw [if_pos rfl]
    exact (accepts_advance c (letters ++ rest)).bind ih

theorem RoundTrips.optional {s : Shape α} {o : Option α}
    (h : ∀ a ∈ o, s.RoundTrips a ∧ ∀ l, (Json.write l (s.write a)).head? ≠ some 'n') :
    s.optional.RoundTrips o := by
  cases o with
  | none =>
    have hnull (l : Layout) : Json.write l .null = ['n', 'u', 'l', 'l'] := by rw [Json.write]
    have hscalar (rest : List Char) : (scalar 'n').Accepts ['n', 'u', 'l', 'l'] rest .null :=
      (accepts_advance 'n' _).bind (accepts_word ['u', 'l', 'l'] rest).bind_pure
    refine ⟨fun l => ⟨'n', ['u', 'l', 'l'], hnull l, rfl, by decide⟩, fun levels _ => ?_⟩
    intro l blank rest hblank _
    show (s.optional.stream levels).Accepts (blank ++ Json.write l .null) rest none
    rw [hnull]
    exact .of_next hblank rfl rfl (hscalar rest).bind_pure
  | some a =>
    obtain ⟨ha, hhead⟩ := h a rfl
    refine ⟨ha.opens, fun levels hdepth => ?_⟩
    intro l blank rest hblank hrest
    obtain ⟨c, text, hwrite, hc, -⟩ := ha.opens l
    have hfirst : (Json.write l (s.write a) ++ rest).head? = some c := by
      rw [hwrite]
      rfl
    have hne : ¬ some c = some 'n' := by
      intro heq
      refine hhead l ?_
      rw [hwrite, ← heq]
      rfl
    refine .of_next hblank hc hfirst ?_
    rw [if_neg hne]
    exact ((ha.reads levels hdepth).accepts l hrest).bind_pure

theorem readsFields_foldl {s : Shape α} {levels : Nat} (field : String → σ → Reader σ)
    (put : String → α → σ → σ) {entries : List (String × α)}
    (hfield : ∀ e ∈ entries, ∀ r, field e.1 r = do
      colon
      let a ← s.stream levels
      return put e.1 a r)
    (hread : ∀ e ∈ entries, s.RoundTrips e.2 ∧ (s.write e.2).depth ≤ levels) (r : σ) :
    ReadsFields field (entries.map fun e => (e.1, s.write e.2)) r
      (entries.foldl (fun r e => put e.1 e.2 r) r) := by
  induction entries generalizing r with
  | nil => exact .nil r
  | cons e entries ih =>
    obtain ⟨ha, hdepth⟩ := hread e (List.mem_cons_self ..)
    refine .cons ?_ (ih (fun e he => hfield e (List.mem_cons_of_mem _ he))
      (fun e he => hread e (List.mem_cons_of_mem _ he)) (put e.1 e.2 r))
    intro l rest hrest
    rw [hfield e (List.mem_cons_self ..)]
    exact ((ha.reads levels hdepth).bind_pure fun a => put e.1 a r).accepts_colon l hrest

end Shape

/-! ### Records -/

/-- What is written for the member of a record is read as the given change of a record. -/
def Member.Reads (f : Member σ) (s : σ) (put : σ → σ) : Prop :=
  Opens (f.write s) ∧
    ∀ levels, (f.write s).depth ≤ levels → (f.stream levels).Reads (f.write s) put

theorem Member.reads_ofShape {sh : Shape α} {get : σ → α} {s : σ} (h : sh.RoundTrips (get s))
    (name : String) (presence : Presence) (put : α → σ → σ) :
    (Member.ofShape name presence sh get put).Reads s (put (get s)) :=
  ⟨h.opens, fun levels hdepth => (h.reads levels hdepth).bind_pure put⟩

theorem find?_name {fields : List (Member σ)} (hnames : (fields.map (·.name)).Nodup)
    {f : Member σ} (hf : f ∈ fields) : fields.find? (·.name = f.name) = some f := by
  induction fields with
  | nil => cases hf
  | cons g fields ih =>
    rw [List.map_cons, List.nodup_cons] at hnames
    rcases List.mem_cons.mp hf with rfl | hf
    · exact List.find?_cons_of_pos (by simp)
    · have hne : g.name ≠ f.name := by
        intro heq
        rw [heq] at hnames
        exact hnames.1 (List.mem_map_of_mem hf)
      rw [List.find?_cons_of_neg (by simpa using hne)]
      exact ih hnames.2 hf

theorem requireAll_of_forall_mem {seen : List String} {slots : List (Slot σ)}
    (h : ∀ f ∈ slots, f.name ∈ seen) : requireAll seen slots = .ok () := by
  induction slots with
  | nil => rfl
  | cons f slots ih =>
    have hf : seen.contains f.name = true := List.contains_iff_mem.mpr (h f (List.mem_cons_self ..))
    rw [requireAll, hf, Bool.true_or, if_pos rfl]
    exact ih fun g hg => h g (List.mem_cons_of_mem f hg)

theorem readsField_streamField {fields : List (Member σ)}
    (hnames : (fields.map (·.name)).Nodup) {f : Member σ} (hf : f ∈ fields) {s : σ}
    {put : σ → σ} (hput : f.Reads s put) {levels : Nat} (hdepth : (f.write s).depth ≤ levels)
    {seen : List String} (hseen : f.name ∉ seen) (r : σ) :
    ReadsField (streamField fields levels) f.name (f.write s) (seen, r) (f.name :: seen, put r) := by
  intro l rest hrest
  have hnew : ¬ seen.contains f.name = true := fun h => hseen (List.contains_iff_mem.mp h)
  have hread : (do let put ← f.stream levels; return (f.name :: seen, put r) :
      Reader (List String × σ)).Reads (f.write s) (f.name :: seen, put r) :=
    (hput.2 levels hdepth).bind_pure fun put => (f.name :: seen, put r)
  unfold streamField
  dsimp only
  rw [if_neg hnew, find?_name hnames hf]
  exact hread.accepts_colon l hrest

theorem readsFields_streamField {fields fs : List (Member σ)}
    (hnames : (fields.map (·.name)).Nodup) (hfs : ∀ f ∈ fs, f ∈ fields)
    (hnew : (fs.map (·.name)).Nodup) {s : σ} {puts : List (σ → σ)}
    (hputs : List.Forall₂ (fun f put => f.Reads s put) fs puts) {levels : Nat}
    (hdepth : ∀ f ∈ fs, (f.write s).depth ≤ levels) {seen : List String}
    (hseen : ∀ f ∈ fs, f.name ∉ seen) (r : σ) :
    ReadsFields (streamField fields levels) (fs.map fun f => (f.name, f.write s)) (seen, r)
      ((fs.map (·.name)).reverse ++ seen, puts.foldl (fun r put => put r) r) := by
  induction hputs generalizing seen r with
  | nil => exact .nil (seen, r)
  | @cons f put fs puts hput _ ih =>
    rw [List.map_cons, List.nodup_cons] at hnew
    have hlater : ∀ g ∈ fs, g.name ∉ f.name :: seen := by
      intro g hg h
      rcases List.mem_cons.mp h with heq | h
      · exact hnew.1 (heq ▸ List.mem_map_of_mem hg)
      · exact hseen g (List.mem_cons_of_mem f hg) h
    have hfirst := readsField_streamField hnames (hfs f (List.mem_cons_self ..)) hput
      (hdepth f (List.mem_cons_self ..)) (hseen f (List.mem_cons_self ..)) r
    have hrest := ih (fun g hg => hfs g (List.mem_cons_of_mem f hg)) hnew.2
      (fun g hg => hdepth g (List.mem_cons_of_mem f hg)) hlater (put r)
    rw [List.map_cons, List.map_cons, List.reverse_cons, List.append_assoc, List.foldl_cons]
    exact .cons hfirst hrest

theorem readsFields_record {fields : List (Member σ)} (hnames : (fields.map (·.name)).Nodup) {s : σ}
    {puts : List (σ → σ)} (hputs : List.Forall₂ (fun f put => f.Reads s put) fields puts)
    {levels : Nat} (hdepth : depthFields (fields.map fun f => (f.name, f.write s)) ≤ levels) (r : σ) :
    ReadsFields (streamField fields levels) (fields.map fun f => (f.name, f.write s)) ([], r)
      ((fields.map (·.name)).reverse, puts.foldl (fun r put => put r) r) := by
  have hmember : ∀ f ∈ fields, (f.write s).depth ≤ levels := by
    intro f hf
    have hle := depth_le_depthFields
      (List.mem_map_of_mem (f := fun f : Member σ => (f.name, f.write s)) hf)
    exact Nat.le_trans hle hdepth
  have hfields := readsFields_streamField hnames (fun _ hf => hf) hnames hputs hmember
    (fun _ _ => List.not_mem_nil) r
  rwa [List.append_nil] at hfields

theorem Shape.roundTrips_record {kind : String} {fields : List (Member σ)} {r s : σ}
    (hnames : (fields.map (·.name)).Nodup) {puts : List (σ → σ)}
    (hputs : List.Forall₂ (fun f put => f.Reads s put) fields puts)
    (hs : puts.foldl (fun r put => put r) r = s) : (Shape.record kind fields r).RoundTrips s where
  opens := opens_object _
  reads levels hdepth := by
    obtain ⟨m, rfl, hmembers⟩ := exists_levels_of_object hdepth
    have hfields := readsFields_record hnames hputs hmembers r
    rw [hs] at hfields
    have hall : requireAll (fields.map (·.name)).reverse (fields.map Member.toSlot) = .ok () := by
      refine requireAll_of_forall_mem fun slot hslot => ?_
      obtain ⟨f, hf, rfl⟩ := List.mem_map.mp hslot
      exact List.mem_reverse.mpr (List.mem_map_of_mem hf)
    refine reads_of_begin rfl (fun l => head?_write_object l _) ?_
    intro l rest _
    refine accepts_object hfields ?_ l rest
    intro rest
    exact (accepts_ofExcept hall rest).bind_pure (f := fun _ => s)

/-! ### Choices -/

theorem Shape.roundTrips_plain {cases : List (Case α)} {write : α → Json} {name : String} {a : α}
    (hfind : findCase cases name = .ok (.plain name a)) (hwrite : write a = .string name) :
    (Shape.choice cases write).RoundTrips a where
  opens := by
    show Opens (write a)
    rw [hwrite]
    exact opens_string name
  reads levels _ := by
    intro l blank rest hblank _
    show (streamChoice cases levels).Accepts (blank ++ Json.write l (write a)) rest a
    rw [hwrite, write_string]
    have hcase : (located do let name ← Reader.string; ofExcept (findCase cases name)).Accepts
        (quote name) rest (.plain name a) :=
      ((accepts_string name rest).bind_last (accepts_ofExcept hfind rest)).located
    exact .of_next hblank rfl rfl (hcase.bind_last (accepts_pure rest a))

theorem Shape.roundTrips_carrying {s : Shape β} {wrap : β → α} {cases : List (Case α)}
    {write : α → Json} {name : String} {b : β}
    (hfind : findCase cases name = .ok (.carrying name s wrap))
    (hwrite : write (wrap b) = .object [(name, s.write b)]) (h : s.RoundTrips b) :
    (Shape.choice cases write).RoundTrips (wrap b) where
  opens := by
    show Opens (write (wrap b))
    rw [hwrite]
    exact opens_object _
  reads levels hdepth := by
    have hlevels : (write (wrap b)).depth ≤ levels := hdepth
    rw [hwrite] at hlevels
    obtain ⟨m, rfl, hcontent⟩ := exists_levels_of_object hlevels
    have hvalue := (h.reads m (Nat.le_trans (Nat.le_max_left _ _) hcontent)).bind_pure wrap
    intro l blank rest hblank _
    have hcase (rest : List Char) :
        (located do let name ← Reader.string; ofExcept (findCase cases name)).Accepts
          (quote name) rest (.carrying name s wrap) :=
      ((accepts_string name rest).bind_last (accepts_ofExcept hfind rest)).located
    have hfollows : Delimited (l.newline ++ ['}'] ++ rest) := by
      rw [List.append_assoc]
      exact delimited_blank (blank_newline l) (delimited_cons (by decide) rest)
    have htext : Json.write l (write (wrap b)) = ['{'] ++ (l.deeper.newline ++ (quote name ++
        (l.deeper.colon ++ Json.write l.deeper (s.write b) ++ (l.newline ++ ['}'])))) := by
      rw [hwrite, Json.write, writeFields, Layout.colon_deeper]
      simp only [List.append_assoc, List.cons_append, List.nil_append]
    show (streamChoice cases (m + 1)).Accepts (blank ++ Json.write l (write (wrap b))) rest (wrap b)
    rw [htext]
    refine .of_next hblank rfl rfl ?_
    refine (accepts_advance '{' _).bind ?_
    refine .of_next (blank_newline l.deeper) rfl rfl ?_
    refine (hcase _).bind ?_
    show (colon >>= fun _ => (Case.carrying name s wrap).stream m >>= _).Accepts _ rest (wrap b)
    rw [← bind_assoc]
    refine (hvalue.accepts_colon l.deeper hfollows).bind ?_
    exact .of_next (blank_newline l) rfl rfl (accepts_advance '}' rest).bind_pure

end LogTemplate.Json
