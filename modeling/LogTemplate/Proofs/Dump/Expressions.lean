import LogTemplate.Proofs.Dump.Location

/-! Expressions in a dump are read back as they were written. They are read whole before their
fields are looked at, and what is made of the fields is nested no deeper than they are. -/

namespace LogTemplate

open Json Json.Reader Json.Shape

/-! ### Constants -/

namespace Constant

theorem ofJson_toJson (c : Constant) : ofJson c.toJson = .ok c := by
  cases c <;> rfl

theorem depth_toJson (c : Constant) : c.toJson.depth = 1 := by
  cases c <;> rfl

theorem roundTrips_any (c : Constant) : any.RoundTrips c.toJson := by
  cases c with
  | string s | other s =>
    refine roundTrips_any_object (List.forall_mem_cons.mpr ⟨roundTrips_any_string _, ?_⟩)
    exact List.forall_mem_singleton.mpr (roundTrips_any_string s)
  | null => exact roundTrips_any_object (List.forall_mem_singleton.mpr (roundTrips_any_string _))

end Constant

namespace Expr

@[induction_eliminator]
theorem induct {P : Expr → Prop} (constant : ∀ v l, P (.constant v l))
    (concat : ∀ es l, (∀ e ∈ es, P e) → P (.concat es l)) (other : ∀ s l, P (.other s l)) :
    ∀ e, P e
  | .constant v l => constant v l
  | .concat es l => concat es l fun e _ => induct constant concat other e
  | .other s l => other s l

theorem toJsons_eq_map (es : List Expr) : toJsons es = es.map toJson := by
  induction es with
  | nil => rfl
  | cons e es ih => rw [toJsons, ih, List.map_cons]

def kind : Expr → Kind
  | constant _ _ => .constant
  | concat _ _ => .concat
  | other _ _ => .other

def Kind.name : Kind → String
  | constant => "constant"
  | concat => "concat"
  | other => "other"

def content : Expr → List (String × Json)
  | constant v l => [("value", v.toJson), ("location", Location.shape.write l)]
  | concat es l => [("operands", .array (es.map toJson)), ("location", Location.shape.write l)]
  | other s l => [("syntax", .string s), ("location", Location.shape.write l)]

theorem toJson_eq (e : Expr) : e.toJson = .object (("kind", .string e.kind.name) :: e.content) := by
  cases e with
  | constant v l => rw [toJson]; rfl
  | concat es l => rw [toJson, toJsons_eq_map]; rfl
  | other s l => rw [toJson]; rfl

theorem decodeTag_name (k : Kind) : decodeTag Kind.names (.string k.name) = .ok k := by
  cases k <;> rfl

theorem ne_kind_of_mem_content {e : Expr} {f : String × Json} (hf : f ∈ e.content) :
    f.1 ≠ "kind" := by
  have hkeys : "kind" ∉ e.content.map Prod.fst := by cases e <;> simp [content]
  rintro heq
  exact hkeys (heq ▸ List.mem_map_of_mem hf)

theorem roundTrips_any_of_content {e : Expr} (h : ∀ f ∈ e.content, any.RoundTrips f.2) :
    any.RoundTrips e.toJson := by
  rw [toJson_eq]
  exact roundTrips_any_object (List.forall_mem_cons.mpr ⟨roundTrips_any_string e.kind.name, h⟩)

theorem roundTrips_content (e : Expr) : ∀ f ∈ e.content, any.RoundTrips f.2 := by
  have hlocation (l : Location) :
      ∀ f ∈ [("location", Location.shape.write l)], any.RoundTrips f.2 :=
    List.forall_mem_singleton.mpr l.roundTrips_any
  induction e with
  | constant v l => exact List.forall_mem_cons.mpr ⟨v.roundTrips_any, hlocation l⟩
  | concat es l ih =>
    refine List.forall_mem_cons.mpr ⟨roundTrips_any_array fun v hv => ?_, hlocation l⟩
    obtain ⟨e, he, rfl⟩ := List.mem_map.mp hv
    exact roundTrips_any_of_content (ih e he)
  | other s l => exact List.forall_mem_cons.mpr ⟨roundTrips_any_string s, hlocation l⟩

theorem depth_toJson (e : Expr) : e.toJson.depth = depthFields e.content + 1 := by
  rw [toJson_eq, depth, depthFields, depth]
  · rw [Nat.zero_max]
  all_goals simp

theorem depth_toJson_constant (v : Constant) (l : Location) : (constant v l).toJson.depth = 2 := by
  rw [depth_toJson, content, depthFields, depthFields, v.depth_toJson, l.depth_write]
  rfl

theorem depth_toJson_concat (es : List Expr) (l : Location) :
    (concat es l).toJson.depth = depthItems (es.map toJson) + 2 := by
  rw [depth_toJson, content, depthFields, depthFields, depthFields, depth, l.depth_write]
  omega

theorem depth_toJson_other (s : String) (l : Location) : (other s l).toJson.depth = 2 := by
  rw [depth_toJson, content]
  rfl

/-! ### The head of an expression -/

theorem reads_streamKind (k : Kind) : streamKind.Reads (.string k.name) k := by
  have hhead (l : Layout) : (write l (.string k.name)).head? = some '"' := by
    rw [write_string]
    rfl
  refine reads_of_begin rfl hhead fun l rest _ => ?_
  rw [if_pos rfl, write_string]
  exact (accepts_string k.name rest).bind_last (accepts_ofExcept (decodeTag_name k) rest)

theorem readsFields_streamField (e : Expr) {levels : Nat}
    (hdepth : depthFields e.content ≤ levels) :
    ReadsFields (streamField levels) (("kind", .string e.kind.name) :: e.content) (none, [])
      (some e.kind, e.content.reverse) := by
  have hkind : ReadsField (streamField levels) "kind" (.string e.kind.name) (none, [])
      (some e.kind, []) := by
    intro l rest hrest
    exact ((reads_streamKind e.kind).bind_pure fun k => (some k, [])).accepts_colon l hrest
  have hread : ∀ f ∈ e.content, any.RoundTrips f.2 ∧ f.2.depth ≤ levels :=
    fun f hf => ⟨e.roundTrips_content f hf, Nat.le_trans (depth_le_depthFields hf) hdepth⟩
  have hfield : ∀ f ∈ e.content, ∀ p, streamField levels f.1 p = do
      colon
      let v ← any.stream levels
      return (p.1, (f.1, v) :: p.2) := fun f hf p => if_neg (ne_kind_of_mem_content hf)
  have hothers := readsFields_foldl (streamField levels) (fun key v p => (p.1, (key, v) :: p.2))
    hfield hread (some e.kind, [])
  have hwrite : e.content.map (fun f => (f.1, any.write f.2)) = e.content := List.map_id _
  have hgathered : e.content.foldl (fun p f => (p.1, (f.1, f.2) :: p.2)) (some e.kind, [])
      = (some e.kind, e.content.reverse) := by
    cases e <;> rfl
  rw [hwrite, hgathered] at hothers
  exact .cons hkind hothers

theorem reads_streamHead (e : Expr) {levels : Nat} (hdepth : e.toJson.depth ≤ levels) :
    (streamHead levels).Reads e.toJson (e.kind, .object e.content) := by
  rw [depth_toJson] at hdepth
  obtain ⟨m, rfl⟩ := Nat.exists_eq_add_one.mpr (Nat.zero_lt_of_lt hdepth)
  have hfields := readsFields_streamField e (Nat.le_of_succ_le_succ hdepth)
  rw [toJson_eq]
  refine reads_of_begin rfl (fun l => head?_write_object l _) fun l rest _ => ?_
  refine accepts_object hfields (fun rest => ?_) l rest
  show Accepts (pure (e.kind, Json.object e.content.reverse.reverse)) [] rest _
  rw [List.reverse_reverse]
  exact accepts_pure rest _

/-! ### The content of an expression -/

theorem decodeRecord_slots {α : Type} {name : String} (hname : name ≠ "location")
    {decode : Json → Except Fault α} {v : Json} {a : α} (hv : decode v = .ok a) (l : Location)
    (kind : String) (r : α × Location) :
    decodeRecord kind (slots name decode) r
      (.object [(name, v), ("location", Location.shape.write l)]) = .ok (a, l) := by
  have hfirst : (slots name decode).find? (·.name = name) = some (.ofDecode name .required decode
      fun v r => (v, r.2)) :=
    List.find?_cons_of_pos (by simp [Slot.ofDecode])
  have hsecond : (slots name decode).find? (·.name = "location") = some (.ofDecode "location"
      .required Location.shape.decode fun v r => (r.1, v)) := by
    rw [slots, List.find?_cons_of_neg (by simp [Slot.ofDecode, hname])]
    rfl
  show decodeNamed _ _ [] r = _
  rw [decodeNamed_cons hfirst List.not_mem_nil (Slot.decode_ofDecode hv _ _ _),
    decodeNamed_cons hsecond (by simpa using hname.symm) (Slot.decode_ofDecode l.decodes _ _ _)]
  refine decodeNamed_nil (requireAll_of_forall_mem ?_) _
  simp [slots, Slot.ofDecode]

theorem ofContent_content {operand : Json → Except Fault Expr} {e : Expr}
    (h : ∀ es l, e = .concat es l → ∀ f ∈ es, operand f.toJson = .ok f) :
    ofContent operand (.object e.content) e.kind = .ok e := by
  cases e with
  | constant v l =>
    have hname : "value" ≠ "location" := by decide
    show (decodeRecord _ _ _ (.object (content (.constant v l))) >>= _) = _
    rw [content, decodeRecord_slots hname v.ofJson_toJson]
    rfl
  | concat es l =>
    have hname : "operands" ≠ "location" := by decide
    show (decodeRecord _ _ _ (.object (content (.concat es l))) >>= _) = _
    rw [content, decodeRecord_slots hname (decodeList_map (h es l rfl))]
    rfl
  | other s l =>
    have hname : "syntax" ≠ "location" := by decide
    have hs : expectString (.string s) = .ok s := rfl
    show (decodeRecord _ _ _ (.object (content (.other s l))) >>= _) = _
    rw [content, decodeRecord_slots hname hs]
    rfl

theorem splitKind_of_forall_ne {kvs : List (String × Json)} (h : ∀ f ∈ kvs, f.1 ≠ "kind")
    (k : Kind) : splitKind kvs (some k) = .ok (k, kvs) := by
  induction kvs with
  | nil => rfl
  | cons f kvs ih =>
    obtain ⟨hf, hkvs⟩ := List.forall_mem_cons.mp h
    obtain ⟨key, v⟩ := f
    have hkey : ∀ w, (key, v) = ("kind", w) → False := fun w heq => hf (congrArg Prod.fst heq)
    rw [splitKind, ih hkvs]
    · rfl
    · exact hkey

theorem ofJsonBelow_succ_toJson (n : Nat) (e : Expr) :
    ofJsonBelow (n + 1) e.toJson = ofContent (ofJsonBelow n) (.object e.content) e.kind := by
  have hsplit : splitKind (("kind", .string e.kind.name) :: e.content) none
      = .ok (e.kind, e.content) := by
    rw [splitKind, decodeTag_name]
    exact splitKind_of_forall_ne (fun _ hf => ne_kind_of_mem_content hf) e.kind
  rw [toJson_eq, ofJsonBelow, hsplit]
  rfl

theorem ofJsonBelow_toJson (e : Expr) {n : Nat} (hn : e.toJson.depth < n) :
    ofJsonBelow n e.toJson = .ok e := by
  obtain ⟨m, rfl⟩ := Nat.exists_eq_add_one.mpr (Nat.zero_lt_of_lt hn)
  rw [ofJsonBelow_succ_toJson]
  induction e generalizing m with
  | constant v l => exact ofContent_content fun _ _ h => nomatch h
  | other s l => exact ofContent_content fun _ _ h => nomatch h
  | concat es l ih =>
    refine ofContent_content fun es' l' h f hf => ?_
    cases h
    -- an operand lies two levels deeper, behind the object and the array
    have hf' : f.toJson.depth ≤ depthItems (es.map toJson) :=
      depth_le_depthItems (List.mem_map_of_mem hf)
    rw [depth_toJson_concat] at hn
    obtain ⟨k, rfl⟩ : ∃ k, m = k + 1 := Nat.exists_eq_add_one.mpr (by omega)
    rw [ofJsonBelow_succ_toJson]
    exact ih f hf k (by omega)

theorem ofJson_toJson (e : Expr) : ofJson e.toJson = .ok e :=
  ofJsonBelow_toJson e (Nat.lt_succ_self _)

theorem roundTrips (e : Expr) : Expr.shape.RoundTrips e where
  opens := by
    show Opens e.toJson
    rw [toJson_eq]
    exact opens_object _
  reads levels hdepth := by
    have hcontent : ofContent ofJson (.object e.content) e.kind = .ok e :=
      ofContent_content fun _ _ _ f _ => f.ofJson_toJson
    intro l blank rest hblank hrest
    have hhead := e.reads_streamHead hdepth l blank rest hblank hrest
    exact hhead.bind_last (accepts_ofExcept hcontent rest)

/-! ### What is made of a value -/

/-- What was seen of the two fields was read from values of less than the given depth. -/
structure Filled {α : Type} (name : String) (decode : Json → Except Fault α) (bound : Nat)
    (seen : List String) (r : α × Location) : Prop where
  first : name ∈ seen → ∃ w, decode w = .ok r.1 ∧ w.depth < bound
  location : "location" ∈ seen → ∃ w, Location.shape.decode w = .ok r.2 ∧ w.depth < bound

theorem filled_cons {α : Type} {name : String} (hname : name ≠ "location")
    {decode : Json → Except Fault α} {bound : Nat} {f : Slot (α × Location)}
    (hf : f ∈ slots name decode) {w : Json} (hw : w.depth < bound)
    {put : α × Location → α × Location} (hput : f.decode w = .ok put) {seen : List String} {r : α × Location}
    (hr : Filled name decode bound seen r) : Filled name decode bound (f.name :: seen) (put r) := by
  simp only [slots, List.mem_cons, List.not_mem_nil, or_false] at hf
  rcases hf with rfl | rfl
  · obtain ⟨a, ha, rfl⟩ := exists_ok_of_map hput
    refine ⟨fun _ => ⟨w, ha, hw⟩, fun h => hr.location ?_⟩
    exact (List.mem_cons.mp h).resolve_left fun heq => hname heq.symm
  · obtain ⟨l, hl, rfl⟩ := exists_ok_of_map hput
    refine ⟨fun h => hr.first ?_, fun _ => ⟨w, hl, hw⟩⟩
    exact (List.mem_cons.mp h).resolve_left hname

theorem parts_of_decodeRecord_slots {α : Type} {name : String} (hname : name ≠ "location")
    {decode : Json → Except Fault α} {kind : String} {r : α × Location} {v : Json} {a : α}
    {l : Location} (h : decodeRecord kind (slots name decode) r v = .ok (a, l)) :
    2 ≤ v.depth ∧ ∃ w, decode w = .ok a ∧ w.depth < v.depth := by
  have hnone : Filled name decode v.depth [] r :=
    ⟨fun h => absurd h List.not_mem_nil, fun h => absurd h List.not_mem_nil⟩
  obtain ⟨seen, hfilled, hseen⟩ := filled_of_decodeRecord
    (fun f hf w hw put hput seen r hr => filled_cons hname hf hw hput hr) hnone h
  obtain ⟨w, hw, hdepth⟩ :=
    hfilled.location (hseen _ (List.mem_cons_of_mem _ (List.mem_cons_self ..)) rfl)
  have hpos := depth_pos_of_decodeRecord hw
  exact ⟨by omega, hfilled.first (hseen _ (List.mem_cons_self ..) rfl)⟩

theorem depth_le_of_mapM {operand : Json → Except Fault Expr} {vs : List Json} {es : List Expr}
    (hoperand : ∀ v ∈ vs, ∀ e, operand v = .ok e → e.toJson.depth ≤ v.depth)
    (h : vs.mapM operand = .ok es) : depthItems (es.map toJson) ≤ depthItems vs := by
  induction vs generalizing es with
  | nil =>
    cases h
    exact Nat.le_refl 0
  | cons v vs ih =>
    rw [List.mapM_cons] at h
    obtain ⟨e, he, h⟩ := exists_ok_of_bind h
    obtain ⟨rest, hrest, h⟩ := exists_ok_of_bind h
    cases h
    obtain ⟨hv, hvs⟩ := List.forall_mem_cons.mp hoperand
    rw [List.map_cons, depthItems, depthItems]
    have hfirst := hv e he
    have hlater := ih hvs hrest
    omega

theorem depth_le_of_ofContent {operand : Json → Except Fault Expr}
    (hoperand : ∀ v e, operand v = .ok e → e.toJson.depth ≤ v.depth) {content : Json} {k : Kind}
    {e : Expr} (h : ofContent operand content k = .ok e) : e.toJson.depth ≤ content.depth := by
  cases k with
  | constant =>
    obtain ⟨⟨v, l⟩, hrecord, h⟩ := exists_ok_of_bind h
    cases h
    rw [depth_toJson_constant]
    exact (parts_of_decodeRecord_slots (by decide) hrecord).1
  | other =>
    obtain ⟨⟨s, l⟩, hrecord, h⟩ := exists_ok_of_bind h
    cases h
    rw [depth_toJson_other]
    exact (parts_of_decodeRecord_slots (by decide) hrecord).1
  | concat =>
    obtain ⟨⟨es, l⟩, hrecord, h⟩ := exists_ok_of_bind h
    cases h
    obtain ⟨-, w, hw, hlt⟩ := parts_of_decodeRecord_slots (by decide) hrecord
    rw [depth_toJson_concat]
    cases w with
    | array vs =>
      have hitems := depth_le_of_mapM (fun v _ => hoperand v) hw
      rw [depth] at hlt
      omega
    | _ => cases hw

theorem depthFields_le_of_splitKind {kvs others : List (String × Json)} {before : Option Kind}
    {k : Kind} (h : splitKind kvs before = .ok (k, others)) :
    depthFields others ≤ depthFields kvs := by
  fun_induction splitKind kvs before generalizing k others with
  | case1 => cases h
  | case2 kind =>
    cases h
    exact Nat.le_refl 0
  | case3 => cases h
  | case4 v rest kind hkind ih =>
    obtain ⟨k', -, h⟩ := exists_ok_of_bind h
    rw [depthFields]
    exact Nat.le_trans (ih k' h) (Nat.le_max_right _ _)
  | case5 field rest before hne ih =>
    obtain ⟨⟨k', others'⟩, hsplit, h⟩ := exists_ok_of_bind h
    cases h
    obtain ⟨key, v⟩ := field
    have hle := ih hsplit
    rw [depthFields, depthFields]
    omega

theorem depth_le_of_ofJsonBelow {n : Nat} {v : Json} {e : Expr} (h : ofJsonBelow n v = .ok e) :
    e.toJson.depth ≤ v.depth := by
  induction n generalizing v e with
  | zero => cases h
  | succ n ih =>
    have hoperand : ∀ v e, ofJsonBelow n v = .ok e → e.toJson.depth ≤ v.depth := fun _ _ => ih
    cases v with
    | object kvs =>
      obtain ⟨⟨k, others⟩, hsplit, h⟩ := exists_ok_of_bind h
      refine Nat.le_trans (depth_le_of_ofContent hoperand h) ?_
      rw [depth, depth]
      exact Nat.succ_le_succ (depthFields_le_of_splitKind hsplit)
    | array vs =>
      cases vs with
      | nil => cases h
      | cons t rest =>
        obtain ⟨k, -, h⟩ := exists_ok_of_bind h
        refine Nat.le_trans (depth_le_of_ofContent hoperand h) ?_
        rw [depth, depth, depthItems]
        exact Nat.succ_le_succ (Nat.le_max_right _ _)
    | _ => cases h

theorem carries_streamField {m n : Nat} (hmn : m ≤ n) (key : String)
    {p : Option Kind × List (String × Json)} (hp : ∀ f ∈ p.2, f.2.depth ≤ m) :
    Carries (fun p => ∀ f ∈ p.2, f.2.depth ≤ m) (streamField m key p) (streamField n key p) := by
  obtain ⟨k, others⟩ := p
  unfold streamField
  dsimp only
  split_ifs
  · exact carries_reject _ _
  · exact carries_bind colon fun _ => carries_bind streamKind fun _ => carries_pure hp
  · refine carries_bind colon fun _ => (carries_value hmn).map fun v hv => ?_
    exact List.forall_mem_cons.mpr ⟨hv, hp⟩

theorem carries_streamNamed {m n : Nat} (hmn : m ≤ n) :
    Carries (fun p => p.2.depth ≤ m + 1) (streamNamed m) (streamNamed n) := by
  refine carries_bind Reader.size fun count => ?_
  refine Carries.bind (P := fun p => ∀ f ∈ p.2, f.2.depth ≤ m) ?_ fun p hp => ?_
  · exact carries_fields (fun key p hp => carries_streamField hmn key hp) count true
      (List.forall_mem_nil _)
  · obtain ⟨k, others⟩ := p
    cases k with
    | none => exact carries_reject _ _
    | some k =>
      refine carries_pure ?_
      rw [depth]
      exact Nat.succ_le_succ (depthFields_le fun f hf => hp f (List.mem_reverse.mp hf))

theorem carries_streamOrdered {m n : Nat} (hmn : m ≤ n) :
    Carries (fun p => p.2.depth ≤ m + 1) (streamOrdered m) (streamOrdered n) := by
  refine carries_bind (nextItem true) fun more => ?_
  cases more with
  | false => exact carries_reject _ _
  | true =>
    refine carries_bind streamKind fun k => carries_bind Reader.size fun count => ?_
    refine ((carries_value hmn).items count false).map fun vs hvs => ?_
    rw [depth]
    exact Nat.succ_le_succ (depthItems_le hvs)

theorem carries_streamHead {m n : Nat} (hmn : m ≤ n) :
    Carries (fun p => p.2.depth ≤ m) (streamHead m) (streamHead n) := by
  refine (carries_bind begin fun c => ?_).located
  split_ifs
  · refine carries_nested closeObject hmn fun i j hi hij => ?_
    subst hi
    exact carries_streamNamed hij
  · refine carries_nested closeList hmn fun i j hi hij => ?_
    subst hi
    exact carries_streamOrdered hij
  · exact carries_bind (scalar c) fun v => carries_reject _ _

theorem leveled : Expr.shape.Leveled 0 := by
  intro m n hmn
  refine (carries_streamHead hmn).bind fun p hp => ?_
  obtain ⟨k, content⟩ := p
  refine carries_ofExcept fun e he => ?_
  have hle := depth_le_of_ofContent (fun _ _ h => depth_le_of_ofJsonBelow h) he
  show e.toJson.depth ≤ max 0 m
  rw [Nat.zero_max]
  exact Nat.le_trans hle hp

end Expr

end LogTemplate
