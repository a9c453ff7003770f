import LogTemplate.Proofs.Json.Values

/-! What the number of levels means to a reader. A value that was read with some levels is nested no
deeper than that, and it is read in the same way with more levels. -/

namespace LogTemplate.Json

variable {α β σ : Type}

theorem Numeral.depth_of_value? {n : Numeral} {v : Json} (h : n.value? = some v) :
    v.depth = 0 := by
  unfold Numeral.value? at h
  dsimp only at h
  split_ifs at h
  · cases h
    rfl
  · cases h
    rfl
  · obtain ⟨b, -, rfl⟩ := Option.map_eq_some_iff.mp h
    rfl

namespace Reader

/-- What the first reader answers has the property, and the second one answers the same. -/
def Carries (P : α → Prop) (r r' : Reader α) : Prop :=
  ∀ c d a, r c = (.ok a, d) → P a ∧ r' c = (.ok a, d)

variable {P : α → Prop} {Q : β → Prop} {r r' : Reader α}

theorem Carries.weaken {P' : α → Prop} (h : Carries P r r') (hP : ∀ a, P a → P' a) :
    Carries P' r r' := by
  intro c d a hr
  obtain ⟨ha, hr'⟩ := h c d a hr
  exact ⟨hP a ha, hr'⟩

theorem carries_self (hP : ∀ a, P a) (r : Reader α) : Carries P r r :=
  fun _ _ a hr => ⟨hP a, hr⟩

theorem carries_true (r : Reader α) : Carries (fun _ => True) r r :=
  carries_self (fun _ => trivial) r

theorem carries_pure {a : α} (ha : P a) : Carries P (pure a) (pure a) := by
  intro c d b h
  cases h
  exact ⟨ha, rfl⟩

theorem carries_reject (fault : Fault) (r' : Reader α) : Carries P (reject fault) r' := by
  intro c d a h
  cases h

theorem carries_rejectPast (fault : Fault) (r' : Reader α) : Carries P (rejectPast fault) r' := by
  intro c d a h
  cases h

theorem carries_rejectBefore (columns : Nat) (fault : Fault) (r' : Reader α) :
    Carries P (rejectBefore columns fault) r' := by
  intro c d a h
  cases h

theorem carries_ofExcept {e : Except Fault α} (he : ∀ a, e = .ok a → P a) :
    Carries P (ofExcept e) (ofExcept e) := by
  cases e with
  | error fault => exact carries_reject fault _
  | ok a => exact carries_pure (he a rfl)

theorem Carries.bind {f f' : α → Reader β} (hr : Carries P r r')
    (hf : ∀ a, P a → Carries Q (f a) (f' a)) : Carries Q (r >>= f) (r' >>= f') := by
  intro c d b h
  cases hrun : r c with
  | mk answer c' =>
    cases answer with
    | error e =>
      rw [bind_of_error hrun] at h
      cases h
    | ok a =>
      obtain ⟨ha, hrun'⟩ := hr c c' a hrun
      rw [bind_of_ok hrun] at h
      rw [bind_of_ok hrun']
      exact hf a ha c' d b h

theorem carries_bind (r : Reader α) {f f' : α → Reader β} (hf : ∀ a, Carries Q (f a) (f' a)) :
    Carries Q (r >>= f) (r >>= f') :=
  (carries_true r).bind fun a _ => hf a

theorem carries_unexpected (expected : String) (c : Char) :
    Carries P (unexpected expected c) (unexpected expected c) := by
  unfold unexpected
  split_ifs
  · exact carries_reject _ _
  · exact carries_reject _ _
  · exact carries_bind (scalar c) fun v => carries_reject _ _

theorem carries_scalar (c : Char) : Carries (fun v => v.depth = 0) (scalar c) (scalar c) := by
  unfold scalar
  split_ifs
  · exact carries_bind advance fun _ => carries_bind _ fun _ => carries_pure rfl
  · exact carries_bind advance fun _ => carries_bind _ fun _ => carries_pure rfl
  · exact carries_bind advance fun _ => carries_bind _ fun _ => carries_pure rfl
  · refine carries_bind (numeral true) fun n => ?_
    cases hn : n.value? with
    | none => exact carries_rejectBefore _ _ _
    | some v => exact carries_pure (Numeral.depth_of_value? hn)
  · exact carries_bind string fun _ => carries_pure rfl
  · exact carries_rejectPast _ _

theorem Carries.map {f : α → β} (hr : Carries P r r') (hf : ∀ a, P a → Q (f a)) :
    Carries Q (r >>= fun a => pure (f a)) (r' >>= fun a => pure (f a)) :=
  hr.bind fun a ha => carries_pure (hf a ha)

theorem Carries.located (hr : Carries P r r') : Carries P r.located r'.located := by
  intro c d a h
  cases hrun : r c with
  | mk answer c' =>
    cases answer with
    | error e =>
      obtain ⟨fault, position⟩ := e
      cases position <;> (simp only [Reader.located, hrun] at h; cases h)
    | ok b =>
      obtain ⟨hb, hrun'⟩ := hr c c' b hrun
      simp only [Reader.located, hrun] at h
      cases h
      exact ⟨hb, by simp only [Reader.located, hrun']⟩

theorem Carries.enclosed (close : Reader Unit) (hr : Carries P r r') :
    Carries P (enclosed close r) (enclosed close r') := by
  have hbody : Carries P (do advance; r : Reader α) (do advance; r') :=
    carries_bind advance fun _ => hr
  intro c d a h
  cases hrun : (do advance; r : Reader α) c with
  | mk answer c' =>
    cases answer with
    | error e =>
      simp only [Reader.enclosed, hrun] at h
      cases h
    | ok b =>
      obtain ⟨hb, hrun'⟩ := hbody c c' b hrun
      cases hclose : close c' with
      | mk closed c'' =>
        cases closed with
        | error e =>
          simp only [Reader.enclosed, hrun, hclose] at h
          cases h
        | ok u =>
          simp only [Reader.enclosed, hrun, hclose] at h
          cases h
          exact ⟨hb, by simp only [Reader.enclosed, hrun', hclose]⟩

theorem carries_nested (close : Reader Unit) {body : Nat → Reader α} {m n : Nat} (hmn : m ≤ n)
    (h : ∀ i j, m = i + 1 → i ≤ j → Carries P (body i) (body j)) :
    Carries P (nested close body m) (nested close body n) := by
  cases m with
  | zero => exact carries_rejectPast .tooDeep _
  | succ i =>
    obtain ⟨j, rfl⟩ := Nat.exists_eq_add_one.mpr (Nat.zero_lt_of_lt hmn)
    exact (h i j rfl (Nat.le_of_succ_le_succ hmn)).enclosed close

theorem Carries.items {item item' : Reader α} (h : Carries P item item') (n : Nat)
    (isFirst : Bool) :
    Carries (fun as => ∀ a ∈ as, P a) (items item n isFirst) (items item' n isFirst) := by
  induction n generalizing isFirst with
  | zero => exact carries_pure (List.forall_mem_nil _)
  | succ n ih =>
    refine carries_bind (nextItem isFirst) fun more => ?_
    cases more with
    | false => exact carries_pure (List.forall_mem_nil _)
    | true =>
      refine h.bind fun a ha => (ih false).map fun as has => ?_
      exact List.forall_mem_cons.mpr ⟨ha, has⟩

theorem carries_fields {I : σ → Prop} {field field' : String → σ → Reader σ}
    (h : ∀ key s, I s → Carries I (field key s) (field' key s)) (n : Nat) (isFirst : Bool) {s : σ}
    (hs : I s) : Carries I (fields field n isFirst s) (fields field' n isFirst s) := by
  induction n generalizing isFirst s with
  | zero => exact carries_pure hs
  | succ n ih =>
    refine carries_bind (nextKey isFirst) fun key => ?_
    cases key with
    | none => exact carries_pure hs
    | some key => exact (h key s hs).bind fun s' hs' => ih false hs'

theorem Carries.readAll (h : Carries P r r') {text : String} {a : α}
    (ha : readAll r text = .ok a) : P a ∧ readAll r' text = .ok a := by
  have hwhole : Carries P (do let a ← r; finish; return a : Reader α)
      (do let a ← r'; finish; return a) :=
    h.bind fun a ha => carries_bind finish fun _ => carries_pure ha
  cases hrun : (do let a ← r; finish; return a : Reader α) (.ofText text) with
  | mk answer d =>
    have hanswer : answer = .ok a := by
      rw [← ha]
      exact (congrArg Prod.fst hrun).symm
    obtain ⟨hP, hrun'⟩ := hwhole _ d a (hanswer ▸ hrun)
    exact ⟨hP, congrArg Prod.fst hrun'⟩

end Reader

open Reader

namespace Shape

/-- A value that is read with some levels is written with no more than these, or with `k` of them if
they are fewer, and it is read with more levels too. -/
def Leveled (k : Nat) (s : Shape α) : Prop :=
  ∀ m n, m ≤ n → Carries (fun a => (s.write a).depth ≤ max k m) (s.stream m) (s.stream n)

theorem leveled_text (k : Nat) : text.Leveled k :=
  fun _ _ _ => carries_self (fun _ => Nat.zero_le _) _

theorem leveled_uint32 (k : Nat) : uint32.Leveled k :=
  fun _ _ _ => carries_self (fun _ => Nat.zero_le _) _

theorem leveled_uint64 (k : Nat) : uint64.Leveled k :=
  fun _ _ _ => carries_self (fun _ => Nat.zero_le _) _

variable {k : Nat} {s : Shape α}

theorem Leveled.weaken (h : s.Leveled k) {k' : Nat} (hk : k ≤ k') : s.Leveled k' := by
  intro m n hmn
  exact (h m n hmn).weaken fun a ha => by omega

theorem Leveled.optional (h : s.Leveled k) : s.optional.Leveled k := by
  intro m n hmn
  refine carries_bind next fun c => ?_
  split
  · exact carries_bind (scalar 'n') fun _ => carries_pure (Nat.zero_le _)
  · exact (h m n hmn).map fun a ha => ha

theorem Leveled.list (h : s.Leveled k) : s.list.Leveled (k + 1) := by
  intro m n hmn
  refine (carries_bind begin fun c => ?_).located
  split
  · refine carries_nested closeList hmn fun i j hi hij => carries_bind size fun count => ?_
    refine ((h i j hij).items count true).weaken fun as has => ?_
    have hitems : depthItems (as.map s.write) ≤ max k i := by
      refine depthItems_le fun v hv => ?_
      obtain ⟨a, ha, rfl⟩ := List.mem_map.mp hv
      exact has a ha
    have hdepth : (s.list.write as).depth = depthItems (as.map s.write) + 1 := rfl
    omega
  · exact carries_unexpected _ c

/-! ### Any value -/

theorem carries_value {m n : Nat} (hmn : m ≤ n) :
    Carries (fun v => v.depth ≤ m) (value m) (value n) := by
  induction m generalizing n with
  | zero =>
    unfold value
    refine (carries_bind begin fun c => ?_).located
    split_ifs
    · exact carries_rejectPast _ _
    · exact carries_rejectPast _ _
    · exact (carries_scalar c).weaken fun v hv => Nat.le_of_eq hv
  | succ m ih =>
    obtain ⟨n, rfl⟩ := Nat.exists_eq_add_one.mpr (Nat.zero_lt_of_lt hmn)
    have hvalue := ih (Nat.le_of_succ_le_succ hmn)
    unfold value
    refine (carries_bind begin fun c => ?_).located
    split_ifs
    · refine ((carries_bind size fun count => hvalue.items count true).enclosed closeList).map ?_
      intro vs hvs
      rw [depth]
      exact Nat.succ_le_succ (depthItems_le hvs)
    · refine Carries.map (P := fun fs : List (String × Json) => ∀ f ∈ fs, f.2.depth ≤ m)
        (Carries.enclosed closeObject (carries_bind size fun count => ?_)) ?_
      · refine carries_fields (fun key fs hfs => ?_) count true (List.forall_mem_nil _)
        exact carries_bind colon fun _ => hvalue.map fun v hv => List.forall_mem_cons.mpr ⟨hv, hfs⟩
      · intro fs hfs
        rw [depth]
        exact Nat.succ_le_succ (depthFields_le fun f hf => hfs f (List.mem_reverse.mp hf))
    · refine (carries_scalar c).weaken fun v hv => ?_
      rw [hv]
      exact Nat.zero_le _

end Shape

/-! ### Records -/

def Within (fields : List (Member σ)) (levels : Nat) (r : σ) : Prop :=
  ∀ g ∈ fields, (g.write r).depth ≤ levels

def Member.Leveled (fields : List (Member σ)) (k : Nat) (f : Member σ) : Prop :=
  ∀ m n, m ≤ n →
    Carries (fun put => ∀ r, Within fields (max k m) r → Within fields (max k m) (put r))
      (f.stream m) (f.stream n)

theorem Member.leveled_ofShape {fields : List (Member σ)} {k : Nat} {sh : Shape α}
    (hsh : sh.Leveled k) {put : α → σ → σ}
    (hput : ∀ a r, ∀ g ∈ fields, g.write (put a r) = sh.write a ∨ g.write (put a r) = g.write r)
    (name : String) (presence : Presence) (get : σ → α) :
    (Member.ofShape name presence sh get put).Leveled fields k := by
  intro m n hmn
  refine (hsh m n hmn).map fun a ha r hr g hg => ?_
  rcases hput a r g hg with heq | heq
  · rw [heq]
    exact ha
  · rw [heq]
    exact hr g hg

section

variable {fields : List (Member σ)} {k : Nat} (hfields : ∀ f ∈ fields, f.Leveled fields k)

include hfields

theorem carries_streamField {m n : Nat} (hmn : m ≤ n) (key : String) {p : List String × σ}
    (hp : Within fields (max k m) p.2) :
    Carries (fun p => Within fields (max k m) p.2) (streamField fields m key p)
      (streamField fields n key p) := by
  obtain ⟨seen, r⟩ := p
  unfold streamField
  dsimp only
  split_ifs
  · exact carries_reject _ _
  · refine carries_bind colon fun _ => ?_
    cases hfind : fields.find? (·.name = key) with
    | none => exact carries_bind skip fun _ => carries_pure hp
    | some f =>
      exact (hfields f (List.mem_of_find?_eq_some hfind) m n hmn).map fun put hput => hput r hp

theorem carries_streamNamed {m n : Nat} (hmn : m ≤ n) {r : σ} (hr : Within fields (max k m) r) :
    Carries (Within fields (max k m)) (streamNamed fields r m) (streamNamed fields r n) := by
  refine carries_bind size fun count => ?_
  refine Carries.bind (P := fun p => Within fields (max k m) p.2) ?_ fun p hp => ?_
  · exact carries_fields (fun key p hp => carries_streamField hfields hmn key hp) count true hr
  · exact carries_bind _ fun _ => carries_pure hp

theorem carries_streamOrdered (kind : String) (total : Nat) {m n : Nat} (hmn : m ≤ n)
    {fs : List (Member σ)} (hfs : ∀ f ∈ fs, f ∈ fields) (index : Nat) {r : σ}
    (hr : Within fields (max k m) r) :
    Carries (Within fields (max k m)) (streamOrdered kind total m fs index r)
      (streamOrdered kind total n fs index r) := by
  induction fs generalizing index r with
  | nil => exact carries_pure hr
  | cons f fs ih =>
    have hrest : ∀ g ∈ fs, g ∈ fields := fun g hg => hfs g (List.mem_cons_of_mem f hg)
    refine carries_bind (nextItem (index = 0)) fun more => ?_
    cases more with
    | true =>
      refine (hfields f (hfs f (List.mem_cons_self ..)) m n hmn).bind fun put hput => ?_
      exact ih hrest (index + 1) (hput r hr)
    | false =>
      simp only [Bool.false_eq_true, if_false]
      split_ifs
      · exact ih hrest (index + 1) hr
      · exact carries_reject _ _

theorem Shape.leveled_record (kind : String) {r : σ} (hr : Within fields k r) :
    (Shape.record kind fields r).Leveled (k + 1) := by
  -- members that are not filled yet are those the record started with
  have hwithin : ∀ i, Within fields (max k i) r :=
    fun i g hg => Nat.le_trans (hr g hg) (Nat.le_max_left k i)
  have hwrite : ∀ i a, Within fields (max k i) a →
      ((Shape.record kind fields r).write a).depth ≤ max (k + 1) (i + 1) := by
    intro i a ha
    have hdepth : depthFields (fields.map fun f => (f.name, f.write a)) ≤ max k i := by
      refine depthFields_le fun f hf => ?_
      obtain ⟨g, hg, rfl⟩ := List.mem_map.mp hf
      exact ha g hg
    have hrecord : ((Shape.record kind fields r).write a).depth =
        depthFields (fields.map fun f => (f.name, f.write a)) + 1 := by
      show (Json.object _).depth = _
      rw [depth]
    omega
  intro m n hmn
  refine (carries_bind begin fun c => ?_).located
  split_ifs
  · refine carries_nested closeObject hmn fun i j hi hij => ?_
    subst hi
    exact (carries_streamNamed hfields hij (hwithin i)).weaken (hwrite i)
  · refine carries_nested closeList hmn fun i j hi hij => ?_
    subst hi
    have hordered := carries_streamOrdered hfields kind fields.length hij (fun _ hf => hf) 0 (hwithin i)
    exact hordered.weaken (hwrite i)
  · exact carries_unexpected _ c

end

/-! ### Choices -/

theorem findCase_mem {cases : List (Case α)} {name : String} {c : Case α}
    (h : findCase cases name = .ok c) : c ∈ cases := by
  unfold findCase at h
  split at h
  · next hfind =>
    cases h
    exact List.mem_of_find?_eq_some hfind
  · cases h

theorem Case.carries_plain (name : String) (a : α) (m n : Nat) :
    Carries (fun _ => True) ((Case.plain name a).stream m) ((Case.plain name a).stream n) :=
  carries_true _

theorem Shape.Leveled.carries_carrying {s : Shape β} {k : Nat} (h : s.Leveled k) (name : String)
    (wrap : β → α) {m n : Nat} (hmn : m ≤ n) :
    Carries (fun _ => True) ((Case.carrying name s wrap).stream m)
      ((Case.carrying name s wrap).stream n) :=
  (h m n hmn).map fun _ _ => trivial

theorem Shape.leveled_choice {cases : List (Case α)} {write : α → Json} {k : Nat}
    (hwrite : ∀ a, (write a).depth ≤ k)
    (hcases : ∀ c ∈ cases, ∀ m n, m ≤ n → Carries (fun _ => True) (c.stream m) (c.stream n)) :
    (Shape.choice cases write).Leveled k := by
  have hcase : Carries (· ∈ cases)
      (located do let name ← Reader.string; ofExcept (findCase cases name))
      (located do let name ← Reader.string; ofExcept (findCase cases name)) :=
    (carries_bind Reader.string fun name => carries_ofExcept fun c hc => findCase_mem hc).located
  intro m n hmn
  have hwithin : ∀ a, (write a).depth ≤ max k m := fun a => Nat.le_trans (hwrite a) (Nat.le_max_left k m)
  refine Carries.weaken (P := fun _ => True) ?_ fun a _ => hwithin a
  refine carries_bind next fun c => ?_
  split
  · exact carries_rejectPast _ _
  · cases m with
    | zero => exact carries_rejectPast _ _
    | succ i =>
      obtain ⟨j, rfl⟩ := Nat.exists_eq_add_one.mpr (Nat.zero_lt_of_lt hmn)
      refine carries_bind advance fun _ => carries_bind next fun c => ?_
      split
      · exact carries_rejectPast _ _
      · refine hcase.bind fun c hc => carries_bind colon fun _ => ?_
        refine (hcases c hc i j (Nat.le_of_succ_le_succ hmn)).bind fun a _ => ?_
        exact carries_true _
      · exact carries_rejectPast _ _
      · exact carries_rejectPast _ _
  · exact carries_true _
  · exact carries_rejectPast _ _

/-! ### Whole texts -/

namespace Shape

variable {k : Nat} {s : Shape α}

theorem Leveled.depth_le_of_readAll (h : s.Leveled k) {m : Nat} (hk : k ≤ m) {text : String} {a : α}
    (ha : readAll (s.stream m) text = .ok a) : (s.write a).depth ≤ m := by
  have hle := ((h m m (Nat.le_refl m)).readAll ha).1
  rwa [Nat.max_eq_right hk] at hle

theorem Leveled.exists_error_of_lt (h : s.Leveled k) {m : Nat} (hk : k ≤ m) {a : α}
    (ha : s.RoundTrips a) (hdeep : m < (s.write a).depth) (l : Layout) :
    ∃ e, readAll (s.stream m) (String.ofList (Json.write l (s.write a))) = .error e := by
  cases hread : readAll (s.stream m) (String.ofList (Json.write l (s.write a))) with
  | error e => exact ⟨e, rfl⟩
  | ok b =>
    -- with enough levels the answer would be `a`, and more levels do not change it
    have hmore := ((h m (s.write a).depth (Nat.le_of_lt hdeep)).readAll hread).2
    rw [readAll_write (ha.reads _ (Nat.le_refl _)) l] at hmore
    cases hmore
    exact absurd (h.depth_le_of_readAll hk hread) (Nat.not_le_of_lt hdeep)

end Shape

end LogTemplate.Json
