import LogTemplate.Proofs.Json.Shapes

/-! What a record is filled with from values that were read before. -/

namespace LogTemplate.Json

variable {α σ : Type}

theorem exists_ok_of_bind {ε β : Type} {x : Except ε α} {f : α → Except ε β} {b : β}
    (h : x >>= f = .ok b) : ∃ a, x = .ok a ∧ f a = .ok b := by
  cases x with
  | error e => cases h
  | ok a => exact ⟨a, rfl, h⟩

theorem exists_ok_of_map {ε β : Type} {x : Except ε α} {f : α → β} {b : β}
    (h : x.map f = .ok b) : ∃ a, x = .ok a ∧ f a = b := by
  cases x with
  | error e => cases h
  | ok a => exact ⟨a, rfl, Except.ok.inj h⟩

theorem eq_ok_of_toOption {ε : Type} {x : Except ε α} {a : α} (h : x.toOption = some a) :
    x = .ok a := by
  cases x with
  | error e => cases h
  | ok b => exact congrArg Except.ok (Option.some.inj h)

theorem Shape.decodeList_map {decode : Json → Except Fault α} {write : α → Json} {as : List α}
    (h : ∀ a ∈ as, decode (write a) = .ok a) :
    decodeList decode (.array (as.map write)) = .ok as := by
  show (as.map write).mapM decode = .ok as
  induction as with
  | nil => rfl
  | cons a as ih =>
    rw [List.map_cons, List.mapM_cons, h a (List.mem_cons_self ..),
      ih fun b hb => h b (List.mem_cons_of_mem a hb)]
    rfl

theorem Slot.decode_ofDecode {decode : Json → Except Fault α} {v : Json} {a : α}
    (h : decode v = .ok a) (name : String) (presence : Presence) (put : α → σ → σ) :
    (Slot.ofDecode name presence decode put).decode v = .ok (put a) := by
  show (decode v).map put = .ok (put a)
  rw [h]
  rfl

theorem decodeNamed_cons {slots : List (Slot σ)} {key : String} {f : Slot σ}
    (hfind : slots.find? (·.name = key) = some f) {seen : List String} (hseen : key ∉ seen)
    {v : Json} {put : σ → σ} (hput : f.decode v = .ok put) (kvs : List (String × Json)) (r : σ) :
    decodeNamed slots ((key, v) :: kvs) seen r = decodeNamed slots kvs (key :: seen) (put r) := by
  have hnew : ¬ seen.contains key = true := fun h => hseen (List.contains_iff_mem.mp h)
  rw [decodeNamed, hfind]
  dsimp only
  rw [if_neg hnew, hput]
  rfl

theorem decodeNamed_nil {slots : List (Slot σ)} {seen : List String}
    (h : requireAll seen slots = .ok ()) (r : σ) : decodeNamed slots [] seen r = .ok r := by
  rw [decodeNamed, h]
  rfl

theorem mem_seen_of_requireAll {seen : List String} {slots : List (Slot σ)}
    (h : requireAll seen slots = .ok ()) {f : Slot σ} (hf : f ∈ slots)
    (hrequired : f.presence = .required) : f.name ∈ seen := by
  induction slots with
  | nil => cases hf
  | cons g slots ih =>
    rw [requireAll] at h
    split at h
    · next hg =>
      rcases List.mem_cons.mp hf with rfl | hf
      · rw [hrequired, Bool.or_eq_true] at hg
        rcases hg with hg | hg
        · exact List.contains_iff_mem.mp hg
        · cases hg
      · exact ih h hf
    · cases h

section

variable {slots : List (Slot σ)} {bound : Nat} {I : List String → σ → Prop}
  (hput : ∀ f ∈ slots, ∀ v : Json, v.depth < bound → ∀ put, f.decode v = .ok put →
    ∀ seen r, I seen r → I (f.name :: seen) (put r))

include hput

theorem filled_of_decodeNamed {kvs : List (String × Json)} (hkvs : ∀ f ∈ kvs, f.2.depth < bound)
    {seen : List String} {r s : σ} (hr : I seen r) (h : decodeNamed slots kvs seen r = .ok s) :
    ∃ seen', I seen' s ∧ ∀ f ∈ slots, f.presence = .required → f.name ∈ seen' := by
  induction kvs generalizing seen r with
  | nil =>
    rw [decodeNamed] at h
    obtain ⟨u, hall, hr'⟩ := exists_ok_of_bind h
    cases hr'
    exact ⟨seen, hr, fun f hf => mem_seen_of_requireAll hall hf⟩
  | cons e kvs ih =>
    obtain ⟨key, v⟩ := e
    have hrest : ∀ f ∈ kvs, f.2.depth < bound := fun f hf => hkvs f (List.mem_cons_of_mem _ hf)
    rw [decodeNamed] at h
    split at h
    · exact ih hrest hr h
    · next f hfind =>
      have hkey : f.name = key := by simpa using List.find?_some hfind
      by_cases hseen : seen.contains key = true
      · rw [if_pos hseen] at h
        cases h
      · rw [if_neg hseen] at h
        obtain ⟨put, hdecode, h⟩ := exists_ok_of_bind h
        refine ih hrest ?_ h
        rw [← hkey]
        exact hput f (List.mem_of_find?_eq_some hfind) v (hkvs (key, v) (List.mem_cons_self ..)) put
          hdecode seen r hr

theorem filled_of_decodeOrdered (kind : String) (total : Nat) {fs : List (Slot σ)}
    (hfs : ∀ f ∈ fs, f ∈ slots) (index : Nat) {vs : List Json} (hvs : ∀ v ∈ vs, v.depth < bound)
    {seen : List String} {r s : σ} (hr : I seen r)
    (h : decodeOrdered kind total fs index vs r = .ok s) :
    ∃ seen', I seen' s ∧ (∀ key ∈ seen, key ∈ seen') ∧
      ∀ f ∈ fs, f.presence = .required → f.name ∈ seen' := by
  induction fs generalizing index vs seen r with
  | nil =>
    cases vs with
    | nil =>
      cases h
      exact ⟨seen, hr, fun _ hkey => hkey, fun f hf => absurd hf List.not_mem_nil⟩
    | cons v vs => cases h
  | cons f fs ih =>
    have hrest : ∀ g ∈ fs, g ∈ slots := fun g hg => hfs g (List.mem_cons_of_mem f hg)
    cases vs with
    | nil =>
      rw [decodeOrdered] at h
      split at h
      · next hdefaulted =>
        obtain ⟨seen', hs, hmem, hall⟩ := ih hrest (index + 1) hvs hr h
        refine ⟨seen', hs, hmem, List.forall_mem_cons.mpr ⟨fun hrequired => ?_, hall⟩⟩
        rw [hdefaulted] at hrequired
        cases hrequired
      · cases h
    | cons v vs =>
      rw [decodeOrdered] at h
      obtain ⟨put, hdecode, h⟩ := exists_ok_of_bind h
      have hfilled := hput f (hfs f (List.mem_cons_self ..)) v (hvs v (List.mem_cons_self ..)) put
        hdecode seen r hr
      obtain ⟨seen', hs, hmem, hall⟩ :=
        ih hrest (index + 1) (fun w hw => hvs w (List.mem_cons_of_mem v hw)) hfilled h
      refine ⟨seen', hs, fun key hkey => hmem key (List.mem_cons_of_mem _ hkey), ?_⟩
      exact List.forall_mem_cons.mpr ⟨fun _ => hmem f.name (List.mem_cons_self ..), hall⟩

end

theorem filled_of_decodeRecord {kind : String} {slots : List (Slot σ)} {v : Json} {r s : σ}
    {I : List String → σ → Prop}
    (hput : ∀ f ∈ slots, ∀ w : Json, w.depth < v.depth → ∀ put, f.decode w = .ok put →
      ∀ seen r, I seen r → I (f.name :: seen) (put r))
    (hr : I [] r) (h : decodeRecord kind slots r v = .ok s) :
    ∃ seen, I seen s ∧ ∀ f ∈ slots, f.presence = .required → f.name ∈ seen := by
  cases v with
  | object kvs =>
    rw [depth] at hput
    exact filled_of_decodeNamed hput (fun f hf => Nat.lt_succ_of_le (depth_le_depthFields hf)) hr h
  | array vs =>
    rw [depth] at hput
    obtain ⟨seen, hs, -, hall⟩ := filled_of_decodeOrdered hput kind slots.length (fun _ hf => hf) 0
      (fun w hw => Nat.lt_succ_of_le (depth_le_depthItems hw)) hr h
    exact ⟨seen, hs, hall⟩
  | _ => cases h

theorem depth_pos_of_decodeRecord {kind : String} {slots : List (Slot σ)} {v : Json} {r s : σ}
    (h : decodeRecord kind slots r v = .ok s) : 0 < v.depth := by
  cases v with
  | object kvs => exact Nat.succ_pos _
  | array vs => exact Nat.succ_pos _
  | _ => cases h

end LogTemplate.Json
