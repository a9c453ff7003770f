import LogTemplate.Proofs.Json.Shapes

/-! Any value is read as it was written, as far as its numbers are natural numbers of 64 bits. -/

namespace LogTemplate.Json

open Reader

def Shape.any : Shape Json where
  write v := v
  stream := value
  decode := .ok

namespace Shape

theorem roundTrips_any_string (s : String) : any.RoundTrips (.string s) where
  opens := opens_string s
  reads levels _ := by
    have hhead (l : Layout) : (Json.write l (.string s)).head? = some '"' := by
      rw [write_string]
      rfl
    show (value levels).Reads (.string s) (.string s)
    unfold value
    refine reads_of_begin rfl hhead fun l rest _ => ?_
    show (do let s ← Reader.string; return Json.string s : Reader Json).Accepts
      (Json.write l (.string s)) rest (.string s)
    rw [write_string]
    exact (accepts_string s rest).bind_pure

theorem scalar_of_isDigit {c : Char} (hc : c.isDigit = true) : scalar c = number := by
  have hne : ∀ d, d.isDigit = false → c ≠ d := by
    rintro d hd rfl
    rw [hc] at hd
    cases hd
  have hstarts : startsNumber c = true := by rw [startsNumber, hc, Bool.or_true]
  rw [scalar, if_neg (hne 'n' rfl), if_neg (hne 't' rfl), if_neg (hne 'f' rfl), if_pos hstarts]

theorem roundTrips_any_nat {n : Nat} (hn : n < UInt64.size) : any.RoundTrips (.nat n) where
  opens := opens_nat n
  reads levels _ := by
    obtain ⟨c, hc, hhead⟩ := exists_head?_write_nat n
    have hlist : c ≠ '[' := by
      rintro rfl
      cases hc
    have hobject : c ≠ '{' := by
      rintro rfl
      cases hc
    show (value levels).Reads (.nat n) (.nat n)
    unfold value
    refine reads_of_begin (isBlank_of_isDigit hc) hhead fun l rest hrest => ?_
    rw [if_neg hlist, if_neg hobject, scalar_of_isDigit hc, write_nat]
    exact accepts_number hn hrest

theorem roundTrips_any_array {vs : List Json} (h : ∀ v ∈ vs, any.RoundTrips v) :
    any.RoundTrips (.array vs) where
  opens := opens_array vs
  reads levels hdepth := by
    obtain ⟨m, rfl, hitems⟩ := exists_levels_of_array hdepth
    have hall : ReadsAll (value m) vs vs := by
      refine List.forall₂_same.mpr fun v hv => ⟨(h v hv).opens, (h v hv).reads m ?_⟩
      exact Nat.le_trans (depth_le_depthItems hv) hitems
    show (value (m + 1)).Reads (.array vs) (.array vs)
    unfold value
    refine reads_of_begin rfl (fun l => head?_write_array l vs) fun l rest _ => ?_
    exact (accepts_array hall l rest).bind_pure

theorem roundTrips_any_object {kvs : List (String × Json)} (h : ∀ f ∈ kvs, any.RoundTrips f.2) :
    any.RoundTrips (.object kvs) where
  opens := opens_object kvs
  reads levels hdepth := by
    obtain ⟨m, rfl, hmembers⟩ := exists_levels_of_object hdepth
    have hread : ∀ f ∈ kvs, any.RoundTrips f.2 ∧ f.2.depth ≤ m := by
      intro f hf
      exact ⟨h f hf, Nat.le_trans (depth_le_depthFields hf) hmembers⟩
    have hfields := readsFields_foldl
      (fun key fs => do
        colon
        let v ← value m
        return (key, v) :: fs)
      (fun key v fs => (key, v) :: fs) (fun _ _ _ => rfl) hread []
    have hwrite : kvs.map (fun e => (e.1, any.write e.2)) = kvs := List.map_id kvs
    rw [hwrite, List.foldl_flip_cons_eq_append', List.append_nil] at hfields
    have hobject (l : Layout) (rest : List Char) := accepts_object (f := pure)
      hfields (fun rest => accepts_pure rest _) l rest
    simp only [bind_pure] at hobject
    show (value (m + 1)).Reads (.object kvs) (.object kvs)
    unfold value
    refine reads_of_begin rfl (fun l => head?_write_object l kvs) fun l rest _ => ?_
    have hread := (hobject l rest).bind_pure (f := fun fs => Json.object fs.reverse)
    rw [List.reverse_reverse] at hread
    exact hread

end Shape

end LogTemplate.Json
