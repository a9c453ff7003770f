/-! Named entries. A list of them holds each name once; a new value for a name takes the place of
the old one, a new name goes to the end. -/

namespace LogTemplate.Entries

variable {κ α : Type} [DecidableEq κ]

def put (name : κ) (value : α) : List (κ × α) → List (κ × α)
  | [] => [(name, value)]
  | (k, v) :: rest => if k = name then (name, value) :: rest else (k, v) :: put name value rest

def drop (name : κ) (entries : List (κ × α)) : List (κ × α) :=
  entries.filter fun e => e.1 ≠ name

theorem lookup_put (name k : κ) (value : α) (entries : List (κ × α)) :
    (put name value entries).lookup k = if k = name then some value else entries.lookup k := by
  induction entries with
  | nil => grind [put]
  | cons e rest ih => grind [put]

theorem mem_of_lookup {name : κ} {value : α} {entries : List (κ × α)}
    (h : entries.lookup name = some value) : (name, value) ∈ entries := by
  obtain ⟨before, after, rfl, -⟩ := List.lookup_eq_some_iff.mp h
  exact List.mem_append_right before (List.mem_cons_self ..)

theorem put_of_not_mem {name : κ} {entries : List (κ × α)}
    (h : name ∉ entries.map Prod.fst) (value : α) :
    put name value entries = entries ++ [(name, value)] := by
  induction entries with
  | nil => rfl
  | cons e rest ih =>
    rw [List.map_cons, List.mem_cons, not_or] at h
    rw [put, if_neg (Ne.symm h.1), ih h.2]
    rfl

theorem mem_put {name : κ} {value : α} {entries : List (κ × α)} {e : κ × α}
    (h : e ∈ put name value entries) : e = (name, value) ∨ e ∈ entries := by
  induction entries with
  | nil => exact .inl (List.mem_singleton.mp h)
  | cons f rest ih =>
    rw [put] at h
    split at h
    · rcases List.mem_cons.mp h with h | h
      · exact .inl h
      · exact .inr (List.mem_cons_of_mem f h)
    · rcases List.mem_cons.mp h with h | h
      · exact .inr (h ▸ List.mem_cons_self ..)
      · exact (ih h).imp_right (List.mem_cons_of_mem f)

theorem mem_names_put {name k : κ} {value : α} {entries : List (κ × α)} :
    k ∈ (put name value entries).map Prod.fst ↔ k = name ∨ k ∈ entries.map Prod.fst := by
  induction entries with
  | nil => rw [put, List.map_cons, List.map_nil, List.mem_cons]
  | cons e rest ih =>
    rw [put]
    split
    · next heq => rw [List.map_cons, List.map_cons, List.mem_cons, List.mem_cons, heq, or_self_left]
    · rw [List.map_cons, List.map_cons, List.mem_cons, List.mem_cons, ih, or_left_comm]

theorem nodup_put {entries : List (κ × α)} (h : (entries.map Prod.fst).Nodup) (name : κ)
    (value : α) : ((put name value entries).map Prod.fst).Nodup := by
  induction entries with
  | nil => exact List.nodup_cons.mpr ⟨List.not_mem_nil, List.nodup_nil⟩
  | cons e rest ih =>
    rw [List.map_cons, List.nodup_cons] at h
    rw [put]
    split
    · next heq => exact List.nodup_cons.mpr ⟨heq ▸ h.1, h.2⟩
    · next hne =>
      refine List.nodup_cons.mpr ⟨fun hmem => ?_, ih h.2⟩
      exact (mem_names_put.mp hmem).elim hne h.1

theorem mem_foldl_put {β : Type} {key : β → κ} {value : β → α} {bs : List β}
    {entries : List (κ × α)} {e : κ × α}
    (h : e ∈ bs.foldl (fun entries b => put (key b) (value b) entries) entries) :
    e ∈ entries ∨ ∃ b ∈ bs, e = (key b, value b) := by
  induction bs generalizing entries with
  | nil => exact .inl h
  | cons b bs ih =>
    rcases ih h with hmem | ⟨b', hb', he⟩
    · rcases mem_put hmem with rfl | hmem
      · exact .inr ⟨b, List.mem_cons_self .., rfl⟩
      · exact .inl hmem
    · exact .inr ⟨b', List.mem_cons_of_mem b hb', he⟩

theorem mem_names_foldl_put {β : Type} {key : β → κ} {value : β → α} {bs : List β}
    {entries : List (κ × α)} {k : κ} :
    k ∈ (bs.foldl (fun entries b => put (key b) (value b) entries) entries).map Prod.fst ↔
      k ∈ entries.map Prod.fst ∨ ∃ b ∈ bs, key b = k := by
  induction bs generalizing entries with
  | nil => simp
  | cons b bs ih =>
    simp only [List.foldl_cons, ih, mem_names_put, List.mem_cons, exists_eq_or_imp,
      eq_comm (a := k), or_assoc, or_left_comm]

theorem nodup_foldl_put {β : Type} {key : β → κ} {value : β → α} {bs : List β}
    {entries : List (κ × α)} (h : (entries.map Prod.fst).Nodup) :
    ((bs.foldl (fun entries b => put (key b) (value b) entries) entries).map Prod.fst).Nodup := by
  induction bs generalizing entries with
  | nil => exact h
  | cons b bs ih => exact ih (nodup_put h (key b) (value b))

theorem lookup_drop (name k : κ) (entries : List (κ × α)) :
    (drop name entries).lookup k = if k = name then none else entries.lookup k := by
  induction entries with
  | nil => grind [drop]
  | cons e rest ih => grind [drop]

theorem put_put (name : κ) (new value : α) (entries : List (κ × α)) :
    put name new (put name value entries) = put name new entries := by
  induction entries with
  | nil => exact if_pos rfl
  | cons e rest ih =>
    obtain ⟨k, v⟩ := e
    by_cases hk : k = name
    · have hinner : put name value ((k, v) :: rest) = (name, value) :: rest := by rw [put, if_pos hk]
      rw [hinner, put, if_pos rfl, put, if_pos hk]
    · have hinner : put name value ((k, v) :: rest) = (k, v) :: put name value rest := by
        rw [put, if_neg hk]
      rw [hinner, put, if_neg hk, ih, put, if_neg hk]

theorem put_of_lookup {name : κ} {value : α} {entries : List (κ × α)}
    (h : entries.lookup name = some value) : put name value entries = entries := by
  induction entries with
  | nil => cases h
  | cons e rest ih =>
    obtain ⟨k, v⟩ := e
    rw [put]
    by_cases hk : k = name
    · subst hk
      rw [List.lookup_cons_self] at h
      cases h
      rw [if_pos rfl]
    · have hrest : rest.lookup name = some value := by
        rwa [List.lookup_cons, beq_false_of_ne (Ne.symm hk)] at h
      rw [if_neg hk, ih hrest]

theorem drop_put {name : κ} {entries : List (κ × α)} (h : entries.lookup name = none)
    (value : α) : drop name (put name value entries) = entries := by
  have hne : ∀ e ∈ entries, e.1 ≠ name := by
    rintro e he rfl
    have hkey := List.lookup_eq_none_iff.mp h e he
    simp at hkey
  have hnew : name ∉ entries.map Prod.fst := by
    intro hmem
    obtain ⟨e, he, hfst⟩ := List.mem_map.mp hmem
    exact hne e he hfst
  have hkept : entries.filter (fun e => e.1 ≠ name) = entries :=
    List.filter_eq_self.mpr fun e he => decide_eq_true (hne e he)
  have hlast : [(name, value)].filter (fun e => e.1 ≠ name) = [] := by simp
  rw [put_of_not_mem hnew, drop, List.filter_append, hkept, hlast, List.append_nil]

end LogTemplate.Entries
