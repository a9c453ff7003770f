import Mathlib.Data.List.Sort
import LogTemplate.Surface

/-! A surface is the set of its names, and what is hashed of it tells these, as long as no name goes
over more than one line. Only a surface without any name is listed like the one of the empty name. -/

namespace LogTemplate

theorem insertName_ne_nil (name : String) (names : List String) : insertName name names ≠ [] := by
  cases names with
  | nil => exact List.cons_ne_nil name []
  | cons n rest =>
    rw [insertName]
    split <;> exact List.cons_ne_nil _ _

theorem mem_insertName_iff {name n : String} {names : List String} :
    n ∈ insertName name names ↔ n = name ∨ n ∈ names := by
  induction names with
  | nil => exact List.mem_singleton.trans (by simp)
  | cons m rest ih =>
    rw [insertName]
    split
    · exact List.mem_cons
    · next h =>
      obtain rfl := Std.LawfulEqCmp.eq_of_compare h
      rw [List.mem_cons, ← or_assoc, or_self]
    · rw [List.mem_cons, ih, List.mem_cons, or_left_comm]

def Ascending (names : List String) : Prop := names.Pairwise fun a b => compare a b = .lt

theorem ascending_insertName {names : List String} (h : Ascending names) (name : String) :
    Ascending (insertName name names) := by
  induction names with
  | nil => exact List.pairwise_singleton _ name
  | cons n rest ih =>
    obtain ⟨hfirst, hrest⟩ := List.pairwise_cons.mp h
    rw [insertName]
    split
    · next hlt =>
      refine List.pairwise_cons.mpr ⟨?_, h⟩
      intro m hm
      rcases List.mem_cons.mp hm with rfl | hm
      · exact hlt
      · exact Std.TransCmp.lt_trans hlt (hfirst m hm)
    · exact h
    · next hgt =>
      refine List.pairwise_cons.mpr ⟨?_, ih hrest⟩
      intro m hm
      rcases mem_insertName_iff.mp hm with rfl | hm
      · exact Std.OrientedCmp.lt_of_gt hgt
      · exact hfirst m hm

theorem Ascending.eq_of_mem_iff {names names' : List String} (h : Ascending names)
    (h' : Ascending names') (hmem : ∀ n, n ∈ names ↔ n ∈ names') : names = names' := by
  have hirrefl : Std.Irrefl fun a b : String => compare a b = .lt :=
    ⟨fun a ha => absurd (Std.ReflCmp.compare_self.symm.trans ha) (by decide)⟩
  have hantisymm : Std.Antisymm fun a b : String => compare a b = .lt :=
    ⟨fun a b hab hba => absurd (Std.TransCmp.lt_trans hab hba) (hirrefl.irrefl a)⟩
  exact List.Pairwise.eq_of_mem_iff h h' hmem

namespace Surface

theorem mem_extend_iff {s : Surface} {names : List String} {n : String} :
    n ∈ (s.extend names).types ↔ n ∈ s.types ∨ n ∈ names := by
  unfold extend
  induction names generalizing s with
  | nil => exact ⟨.inl, fun h => h.resolve_right List.not_mem_nil⟩
  | cons name names ih =>
    have hfirst : n ∈ (s.insert name).types ↔ n = name ∨ n ∈ s.types := mem_insertName_iff
    rw [List.foldl_cons, ih, hfirst, List.mem_cons, or_assoc, or_left_comm]

theorem ascending_extend {s : Surface} (h : Ascending s.types) (names : List String) :
    Ascending (s.extend names).types := by
  unfold extend
  induction names generalizing s with
  | nil => exact h
  | cons name names ih => exact ih (ascending_insertName h name)

theorem mem_ofTypes_iff {names : List String} {n : String} :
    n ∈ (ofTypes names).types ↔ n ∈ names :=
  mem_extend_iff.trans ⟨fun h => h.resolve_left List.not_mem_nil, .inr⟩

theorem ofTypes_eq_iff {names names' : List String} :
    ofTypes names = ofTypes names' ↔ ∀ n, n ∈ names ↔ n ∈ names' := by
  constructor
  · intro h n
    rw [← mem_ofTypes_iff, h, mem_ofTypes_iff]
  · intro h
    have hsorted (names : List String) : Ascending (ofTypes names).types :=
      ascending_extend List.Pairwise.nil names
    have hmem (n : String) : n ∈ (ofTypes names).types ↔ n ∈ (ofTypes names').types := by
      rw [mem_ofTypes_iff, mem_ofTypes_iff, h]
    exact congrArg mk ((hsorted names).eq_of_mem_iff (hsorted names') hmem)

/-- Names on one line each, and at least one of them. -/
structure IsPlain (s : Surface) : Prop where
  ne_nil : s.types ≠ []
  no_newline : ∀ name ∈ s.types, '\n' ∉ name.toList

theorem IsPlain.insert {s : Surface} (h : s.IsPlain) {name : String} (hname : '\n' ∉ name.toList) :
    (s.insert name).IsPlain where
  ne_nil := insertName_ne_nil name s.types
  no_newline n hn := by
    rcases mem_insertName_iff.mp hn with rfl | hn
    · exact hname
    · exact h.no_newline n hn

theorem IsPlain.extend {s : Surface} (h : s.IsPlain) {names : List String}
    (hnames : ∀ name ∈ names, '\n' ∉ name.toList) : (s.extend names).IsPlain := by
  unfold Surface.extend
  induction names generalizing s with
  | nil => exact h
  | cons name names ih =>
    have hfirst := h.insert (hnames name (List.mem_cons_self ..))
    exact ih hfirst fun n hn => hnames n (List.mem_cons_of_mem name hn)

theorem isPlain_standard : standard.IsPlain := ⟨by decide, by decide⟩

theorem IsPlain.splitOn_listing {s : Surface} (h : s.IsPlain) :
    Text.splitOn '\n' s.listing.toList = s.types.map String.toList := by
  unfold listing Text.joined
  rw [String.toList_ofList]
  refine Text.splitOn_joinWith (fun hnil => h.ne_nil (List.map_eq_nil_iff.mp hnil)) ?_
  intro piece hpiece
  obtain ⟨name, hname, rfl⟩ := List.mem_map.mp hpiece
  exact h.no_newline name hname

theorem types_inj {s s' : Surface} (h : s.types.map String.toList = s'.types.map String.toList) :
    s = s' :=
  congrArg mk ((List.map_inj_right fun _ _ => String.toList_inj.mp).mp h)

theorem listing_inj {s s' : Surface} (h : s.IsPlain) (h' : s'.IsPlain)
    (heq : s.listing = s'.listing) : s = s' := by
  apply types_inj
  rw [← h.splitOn_listing, ← h'.splitOn_listing, heq]

theorem listing_eq_empty_iff {s : Surface} (h : ∀ name ∈ s.types, '\n' ∉ name.toList) :
    s.listing = "" ↔ s = empty ∨ s = ⟨[""]⟩ := by
  constructor
  · intro hlisting
    by_cases hnil : s.types = []
    · exact .inl (congrArg mk hnil)
    · have hplain : s.IsPlain := ⟨hnil, h⟩
      have hsplit := hplain.splitOn_listing
      rw [hlisting] at hsplit
      exact .inr (types_inj hsplit.symm)
  · rintro (rfl | rfl) <;> rfl

theorem listing_eq_iff {s s' : Surface} (h : ∀ name ∈ s.types, '\n' ∉ name.toList)
    (h' : ∀ name ∈ s'.types, '\n' ∉ name.toList) :
    s.listing = s'.listing ↔ s = s' ∨ (s.listing = "" ∧ s'.listing = "") := by
  constructor
  · intro heq
    by_cases hempty : s.listing = ""
    · exact .inr ⟨hempty, heq ▸ hempty⟩
    · have hplain {s : Surface} (h : ∀ name ∈ s.types, '\n' ∉ name.toList) (hs : s.listing ≠ "") :
          s.IsPlain := by
        refine ⟨fun hnil => hs ?_, h⟩
        obtain rfl : s = empty := congrArg mk hnil
        rfl
      exact .inl (listing_inj (hplain h hempty) (hplain h' (heq ▸ hempty)) heq)
  · rintro (rfl | ⟨hs, hs'⟩)
    · rfl
    · rw [hs, hs']

end Surface

end LogTemplate
