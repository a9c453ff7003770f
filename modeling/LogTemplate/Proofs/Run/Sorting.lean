import Mathlib.Data.List.Pairwise
import Mathlib.Data.List.Sort
import LogTemplate.Run

/-! Sorting by a comparison keeps items of the same rank in their order, and so to leave out some of
them beforehand makes no difference to the others. Paths, places and diagnostics are sorted by
comparisons. -/

namespace LogTemplate

/-! ### Sorting a part of a list -/

section

variable {α : Type} {cmp : α → α → Ordering} [Std.TransCmp cmp]

theorem isLE_total (a b : α) : ((cmp a b).isLE || (cmp b a).isLE) = true := by
  have hswap : cmp b a = (cmp a b).swap := Std.OrientedCmp.eq_swap
  rw [hswap]
  cases cmp a b <;> rfl

theorem exists_mergeSort_cons (cmp : α → α → Ordering) [Std.TransCmp cmp] (a : α) (as : List α) :
    ∃ below above, (a :: as).mergeSort (fun x y => (cmp x y).isLE) = below ++ a :: above ∧
      as.mergeSort (fun x y => (cmp x y).isLE) = below ++ above ∧
      (below ++ above).filter (fun b => !(cmp a b).isLE) = below ∧
      (below ++ above).filter (fun b => (cmp a b).isLE) = above := by
  have htrans (x y z : α) : (cmp x y).isLE = true → (cmp y z).isLE = true → (cmp x z).isLE = true :=
    Std.TransCmp.isLE_trans
  obtain ⟨below, above, hsort, hrest, hbelow⟩ := List.mergeSort_cons htrans isLE_total a as
  have hsorted := List.pairwise_mergeSort htrans isLE_total (a :: as)
  rw [hsort] at hsorted
  have habove : ∀ b ∈ above, (cmp a b).isLE = true :=
    (List.pairwise_cons.mp (List.pairwise_append.mp hsorted).2.1).1
  refine ⟨below, above, hsort, hrest, ?_, ?_⟩
  · rw [List.filter_append, List.filter_eq_self.mpr hbelow, List.filter_eq_nil_iff.mpr,
      List.append_nil]
    intro b hb
    rw [habove b hb]
    exact Bool.false_ne_true
  · rw [List.filter_append, List.filter_eq_self.mpr habove, List.filter_eq_nil_iff.mpr,
      List.nil_append]
    intro b hb
    rw [(Bool.not_eq_true' _).mp (hbelow b hb)]
    exact Bool.false_ne_true

theorem mergeSort_sublist_mergeSort {as bs : List α} (h : as.Sublist bs) :
    (as.mergeSort fun x y => (cmp x y).isLE).Sublist (bs.mergeSort fun x y => (cmp x y).isLE) := by
  induction h with
  | slnil => exact List.Sublist.refl _
  | @cons as bs b _ ih =>
    obtain ⟨below, above, hsort, hrest, -, -⟩ := exists_mergeSort_cons cmp b bs
    rw [hsort]
    rw [hrest] at ih
    exact ih.trans (List.Sublist.append_left (List.sublist_cons_self b above) below)
  | @cons_cons as bs a _ ih =>
    obtain ⟨below, above, hsort, hrest, hbelow, habove⟩ := exists_mergeSort_cons cmp a as
    obtain ⟨below', above', hsort', hrest', hbelow', habove'⟩ :=
      exists_mergeSort_cons cmp a bs
    rw [hrest, hrest'] at ih
    -- the new item tells the two sides of the sorted rest apart, in both lists
    have hlow : below.Sublist below' := hbelow ▸ hbelow' ▸ ih.filter _
    have hhigh : above.Sublist above' := habove ▸ habove' ▸ ih.filter _
    rw [hsort, hsort']
    exact hlow.append (hhigh.cons_cons a)

theorem pairwise_mergeSort (cmp : α → α → Ordering) [Std.TransCmp cmp] (as : List α) :
    (as.mergeSort fun x y => (cmp x y).isLE).Pairwise fun x y => (cmp x y).isLE = true :=
  List.pairwise_mergeSort (fun _ _ _ => Std.TransCmp.isLE_trans) isLE_total as

theorem mergeSort_eq_of_perm {as bs : List α} (h : as.Perm bs)
    (hties : ∀ a ∈ bs, ∀ b ∈ bs, cmp a b = .eq → a = b) :
    as.mergeSort (fun x y => (cmp x y).isLE) = bs.mergeSort (fun x y => (cmp x y).isLE) := by
  have hperm : (as.mergeSort fun x y => (cmp x y).isLE).Perm (bs.mergeSort fun x y => (cmp x y).isLE) :=
    ((List.mergeSort_perm as _).trans h).trans (List.mergeSort_perm bs _).symm
  refine List.Perm.eq_of_pairwise (fun a b ha hb hab hba => ?_)
    (pairwise_mergeSort cmp as) (pairwise_mergeSort cmp bs) hperm
  exact hties a (h.mem_iff.mp (List.mem_mergeSort.mp ha)) b (List.mem_mergeSort.mp hb)
    (Std.OrientedCmp.isLE_antisymm hab hba)

theorem mergeSort_eq_of_perm_of_pairwise {as bs : List α} (h : as.Perm bs)
    (hranks : bs.Pairwise fun a b => cmp a b ≠ .eq) :
    as.mergeSort (fun x y => (cmp x y).isLE) = bs.mergeSort (fun x y => (cmp x y).isLE) := by
  have hsymm : Std.Symm fun a b => cmp a b ≠ .eq := ⟨fun _ _ => mt Std.OrientedCmp.eq_comm.mp⟩
  refine mergeSort_eq_of_perm h fun a ha b hb htie => ?_
  by_contra hne
  exact hranks.forall ha hb hne htie

end

/-! ### Comparisons -/

theorem transCmp_on {α β : Type} (f : α → β) (cmp : β → β → Ordering) [Std.TransCmp cmp] :
    Std.TransCmp fun a b => cmp (f a) (f b) where
  eq_swap := Std.OrientedCmp.eq_swap
  isLE_trans := Std.TransCmp.isLE_trans

instance lawfulEqCmp_toNat : Std.LawfulEqCmp (compareOn UInt8.toNat) where
  eq_of_compare h := UInt8.toNat_inj.mp (Std.LawfulEqOrd.eq_of_compare h)

instance : Std.TransOrd RawText :=
  transCmp_on RawText.bytes (List.compareLex (compareOn UInt8.toNat))

instance : Std.LawfulEqOrd RawText where
  eq_of_compare {a b} h := by
    have hbytes : List.compareLex (compareOn UInt8.toNat) a.bytes b.bytes = .eq := h
    exact RawText.bytes_inj.mp (Std.LawfulEqCmp.eq_of_compare hbytes)

theorem Component.order_eq_compareLex :
    order = compareLex (compareOn Component.rank) (compareOn Component.text) := by
  funext a b
  cases a <;> cases b <;> rfl

instance : Std.TransCmp Component.order := by
  rw [Component.order_eq_compareLex]
  infer_instance

theorem Component.eq_of_rank_text {a b : Component} (hrank : a.rank = b.rank)
    (htext : a.text = b.text) : a = b := by
  cases a <;> cases b <;> simp_all [rank, text]

instance : Std.LawfulEqCmp Component.order where
  eq_of_compare {a b} h := by
    rw [Component.order_eq_compareLex, compareLex_eq_eq] at h
    exact Component.eq_of_rank_text (Std.LawfulEqOrd.eq_of_compare h.1)
      (Std.LawfulEqOrd.eq_of_compare h.2)

theorem Path.orderComponents_eq_compareLex :
    orderComponents = List.compareLex Component.order := by
  funext as bs
  induction as generalizing bs with
  | nil => cases bs <;> rfl
  | cons a as ih =>
    cases bs with
    | nil => rfl
    | cons b bs =>
      rw [orderComponents, List.compareLex_cons_cons, ih]

instance : Std.TransCmp Path.orderComponents := by
  rw [Path.orderComponents_eq_compareLex]
  infer_instance

instance : Std.LawfulEqCmp Path.orderComponents := by
  rw [Path.orderComponents_eq_compareLex]
  infer_instance

instance : Std.TransCmp Path.order := transCmp_on Path.components Path.orderComponents

theorem Path.order_eq_eq_iff {a b : RawText} : order a b = .eq ↔ components a = components b := by
  unfold order
  exact Std.LawfulEqCmp.compare_eq_iff_eq

instance : Std.TransCmp Location.order :=
  inferInstanceAs (Std.TransCmp (compareLex (compareOn Location.file)
    (compareLex (compareOn Location.line)
      (compareLex (compareOn Location.column) (compareOn Location.length)))))

instance : Std.TransCmp Diagnostic.order := by
  have hplace := transCmp_on Diagnostic.location Location.order
  exact inferInstanceAs (Std.TransCmp (compareLex
    (fun a b : Diagnostic => a.location.order b.location) (compareOn Diagnostic.text)))

theorem Path.sort_sublist_sort {paths paths' : List RawText} (h : paths'.Sublist paths) :
    (sort paths').Sublist (sort paths) := mergeSort_sublist_mergeSort h

theorem Diagnostic.sort_sublist_sort {ds ds' : List Diagnostic} (h : ds'.Sublist ds) :
    (sort ds').Sublist (sort ds) := mergeSort_sublist_mergeSort h

/-! ### Paths -/

theorem Path.pairwise_sort {paths : List RawText}
    (h : paths.Pairwise fun a b => components a ≠ components b) :
    (sort paths).Pairwise fun a b => order a b = .lt := by
  have hdifferent : (sort paths).Pairwise fun a b => components a ≠ components b :=
    (List.mergeSort_perm paths _).symm.pairwise h Ne.symm
  refine ((pairwise_mergeSort order paths).and hdifferent).imp fun {a b} hab => ?_
  cases horder : order a b with
  | lt => rfl
  | eq => exact absurd (order_eq_eq_iff.mp horder) hab.2
  | gt =>
    rw [horder] at hab
    cases hab.1

theorem Path.sort_eq_of_perm {arrived paths : List RawText} (h : arrived.Perm paths)
    (hpaths : paths.Pairwise fun a b => order a b = .lt) : sort arrived = paths := by
  have hranks : paths.Pairwise fun a b => order a b ≠ .eq :=
    hpaths.imp fun hab => by rw [hab]; exact nofun
  have hsame : sort arrived = sort paths := mergeSort_eq_of_perm_of_pairwise h hranks
  rw [hsame]
  exact List.mergeSort_of_pairwise (hpaths.imp fun hab => by rw [hab]; rfl)

end LogTemplate
