import LogTemplate.Proofs.Call.Folding
import LogTemplate.Proofs.Dump.Expressions

/-! Additions of expressions. However additions are bracketed, the flat sum has the text of the nested
one; and a chain of additions is one sum, as deep as what is added and no deeper for its length. -/

namespace LogTemplate

namespace Expr

/-! ### Texts -/

def joinTexts (left right : Option String) : Option String :=
  left.bind fun a => right.map (a ++ ·)

theorem foldText_concat (es : List Expr) (l : Location) :
    foldText (concat es l) = (es.mapM foldText).map String.join :=
  foldText_of_operands rfl rfl

theorem map_join_mapM_singleton (e : Expr) :
    ([e].mapM foldText).map String.join = foldText e := by
  rw [List.mapM_cons, List.mapM_nil]
  cases foldText e with
  | none => rfl
  | some text => exact congrArg some (String.empty_append ..)

theorem map_join_mapM_append (es fs : List Expr) :
    ((es ++ fs).mapM foldText).map String.join
      = joinTexts ((es.mapM foldText).map String.join) ((fs.mapM foldText).map String.join) := by
  rw [List.mapM_append]
  cases es.mapM foldText with
  | none => rfl
  | some texts =>
    cases fs.mapM foldText with
    | none => rfl
    | some texts' => exact congrArg some String.join_append

theorem map_join_mapM_summands (e : Expr) :
    (e.summands.mapM foldText).map String.join = foldText e := by
  cases e with
  | concat es l => exact (foldText_concat es l).symm
  | constant v l => exact map_join_mapM_singleton (constant v l)
  | other s l => exact map_join_mapM_singleton (other s l)

theorem foldText_add (a b : Expr) (l : Location) :
    foldText (a.add b l) = joinTexts (foldText a) (foldText b) := by
  rw [add, foldText_concat, map_join_mapM_append, map_join_mapM_summands, map_join_mapM_singleton]

theorem foldText_concat_pair (a b : Expr) (l : Location) :
    foldText (concat [a, b] l) = joinTexts (foldText a) (foldText b) := by
  have hpair : [a, b] = [a] ++ [b] := rfl
  rw [foldText_concat, hpair, map_join_mapM_append, map_join_mapM_singleton,
    map_join_mapM_singleton]

/-- Additions as they are bracketed, over any expressions. -/
inductive Addition where
  | leaf (e : Expr)
  | plus (left right : Addition) (location : Location)

namespace Addition

/-- The expression that additions from the inside out make. -/
def flat : Addition → Expr
  | leaf e => e
  | plus a b l => a.flat.add b.flat l

/-- The expression with a node of two operands for each addition. -/
def nested : Addition → Expr
  | leaf e => e
  | plus a b l => .concat [a.nested, b.nested] l

theorem foldText_flat (t : Addition) : foldText t.flat = foldText t.nested := by
  induction t with
  | leaf e => rfl
  | plus a b l iha ihb => rw [flat, nested, foldText_add, foldText_concat_pair, iha, ihb]

theorem location_flat (t : Addition) : t.flat.location = t.nested.location := by
  cases t <;> rfl

end Addition

/-! ### Chains -/

def addAll (e : Expr) (rs : List (Expr × Location)) : Expr :=
  rs.foldl (fun sum r => sum.add r.1 r.2) e

theorem addAll_append (e : Expr) (rs rs' : List (Expr × Location)) :
    e.addAll (rs ++ rs') = (e.addAll rs).addAll rs' := List.foldl_append

theorem summands_addAll (e : Expr) (rs : List (Expr × Location)) :
    (e.addAll rs).summands = e.summands ++ rs.map Prod.fst := by
  induction rs generalizing e with
  | nil => exact (List.append_nil _).symm
  | cons r rs ih =>
    have hadd : e.addAll (r :: rs) = (e.add r.1 r.2).addAll rs := rfl
    have hsummands : (e.add r.1 r.2).summands = e.summands ++ [r.1] := rfl
    rw [hadd, ih, hsummands, List.append_assoc, List.map_cons, List.singleton_append]

theorem addAll_concat (e : Expr) (rs : List (Expr × Location)) (r : Expr × Location) :
    e.addAll (rs ++ [r]) = concat (e.summands ++ rs.map Prod.fst ++ [r.1]) r.2 := by
  rw [addAll_append, ← summands_addAll]
  rfl

/-! ### Depth -/

mutual
def depth : Expr → Nat
  | concat es _ => deepest es + 1
  | _ => 1

def deepest : List Expr → Nat
  | [] => 0
  | e :: es => max e.depth (deepest es)
end

theorem depth_concat (es : List Expr) (l : Location) : (concat es l).depth = deepest es + 1 := by
  rw [depth]

theorem deepest_append (es fs : List Expr) :
    deepest (es ++ fs) = max (deepest es) (deepest fs) := by
  induction es with
  | nil => exact (Nat.zero_max _).symm
  | cons e es ih => rw [List.cons_append, deepest, deepest, ih, Nat.max_assoc]

theorem deepest_singleton (e : Expr) : deepest [e] = e.depth := by
  rw [deepest, deepest, Nat.max_zero]

theorem deepest_le_iff {es : List Expr} {n : Nat} : deepest es ≤ n ↔ ∀ e ∈ es, e.depth ≤ n := by
  induction es with
  | nil => simp [deepest]
  | cons e es ih => rw [deepest, Nat.max_le, ih, List.forall_mem_cons]

theorem deepest_summands_le (e : Expr) : deepest e.summands ≤ e.depth := by
  cases e with
  | concat es l =>
    rw [depth_concat]
    exact Nat.le_succ _
  | constant v l => exact Nat.le_of_eq (deepest_singleton _)
  | other s l => exact Nat.le_of_eq (deepest_singleton _)

theorem depth_addAll {rs : List (Expr × Location)} (hrs : rs ≠ []) (e : Expr) :
    (e.addAll rs).depth = max (deepest e.summands) (deepest (rs.map Prod.fst)) + 1 := by
  obtain ⟨before, r, rfl⟩ : ∃ before r, rs = before ++ [r] :=
    ⟨_, _, (List.dropLast_append_getLast hrs).symm⟩
  rw [addAll_concat, depth_concat, List.append_assoc, deepest_append, List.map_append]
  rfl

theorem depth_addAll_le {rs : List (Expr × Location)} (hrs : rs ≠ []) (e : Expr) :
    (e.addAll rs).depth ≤ deepest (e :: rs.map Prod.fst) + 1 := by
  rw [depth_addAll hrs, deepest]
  have hsummands := deepest_summands_le e
  omega

/-! In a dump an expression opens two levels for each of its nodes on the way down. -/

theorem depthItems_toJson {es : List Expr} (h : ∀ e ∈ es, e.toJson.depth = 2 * e.depth) :
    Json.depthItems (es.map toJson) = 2 * deepest es := by
  induction es with
  | nil => rfl
  | cons e es ih =>
    obtain ⟨he, hes⟩ := List.forall_mem_cons.mp h
    rw [List.map_cons, Json.depthItems, deepest, he, ih hes]
    omega

theorem depth_toJson_eq (e : Expr) : e.toJson.depth = 2 * e.depth := by
  induction e with
  | constant v l => exact depth_toJson_constant v l
  | other s l => exact depth_toJson_other s l
  | concat es l ih => rw [depth_toJson_concat, depthItems_toJson ih, depth_concat, Nat.mul_succ]

/-- Additions made one into another have the text and the place of the nested ones. A chain of them is
one sum of all that was added, one node deeper than the deepest of it at most, which is two levels in a
dump, and no deeper for anything more that is as shallow. -/
theorem add_flattens :
    (∀ t : Addition, textOf t.flat = textOf t.nested ∧ t.flat.location = t.nested.location) ∧
    ∀ (e : Expr) (rs : List (Expr × Location)) (r : Expr × Location),
      e.addAll (rs ++ [r]) = concat (e.operands?.getD [e] ++ rs.map Prod.fst ++ [r.1]) r.2 ∧
      (e.addAll (rs ++ [r])).depth ≤ deepest (e :: (rs ++ [r]).map Prod.fst) + 1 ∧
      (e.addAll (rs ++ [r])).toJson.depth
        ≤ Json.depthItems ((e :: (rs ++ [r]).map Prod.fst).map toJson) + 2 ∧
      ∀ more : List (Expr × Location),
        (∀ x ∈ more, ∃ r' ∈ rs ++ [r], x.1.depth ≤ r'.1.depth) →
        (e.addAll (rs ++ [r] ++ more)).depth = (e.addAll (rs ++ [r])).depth := by
  refine ⟨fun t => ⟨?_, t.location_flat⟩, fun e rs r => ?_⟩
  · rw [textOf_eq_foldText, textOf_eq_foldText, t.foldText_flat]
  have hrs : rs ++ [r] ≠ [] := List.append_ne_nil_of_right_ne_nil rs (List.cons_ne_nil r [])
  have hdepth := depth_addAll_le hrs e
  refine ⟨?_, hdepth, ?_, fun more hmore => ?_⟩
  · have hsummands : e.operands?.getD [e] = e.summands := by cases e <;> rfl
    rw [hsummands, addAll_concat]
  · rw [depth_toJson_eq, depthItems_toJson fun x _ => depth_toJson_eq x]
    omega
  · have hshallow : deepest (more.map Prod.fst) ≤ deepest ((rs ++ [r]).map Prod.fst) := by
      refine deepest_le_iff.mpr fun x hx => ?_
      obtain ⟨y, hy, rfl⟩ := List.mem_map.mp hx
      obtain ⟨r', hr', hle⟩ := hmore y hy
      exact Nat.le_trans hle (deepest_le_iff.mp (Nat.le_refl _) r'.1 (List.mem_map_of_mem hr'))
    have hall : rs ++ [r] ++ more ≠ [] := List.append_ne_nil_of_left_ne_nil hrs more
    rw [depth_addAll hall, depth_addAll hrs, List.map_append, deepest_append, Nat.max_eq_left hshallow]

def chainPlace : Location := ⟨"a.cs", 1, 1, 0⟩

def chainPiece : Expr := .string "a" chainPlace

def chainSum : Expr := .concat [chainPiece, chainPiece] chainPlace

theorem add_flattens_bracketed :
    (∀ x ∈ [(chainPiece, chainPlace)], ∃ r' ∈ [(chainPiece, chainPlace), (chainSum, chainPlace)],
      x.1.depth ≤ r'.1.depth) ∧
    chainSum.addAll [(chainPiece, chainPlace), (chainSum, chainPlace)]
      = concat [chainPiece, chainPiece, chainPiece, chainSum] chainPlace ∧
    (chainSum.addAll [(chainPiece, chainPlace), (chainSum, chainPlace), (chainPiece, chainPlace)]).depth
      = (chainSum.addAll [(chainPiece, chainPlace), (chainSum, chainPlace)]).depth := by
  have hshallow : ∀ x ∈ [(chainPiece, chainPlace)],
      ∃ r' ∈ [(chainPiece, chainPlace), (chainSum, chainPlace)], x.1.depth ≤ r'.1.depth :=
    List.forall_mem_singleton.mpr ⟨_, List.mem_cons_self .., Nat.le_refl _⟩
  obtain ⟨hsum, -, -, hdepth⟩ :=
    add_flattens.2 chainSum [(chainPiece, chainPlace)] (chainSum, chainPlace)
  exact ⟨hshallow, hsum, hdepth [(chainPiece, chainPlace)] hshallow⟩

end Expr

end LogTemplate
