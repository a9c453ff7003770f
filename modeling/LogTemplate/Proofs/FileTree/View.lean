import LogTemplate.FileTree.Basic
import Mathlib.Logic.Function.Basic

/-! What stands at each place of a tree, and how putting a node somewhere and removing one change
that. -/

namespace LogTemplate

/-- What a node is, apart from what is below it. -/
inductive Label where
  | file (content : List UInt8)
  | link (target : RawText)
  | directory
  deriving DecidableEq

namespace Node

def label : Node → Label
  | file content => .file content
  | link target => .link target
  | directory _ => .directory

def view (top : Node) (place : List RawText) : Option Label := (top.at? place).map label

theorem at?_directory_cons (es : List (RawText × Node)) (name : RawText) (rest : List RawText) :
    (directory es).at? (name :: rest) = (es.lookup name).bind (at? · rest) := by
  rw [at?, entries]
  cases es.lookup name <;> rfl

theorem at?_cons_of_not_directory {n : Node} (h : n.label ≠ .directory) (name : RawText)
    (rest : List RawText) : n.at? (name :: rest) = none := by
  cases n with
  | file content => rfl
  | link target => rfl
  | directory es => exact absurd rfl h

theorem at?_append (top : Node) (place rest : List RawText) :
    top.at? (place ++ rest) = (top.at? place).bind (at? · rest) := by
  induction place generalizing top with
  | nil => rfl
  | cons name place ih =>
    rw [List.cons_append, at?, at?]
    cases top.entries.lookup name with
    | none => rfl
    | some child => exact ih child

theorem view_append_cons_of_ne_directory {top : Node} {place : List RawText}
    (h : top.view place ≠ some .directory) (name : RawText) (rest : List RawText) :
    top.view (place ++ name :: rest) = none := by
  unfold view at h ⊢
  rw [at?_append]
  cases hat : top.at? place with
  | none => rfl
  | some n =>
    rw [hat] at h
    have hlabel : n.label ≠ .directory := fun heq => h (congrArg some heq)
    rw [Option.bind_some, at?_cons_of_not_directory hlabel]
    rfl

theorem view_append_singleton {top : Node} {place : List RawText} {es : List (RawText × Node)}
    (h : top.at? place = some (.directory es)) (name : RawText) :
    top.view (place ++ [name]) = (es.lookup name).map label := by
  unfold view
  rw [at?_append, h, Option.bind_some, at?_directory_cons]
  cases es.lookup name <;> rfl

theorem view_cons_congr {es fs : List (RawText × Node)} {name : RawText} {rest : List RawText}
    (h : (es.lookup name).bind (at? · rest) = (fs.lookup name).bind (at? · rest)) :
    (directory es).view (name :: rest) = (directory fs).view (name :: rest) := by
  unfold view
  rw [at?_directory_cons, at?_directory_cons, h]

/-! ### Putting a node somewhere -/

theorem set_of_lookup_some {es : List (RawText × Node)} {name : RawText} {child : Node}
    (h : es.lookup name = some child) (new : Node) (rest : List RawText) :
    set new (name :: rest) (directory es) = directory (Entries.put name (set new rest child) es) := by
  rw [set, h]

theorem set_of_lookup_none {es : List (RawText × Node)} {name : RawText} (h : es.lookup name = none)
    (new : Node) : set new [name] (directory es) = directory (Entries.put name new es) := by
  rw [set, h]
  rfl

theorem set_cons_of_lookup_none {es : List (RawText × Node)} {name : RawText}
    (h : es.lookup name = none) (new : Node) (next : RawText) (rest : List RawText) :
    set new (name :: next :: rest) (directory es) = directory es := by
  rw [set, h]
  rfl

theorem at?_set_append {top : Node} {above : List RawText} (h : top.view above = some .directory)
    (new : Node) (name : RawText) (rest : List RawText) :
    (set new (above ++ [name]) top).at? (above ++ name :: rest) = new.at? rest := by
  induction above generalizing top with
  | nil =>
    cases top with
    | file content => cases h
    | link target => cases h
    | directory es =>
      rw [List.nil_append, List.nil_append]
      cases hlookup : es.lookup name with
      | none =>
        rw [set_of_lookup_none hlookup, at?_directory_cons, Entries.lookup_put, if_pos rfl]
        rfl
      | some child =>
        rw [set_of_lookup_some hlookup, at?_directory_cons, Entries.lookup_put, if_pos rfl, set]
        rfl
  | cons first above ih =>
    cases top with
    | file content => cases h
    | link target => cases h
    | directory es =>
      unfold view at h
      rw [at?_directory_cons] at h
      cases hlookup : es.lookup first with
      | none =>
        rw [hlookup] at h
        cases h
      | some child =>
        rw [hlookup] at h
        rw [List.cons_append, List.cons_append, set_of_lookup_some hlookup, at?_directory_cons,
          Entries.lookup_put, if_pos rfl]
        exact ih h

theorem view_set_of_not_above {place other : List RawText} (h : ¬ place <+: other) (new top : Node) :
    (set new place top).view other = top.view other := by
  induction place generalizing top other with
  | nil => exact absurd List.nil_prefix h
  | cons name place ih =>
    cases top with
    | file content => rfl
    | link target => rfl
    | directory es =>
      cases other with
      | nil =>
        rw [set]
        split
        · rfl
        · split <;> rfl
      | cons first other =>
        have hother (value : Node) (hfirst : first ≠ name) :
            (directory (Entries.put name value es)).view (first :: other)
              = (directory es).view (first :: other) :=
          view_cons_congr (by rw [Entries.lookup_put, if_neg hfirst])
        -- a change is seen only below the name it goes through
        cases hlookup : es.lookup name with
        | some child =>
          rw [set_of_lookup_some hlookup]
          by_cases hfirst : first = name
          · subst hfirst
            have hrest : ¬ place <+: other := fun hp => h (List.cons_prefix_cons.mpr ⟨rfl, hp⟩)
            have hchild := ih hrest child
            unfold view at hchild ⊢
            rw [at?_directory_cons, at?_directory_cons, Entries.lookup_put, if_pos rfl, hlookup]
            exact hchild
          · exact hother _ hfirst
        | none =>
          cases place with
          | nil =>
            rw [set_of_lookup_none hlookup]
            refine hother new fun hfirst => h ?_
            exact List.cons_prefix_cons.mpr ⟨hfirst.symm, List.nil_prefix⟩
          | cons next place => rw [set_cons_of_lookup_none hlookup]

/-! ### Removing a node -/

theorem erase_single (es : List (RawText × Node)) (name : RawText) :
    erase [name] (directory es) = directory (Entries.drop name es) := rfl

theorem erase_of_lookup_some {es : List (RawText × Node)} {name : RawText} {child : Node}
    (h : es.lookup name = some child) (next : RawText) (rest : List RawText) :
    erase (name :: next :: rest) (directory es)
      = directory (Entries.put name (erase (next :: rest) child) es) := by
  rw [erase, h]
  intro heq
  cases heq

theorem erase_of_lookup_none {es : List (RawText × Node)} {name : RawText}
    (h : es.lookup name = none) (next : RawText) (rest : List RawText) :
    erase (name :: next :: rest) (directory es) = directory es := by
  rw [erase, h]
  intro heq
  cases heq

theorem erase_of_not_directory {n : Node} (h : n.label ≠ .directory) (place : List RawText) :
    erase place n = n := by
  cases n with
  | file content => unfold erase; split <;> simp_all
  | link target => unfold erase; split <;> simp_all
  | directory es => exact absurd rfl h

theorem at?_erase_append (top : Node) (above : List RawText) (name : RawText)
    (rest : List RawText) : (erase (above ++ [name]) top).at? (above ++ name :: rest) = none := by
  induction above generalizing top with
  | nil =>
    cases top with
    | file content => rfl
    | link target => rfl
    | directory es =>
      rw [List.nil_append, List.nil_append, erase_single, at?_directory_cons, Entries.lookup_drop,
        if_pos rfl]
      rfl
  | cons first above ih =>
    obtain ⟨next, tail, htail⟩ : ∃ next tail, above ++ [name] = next :: tail :=
      List.exists_cons_of_ne_nil (List.append_ne_nil_of_right_ne_nil above (List.cons_ne_nil name []))
    rw [List.cons_append, List.cons_append]
    by_cases hlabel : top.label = .directory
    · cases top with
      | file content => cases hlabel
      | link target => cases hlabel
      | directory es =>
        cases hlookup : es.lookup first with
        | none =>
          rw [htail, erase_of_lookup_none hlookup, at?_directory_cons, hlookup]
          rfl
        | some child =>
          have hchild := ih child
          rw [htail] at hchild ⊢
          rw [erase_of_lookup_some hlookup, at?_directory_cons, Entries.lookup_put, if_pos rfl]
          exact hchild
    · rw [erase_of_not_directory hlabel, at?_cons_of_not_directory hlabel]

theorem view_erase_of_not_above {place other : List RawText} (h : ¬ place <+: other) (top : Node) :
    (erase place top).view other = top.view other := by
  induction place generalizing top other with
  | nil => exact absurd List.nil_prefix h
  | cons name place ih =>
    by_cases hlabel : top.label = .directory
    · cases top with
      | file content => cases hlabel
      | link target => cases hlabel
      | directory es =>
        cases other with
        | nil =>
          cases place with
          | nil => rfl
          | cons next place =>
            cases hlookup : es.lookup name with
            | none => rw [erase_of_lookup_none hlookup]
            | some child =>
              rw [erase_of_lookup_some hlookup]
              rfl
        | cons first other =>
          cases place with
          | nil =>
            have hfirst : first ≠ name := fun heq =>
              h (List.cons_prefix_cons.mpr ⟨heq.symm, List.nil_prefix⟩)
            rw [erase_single]
            exact view_cons_congr (by rw [Entries.lookup_drop, if_neg hfirst])
          | cons next place =>
            cases hlookup : es.lookup name with
            | none => rw [erase_of_lookup_none hlookup]
            | some child =>
              rw [erase_of_lookup_some hlookup]
              by_cases hfirst : first = name
              · subst hfirst
                have hrest : ¬ next :: place <+: other := fun hp =>
                  h (List.cons_prefix_cons.mpr ⟨rfl, hp⟩)
                have hchild := ih hrest child
                unfold view at hchild ⊢
                rw [at?_directory_cons, at?_directory_cons, Entries.lookup_put, if_pos rfl,
                  hlookup]
                exact hchild
              · exact view_cons_congr (by rw [Entries.lookup_put, if_neg hfirst])
    · rw [erase_of_not_directory hlabel]

/-! ### One place changed -/

def IsLeaf (n : Node) : Prop := ∀ name rest, n.at? (name :: rest) = none

theorem isLeaf_of_not_directory {n : Node} (h : n.label ≠ .directory) : n.IsLeaf :=
  at?_cons_of_not_directory h

theorem isLeaf_empty : (directory []).IsLeaf := fun _ _ => rfl

theorem view_set {top : Node} {above : List RawText} {name : RawText} {new : Node}
    (habove : top.view above = some .directory) (hnew : new.IsLeaf)
    (hold : top.view (above ++ [name]) ≠ some .directory) :
    (set new (above ++ [name]) top).view
      = Function.update top.view (above ++ [name]) (some new.label) := by
  funext other
  by_cases hprefix : above ++ [name] <+: other
  · obtain ⟨rest, rfl⟩ := hprefix
    have hset := at?_set_append habove new name rest
    cases rest with
    | nil =>
      rw [List.append_nil, Function.update_self]
      unfold view
      rw [hset]
      rfl
    | cons next rest =>
      have hne : above ++ [name] ++ next :: rest ≠ above ++ [name] := by simp
      rw [Function.update_of_ne hne, view_append_cons_of_ne_directory hold]
      unfold view
      rw [List.append_assoc, List.singleton_append, hset, hnew]
      rfl
  · have hne : other ≠ above ++ [name] := fun heq => hprefix (heq ▸ List.prefix_refl _)
    rw [view_set_of_not_above hprefix, Function.update_of_ne hne]

theorem view_erase {top : Node} {above : List RawText} {name : RawText}
    (hold : top.view (above ++ [name]) ≠ some .directory) :
    (erase (above ++ [name]) top).view = Function.update top.view (above ++ [name]) none := by
  funext other
  by_cases hprefix : above ++ [name] <+: other
  · obtain ⟨rest, rfl⟩ := hprefix
    have herase := at?_erase_append top above name rest
    have hview : (erase (above ++ [name]) top).view (above ++ [name] ++ rest) = none := by
      unfold view
      rw [List.append_assoc, List.singleton_append, herase]
      rfl
    rw [hview]
    cases rest with
    | nil => rw [List.append_nil, Function.update_self]
    | cons next rest =>
      have hne : above ++ [name] ++ next :: rest ≠ above ++ [name] := by simp
      rw [Function.update_of_ne hne, view_append_cons_of_ne_directory hold]
  · have hne : other ≠ above ++ [name] := fun heq => hprefix (heq ▸ List.prefix_refl _)
    rw [view_erase_of_not_above hprefix, Function.update_of_ne hne]

theorem erase_set {top : Node} {above : List RawText} {name : RawText}
    (habove : top.view above = some .directory) (hfree : top.view (above ++ [name]) = none)
    (new : Node) : erase (above ++ [name]) (set new (above ++ [name]) top) = top := by
  induction above generalizing top with
  | nil =>
    cases top with
    | file content => cases habove
    | link target => cases habove
    | directory es =>
      have htop : (Node.directory es).at? [] = some (.directory es) := rfl
      have hlookup : es.lookup name = none := by
        rwa [view_append_singleton htop, Option.map_eq_none_iff] at hfree
      rw [List.nil_append, set_of_lookup_none hlookup, erase_single, Entries.drop_put hlookup]
  | cons first above ih =>
    cases top with
    | file content => cases habove
    | link target => cases habove
    | directory es =>
      cases hlookup : es.lookup first with
      | none =>
        unfold view at habove
        rw [at?_directory_cons, hlookup] at habove
        cases habove
      | some child =>
        have hview (rest : List RawText) : (directory es).view (first :: rest) = child.view rest := by
          unfold view
          rw [at?_directory_cons, hlookup, Option.bind_some]
        have hchild := ih ((hview _).symm.trans habove) ((hview _).symm.trans hfree)
        have hput : (Entries.put first (set new (above ++ [name]) child) es).lookup first
            = some (set new (above ++ [name]) child) := by rw [Entries.lookup_put, if_pos rfl]
        obtain ⟨next, tail, htail⟩ : ∃ next tail, above ++ [name] = next :: tail :=
          List.exists_cons_of_ne_nil
            (List.append_ne_nil_of_right_ne_nil above (List.cons_ne_nil name []))
        rw [List.cons_append, set_of_lookup_some hlookup]
        rw [htail] at hput hchild ⊢
        rw [erase_of_lookup_some hput, hchild, Entries.put_put, Entries.put_of_lookup hlookup]

theorem view_above {top : Node} {above : List RawText} {name : RawText}
    (h : top.view (above ++ [name]) ≠ none) : top.view above = some .directory := by
  by_contra habove
  exact h (view_append_cons_of_ne_directory habove name [])

theorem view_top_of_directory {top : Node} {place : List RawText}
    (h : top.view place = some .directory) : top.view [] = some .directory := by
  cases place with
  | nil => exact h
  | cons name rest =>
    by_contra htop
    have hnone := view_append_cons_of_ne_directory htop name rest
    rw [List.nil_append, h] at hnone
    cases hnone

end Node

end LogTemplate
