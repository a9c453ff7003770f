import LogTemplate.Dump.Basic
import LogTemplate.Proofs.Dump.Expressions

/-! The text of a dump is read back as the dump, as far as a reader follows its nesting. -/

namespace LogTemplate

open Json Json.Shape

theorem head?_write_object_ne (l : Layout) (kvs : List (String × Json)) :
    (write l (.object kvs)).head? ≠ some 'n' := by
  rw [head?_write_object]
  decide

/-! ### Parts of a dump -/

theorem ParameterType.roundTrips (t : ParameterType) : ParameterType.shape.RoundTrips t := by
  cases t with
  | string => exact roundTrips_plain rfl rfl
  | other name => exact roundTrips_carrying rfl rfl (roundTrips_text name)

theorem ParameterType.leveled : ParameterType.shape.Leveled 1 := by
  have hdepth : ∀ t : ParameterType, t.toJson.depth ≤ 1 := by
    intro t
    cases t <;> exact Nat.le_of_ble_eq_true rfl
  refine leveled_choice hdepth (List.forall_mem_cons.mpr ⟨?_, List.forall_mem_singleton.mpr ?_⟩)
  · exact fun m n _ => Case.carries_plain "string" _ m n
  · exact fun m n hmn => (leveled_text 0).carries_carrying "other" _ hmn

theorem Parameter.roundTrips (p : Parameter) : Parameter.shape.RoundTrips p :=
  roundTrips_record (by decide)
    (.cons (Member.reads_ofShape (roundTrips_text p.name) _ _ _) <|
      .cons (Member.reads_ofShape p.type.roundTrips _ _ _) .nil)
    rfl

theorem Parameter.leveled : Parameter.shape.Leveled 2 := by
  refine leveled_record (k := 1) (List.forall_mem_cons.mpr ⟨?_, List.forall_mem_singleton.mpr ?_⟩)
    "struct Parameter" (List.forall_mem_cons.mpr ⟨?_, List.forall_mem_singleton.mpr ?_⟩)
  · exact Member.leveled_ofShape (leveled_text 1) (by simp [Member.ofShape]) _ _ _
  · exact Member.leveled_ofShape ParameterType.leveled (by simp [Member.ofShape]) _ _ _
  · exact Nat.zero_le 1
  · exact Nat.zero_le 1

theorem Signature.roundTrips (s : Signature) : Signature.shape.RoundTrips s :=
  roundTrips_record (by decide)
    (.cons (Member.reads_ofShape (roundTrips_text s.name) _ _ _) <|
      .cons (Member.reads_ofShape (roundTrips_text s.declaringType) _ _ _) <|
      .cons (Member.reads_ofShape (.list fun p _ => p.roundTrips) _ _ _) .nil)
    rfl

theorem Argument.roundTrips (a : Argument Expr) : Argument.shape.RoundTrips a := by
  have hparameter : uint64.optional.RoundTrips a.parameter := by
    refine .optional fun n _ => ⟨roundTrips_uint64 n, fun l => ?_⟩
    obtain ⟨c, hc, hhead⟩ := exists_head?_write_nat n.toNat
    show (write l (.nat n.toNat)).head? ≠ some 'n'
    rw [hhead]
    rintro heq
    cases heq
    cases hc
  have hvalue : Expr.shape.optional.RoundTrips a.value := by
    refine .optional fun e _ => ⟨e.roundTrips, fun l => ?_⟩
    show (write l e.toJson).head? ≠ some 'n'
    rw [e.toJson_eq]
    exact head?_write_object_ne l _
  exact roundTrips_record (by decide)
    (.cons (Member.reads_ofShape hparameter _ _ _) <|
      .cons (Member.reads_ofShape hvalue _ _ _) .nil)
    rfl

theorem Call.roundTrips (c : Call Expr) : Call.shape.RoundTrips c := by
  have hlocation : Location.shape.optional.RoundTrips c.location :=
    .optional fun l _ => ⟨l.roundTrips, fun _ => head?_write_object_ne _ _⟩
  exact roundTrips_record (by decide)
    (.cons (Member.reads_ofShape c.signature.roundTrips _ _ _) <|
      .cons (Member.reads_ofShape (.list fun a _ => Argument.roundTrips a) _ _ _) <|
      .cons (Member.reads_ofShape hlocation _ _ _) .nil)
    rfl

theorem Dump.roundTrips (d : Dump) : Dump.shape.RoundTrips d :=
  roundTrips_record (by decide)
    (.cons (Member.reads_ofShape (roundTrips_text d.compilation) _ _ _) <|
      .cons (Member.reads_ofShape (.list fun c _ => Call.roundTrips c) _ _ _) .nil)
    rfl

theorem Signature.leveled : Signature.shape.Leveled 4 := by
  refine leveled_record (k := 3) (List.forall_mem_cons.mpr ⟨?_, List.forall_mem_cons.mpr ⟨?_,
    List.forall_mem_singleton.mpr ?_⟩⟩) "struct MethodSignature" (List.forall_mem_cons.mpr ⟨?_,
    List.forall_mem_cons.mpr ⟨?_, List.forall_mem_singleton.mpr ?_⟩⟩)
  · exact Member.leveled_ofShape (leveled_text 3) (by simp [Member.ofShape]) _ _ _
  · exact Member.leveled_ofShape (leveled_text 3) (by simp [Member.ofShape]) _ _ _
  · exact Member.leveled_ofShape Parameter.leveled.list (by simp [Member.ofShape]) _ _ _
  · decide
  · decide
  · decide

theorem Argument.leveled : Argument.shape.Leveled 1 := by
  refine leveled_record (k := 0) (List.forall_mem_cons.mpr ⟨?_, List.forall_mem_singleton.mpr ?_⟩)
    "struct Argument" (List.forall_mem_cons.mpr ⟨?_, List.forall_mem_singleton.mpr ?_⟩)
  · exact Member.leveled_ofShape (leveled_uint64 0).optional (by simp [Member.ofShape]) _ _ _
  · exact Member.leveled_ofShape Expr.leveled.optional (by simp [Member.ofShape]) _ _ _
  · decide
  · decide

theorem Call.leveled : Call.shape.Leveled 5 := by
  have harguments : Argument.shape.list.Leveled 4 := Argument.leveled.list.weaken (by decide)
  have hlocation : Location.shape.optional.Leveled 4 := Location.leveled.optional.weaken (by decide)
  refine leveled_record (k := 4) (List.forall_mem_cons.mpr ⟨?_, List.forall_mem_cons.mpr ⟨?_,
    List.forall_mem_singleton.mpr ?_⟩⟩) "struct CallSite" (List.forall_mem_cons.mpr ⟨?_,
    List.forall_mem_cons.mpr ⟨?_, List.forall_mem_singleton.mpr ?_⟩⟩)
  · exact Member.leveled_ofShape Signature.leveled (by simp [Member.ofShape]) _ _ _
  · exact Member.leveled_ofShape harguments (by simp [Member.ofShape]) _ _ _
  · exact Member.leveled_ofShape hlocation (by simp [Member.ofShape]) _ _ _
  · decide
  · decide
  · decide

namespace Dump

theorem leveled : Dump.shape.Leveled 7 := by
  refine leveled_record (k := 6) (List.forall_mem_cons.mpr ⟨?_, List.forall_mem_singleton.mpr ?_⟩)
    "struct CallSiteDump" (List.forall_mem_cons.mpr ⟨?_, List.forall_mem_singleton.mpr ?_⟩)
  · exact Member.leveled_ofShape (leveled_text 6) (by simp [Member.ofShape]) _ _ _
  · exact Member.leveled_ofShape Call.leveled.list (by simp [Member.ofShape]) _ _ _
  · decide
  · decide

/-! ### Texts -/

theorem parse_eq_ok_iff {path : RawText} {content : String} {d : Dump} :
    parse path content = .ok d ↔ readAll (Dump.shape.stream maxDepth) content = .ok d := by
  unfold parse
  cases readAll (Dump.shape.stream maxDepth) content <;> simp

theorem exists_parse_eq_error {path : RawText} {content : String} {r : Rejection}
    (h : readAll (Dump.shape.stream maxDepth) content = .error r) :
    ∃ message position, parse path content = .error (.parse path message position) := by
  unfold parse
  rw [h]
  dsimp only
  unfold Rejection.error
  split
  · exact ⟨_, _, rfl⟩
  · exact ⟨_, _, rfl⟩

theorem depth_le_of_parse {path : RawText} {content : String} {d : Dump} (h : parse path content = .ok d) :
    (Dump.shape.write d).depth ≤ maxDepth :=
  leveled.depth_le_of_readAll (by decide) (parse_eq_ok_iff.mp h)

theorem parse_text_of_depth_le {d : Dump} (h : (Dump.shape.write d).depth ≤ maxDepth)
    (path : RawText) : parse path d.text = .ok d :=
  parse_eq_ok_iff.mpr (readAll_write (d.roundTrips.reads maxDepth h) .compact)

/-- The text of a dump is read back as the dump if it is nested no deeper than a reader allows, and
is refused if it is nested deeper. What was read from any text has a text that is read back. -/
theorem parse_roundTrip (path : RawText) (d : Dump) :
    ((Dump.shape.write d).depth ≤ maxDepth → parse path d.text = .ok d) ∧
    (maxDepth < (Dump.shape.write d).depth →
      ∃ message position, parse path d.text = .error (.parse path message position)) ∧
    ∀ origin content, parse origin content = .ok d → parse path d.text = .ok d := by
  refine ⟨fun h => parse_text_of_depth_le h path, fun hdeep => ?_, fun origin content h => ?_⟩
  · obtain ⟨r, hr⟩ := leveled.exists_error_of_lt (by decide) d.roundTrips hdeep .compact
    exact exists_parse_eq_error hr
  · exact parse_text_of_depth_le (depth_le_of_parse h) path

def nestedSum (n : Nat) : Dump where
  compilation := "\"\u0007\\"
  calls :=
    [⟨⟨"Log", "T", [⟨"message", .string⟩, ⟨"args", .other "Object[]"⟩]⟩,
      [⟨some 18446744073709551615,
        some (Nat.repeat (fun e => .concat [e] ⟨"a.cs", 4294967295, 0, 1⟩) n
          (.constant (.string "\n\u001f") ⟨"a.cs", 1, 2, 3⟩))⟩,
        ⟨none, none⟩],
      none⟩]

def unordered : String :=
  "\x7b \"call_sites\" : [[[\"Log\",\"T\",[]],[],null]], \"more\": [1.5e3],\n " ++
  "\"compilation\":\"\\u00e9\" \x7d"

theorem parse_roundTrip_nestedSum :
    (Dump.shape.write (nestedSum 60)).depth ≤ maxDepth ∧
    parse "a" (nestedSum 60).text = .ok (nestedSum 60) ∧
    maxDepth < (Dump.shape.write (nestedSum 61)).depth ∧
    (∃ message position, parse "a" (nestedSum 61).text = .error (.parse "a" message position)) ∧
    parse "b" unordered = .ok ⟨"é", [⟨⟨"Log", "T", []⟩, [], none⟩]⟩ ∧
    parse "a" (Dump.text ⟨"é", [⟨⟨"Log", "T", []⟩, [], none⟩]⟩) =
      .ok ⟨"é", [⟨⟨"Log", "T", []⟩, [], none⟩]⟩ := by
  have hflat : (Dump.shape.write (nestedSum 60)).depth ≤ maxDepth := by decide +kernel
  have hdeep : maxDepth < (Dump.shape.write (nestedSum 61)).depth := by decide +kernel
  have hread : parse "b" unordered = .ok ⟨"é", [⟨⟨"Log", "T", []⟩, [], none⟩]⟩ :=
    eq_ok_of_toOption (by decide +kernel)
  exact ⟨hflat, (parse_roundTrip "a" _).1 hflat, hdeep, (parse_roundTrip "a" _).2.1 hdeep, hread,
    (parse_roundTrip "a" _).2.2 "b" unordered hread⟩

end Dump

end LogTemplate
