import LogTemplate.Dump.Expr
import LogTemplate.Proofs.Json.Levels
import LogTemplate.Proofs.Json.Records
import LogTemplate.Proofs.Json.Truncation

/-! Places in a dump and in a cache are read back as they were written, also as part of a value that
is read whole before it is looked at. -/

namespace LogTemplate.Location

open Json Json.Shape

theorem isSealed (l : Location) : Location.shape.Sealed l :=
  sealed_record (by decide)
    (.cons (Member.sealed_ofShape (sealed_text l.file) _ _ _) <|
      .cons (Member.sealed_ofShape (sealed_uint32 l.line) _ _ _) <|
      .cons (Member.sealed_ofShape (sealed_uint32 l.column) _ _ _) <|
      .cons (Member.sealed_ofShape (sealed_uint32 l.length) _ _ _) .nil)
    rfl

theorem roundTrips (l : Location) : Location.shape.RoundTrips l := l.isSealed.toRoundTrips

theorem roundTrips_any (l : Location) : any.RoundTrips (Location.shape.write l) := by
  refine roundTrips_any_object fun f hf => ?_
  obtain ⟨g, hg, rfl⟩ := List.mem_map.mp hf
  simp only [fields, List.mem_cons, List.not_mem_nil, or_false] at hg
  rcases hg with rfl | rfl | rfl | rfl
  · exact roundTrips_any_string l.file
  · exact roundTrips_any_nat (Nat.lt_trans l.line.toNat_lt (by decide))
  · exact roundTrips_any_nat (Nat.lt_trans l.column.toNat_lt (by decide))
  · exact roundTrips_any_nat (Nat.lt_trans l.length.toNat_lt (by decide))

theorem depth_write (l : Location) : (Location.shape.write l).depth = 1 := rfl

theorem leveled : Location.shape.Leveled 1 := by
  refine leveled_record (k := 0) (List.forall_mem_cons.mpr ⟨?_, List.forall_mem_cons.mpr ⟨?_,
    List.forall_mem_cons.mpr ⟨?_, List.forall_mem_cons.mpr ⟨?_, List.forall_mem_nil _⟩⟩⟩⟩)
    "struct Location" ?_
  · exact Member.leveled_ofShape (leveled_text 0) (by simp [Member.ofShape]) _ _ _
  · exact Member.leveled_ofShape (leveled_uint32 0) (by simp [Member.ofShape]) _ _ _
  · exact Member.leveled_ofShape (leveled_uint32 0) (by simp [Member.ofShape]) _ _ _
  · exact Member.leveled_ofShape (leveled_uint32 0) (by simp [Member.ofShape]) _ _ _
  · intro g hg
    simp only [List.mem_cons, List.not_mem_nil, or_false] at hg
    rcases hg with rfl | rfl | rfl | rfl <;> exact Nat.le_refl 0

theorem decodes (l : Location) : Location.shape.Decodes l := by
  have hfields : decodeNamed (fields.map Member.toSlot)
      [("file", text.write l.file), ("line", uint32.write l.line),
        ("column", uint32.write l.column), ("length", uint32.write l.length)] []
      ⟨"", 0, 0, 0⟩ = .ok l := by
    rw [decodeNamed_cons rfl (by simp) (Slot.decode_ofDecode (decodes_text l.file) _ _ _),
      decodeNamed_cons rfl (by simp) (Slot.decode_ofDecode (decodes_uint32 l.line) _ _ _),
      decodeNamed_cons rfl (by simp) (Slot.decode_ofDecode (decodes_uint32 l.column) _ _ _),
      decodeNamed_cons rfl (by simp) (Slot.decode_ofDecode (decodes_uint32 l.length) _ _ _)]
    exact decodeNamed_nil rfl _
  exact hfields

end LogTemplate.Location
