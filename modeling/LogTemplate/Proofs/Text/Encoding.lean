import LogTemplate.Text.Utf8

/-! How the bytes of a text follow its characters. A character below 128 is one byte with the same
number, and every byte of another character is at least 128, so a small byte marks a place between
two characters. -/

namespace LogTemplate.Text

def encode (cs : List Char) : List UInt8 := cs.flatMap String.utf8EncodeChar

@[simp] theorem encode_nil : encode [] = [] := rfl

theorem encode_cons (c : Char) (cs : List Char) :
    encode (c :: cs) = String.utf8EncodeChar c ++ encode cs := rfl

@[simp] theorem encode_append (as bs : List Char) : encode (as ++ bs) = encode as ++ encode bs :=
  List.flatMap_append

theorem bytes_ofList (cs : List Char) : bytes (String.ofList cs) = encode cs := by
  rw [bytes, String.toUTF8, String.toByteArray_ofList, List.utf8Encode]
  exact List.toList_data_toByteArray

theorem bytes_eq_encode (s : String) : bytes s = encode s.toList := by
  rw [← bytes_ofList, String.ofList_toList]

theorem ofBytes?_encode (cs : List Char) : ofBytes? (encode cs) = some (String.ofList cs) := by
  rw [← bytes_ofList, ofBytes?_bytes]

theorem utf8EncodeChar_of_lt {c : Char} (h : c.toNat < 128) :
    String.utf8EncodeChar c = [UInt8.ofNat c.toNat] :=
  if_pos (Nat.le_of_lt_succ h)

theorem encode_cons_of_lt {c : Char} (h : c.toNat < 128) (cs : List Char) :
    encode (c :: cs) = UInt8.ofNat c.toNat :: encode cs := by
  rw [encode_cons, utf8EncodeChar_of_lt h, List.singleton_append]

theorem le_of_mem_utf8EncodeChar {c : Char} (h : ¬ c.toNat < 128) {b : UInt8}
    (hb : b ∈ String.utf8EncodeChar c) : 128 ≤ b.toNat := by
  have hc : ¬ c.val.toNat ≤ 0x7f := fun hle => h (Nat.lt_succ_of_le hle)
  unfold String.utf8EncodeChar at hb
  dsimp only at hb
  rw [if_neg hc] at hb
  split at hb
  · simp only [List.mem_cons, List.not_mem_nil, or_false] at hb
    rcases hb with rfl | rfl <;> simp only [UInt8.toNat_ofNat'] <;> omega
  · split at hb
    · simp only [List.mem_cons, List.not_mem_nil, or_false] at hb
      rcases hb with rfl | rfl | rfl <;> simp only [UInt8.toNat_ofNat'] <;> omega
    · simp only [List.mem_cons, List.not_mem_nil, or_false] at hb
      rcases hb with rfl | rfl | rfl | rfl <;> simp only [UInt8.toNat_ofNat'] <;> omega

/-- A byte below 128 is a whole character. -/
theorem exists_of_encode_eq_append_cons {cs : List Char} {before after : List UInt8} {b : UInt8}
    (hb : b.toNat < 128) (h : encode cs = before ++ b :: after) :
    ∃ left c right, cs = left ++ c :: right ∧ c.toNat = b.toNat ∧
      encode left = before ∧ encode right = after := by
  induction cs generalizing before with
  | nil => simp at h
  | cons c cs ih =>
    by_cases hc : c.toNat < 128
    · rw [encode_cons_of_lt hc] at h
      cases before with
      | nil =>
        obtain ⟨rfl, rfl⟩ := List.cons_eq_cons.1 h
        refine ⟨[], c, cs, rfl, ?_, rfl, rfl⟩
        simp only [UInt8.toNat_ofNat']
        omega
      | cons x before =>
        rw [List.cons_append] at h
        obtain ⟨rfl, htail⟩ := List.cons_eq_cons.1 h
        obtain ⟨left, d, right, rfl, hd, rfl, rfl⟩ := ih htail
        exact ⟨c :: left, d, right, rfl, hd, encode_cons_of_lt hc left, rfl⟩
    · rw [encode_cons, List.append_eq_append_iff] at h
      obtain ⟨middle, rfl, h⟩ | ⟨middle, hmiddle, h⟩ := h
      · obtain ⟨left, d, right, rfl, hd, rfl, rfl⟩ := ih h
        exact ⟨c :: left, d, right, rfl, hd, encode_cons c left, rfl⟩
      · cases middle with
        | nil =>
          have hnil : encode cs = [] ++ b :: after := h.symm
          obtain ⟨left, d, right, rfl, hd, hleft, rfl⟩ := ih hnil
          refine ⟨c :: left, d, right, rfl, hd, ?_, rfl⟩
          rw [encode_cons, hleft, hmiddle, List.append_nil, List.append_nil]
        | cons x middle =>
          -- the small byte would stand inside the encoding of a large character
          obtain ⟨rfl, -⟩ := List.cons_eq_cons.1 h
          have hx := le_of_mem_utf8EncodeChar hc (show b ∈ _ by simp [hmiddle])
          omega

theorem mem_encode_iff {c : Char} (h : c.toNat < 128) {cs : List Char} :
    UInt8.ofNat c.toNat ∈ encode cs ↔ c ∈ cs := by
  have hbyte : (UInt8.ofNat c.toNat).toNat = c.toNat := by
    rw [UInt8.toNat_ofNat']
    omega
  constructor
  · intro hmem
    obtain ⟨before, after, hcs⟩ := List.append_of_mem hmem
    obtain ⟨left, d, right, rfl, hd, -, -⟩ :=
      exists_of_encode_eq_append_cons (by rwa [hbyte]) hcs
    rw [Char.toNat_inj.mp (hd.trans hbyte)]
    exact List.mem_append_right left (List.mem_cons_self ..)
  · intro hmem
    refine List.mem_flatMap.mpr ⟨c, hmem, ?_⟩
    rw [utf8EncodeChar_of_lt h]
    exact List.mem_singleton_self _

theorem head?_encode_iff {c : Char} (h : c.toNat < 128) {cs : List Char} :
    (encode cs).head? = some (UInt8.ofNat c.toNat) ↔ cs.head? = some c := by
  have hbyte : (UInt8.ofNat c.toNat).toNat = c.toNat := by
    rw [UInt8.toNat_ofNat']
    omega
  constructor
  · intro hhead
    obtain ⟨after, hcs⟩ := List.head?_eq_some_iff.mp hhead
    have hnil : encode cs = [] ++ UInt8.ofNat c.toNat :: after := hcs
    obtain ⟨left, d, right, rfl, hd, hleft, -⟩ :=
      exists_of_encode_eq_append_cons (by rwa [hbyte]) hnil
    cases left with
    | nil => rw [List.nil_append, List.head?_cons, Char.toNat_inj.mp (hd.trans hbyte)]
    | cons e left => exact absurd (List.append_eq_nil_iff.mp hleft).1 String.utf8EncodeChar_ne_nil
  · intro hhead
    obtain ⟨rest, rfl⟩ := List.head?_eq_some_iff.mp hhead
    rw [encode_cons_of_lt h, List.head?_cons]

end LogTemplate.Text
