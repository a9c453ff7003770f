import LogTemplate.Proofs.Text.Encoding
import LogTemplate.Template.Balance

/-! One step of the validity scan at a time, and the scan over characters, which comes to the same
as the scan over bytes. -/

namespace LogTemplate.Template

section Steps
variable {α : Type} [DecidableEq α] {o c : α}

@[simp] theorem balanced_nil (isOpen : Bool) : balanced o c isOpen [] = !isOpen := by
  rw [balanced]

theorem balanced_plain {x : α} (ho : x ≠ o) (hc : x ≠ c) (isOpen : Bool) (rest : List α) :
    balanced o c isOpen (x :: rest) = balanced o c isOpen rest := by
  cases rest with
  | nil => rw [balanced_nil, balanced, if_neg ho, if_neg hc]
  | cons y rest => rw [balanced, if_neg ho, if_neg hc]

theorem balanced_doubled_opening (isOpen : Bool) (rest : List α) :
    balanced o c isOpen (o :: o :: rest) = balanced o c isOpen rest := by
  rw [balanced, if_pos rfl, if_pos rfl]

theorem balanced_opening {rest : List α} (h : rest.head? ≠ some o) (isOpen : Bool) :
    balanced o c isOpen (o :: rest) = (!isOpen && balanced o c true rest) := by
  cases rest with
  | nil => rw [balanced_nil, balanced, if_pos rfl, Bool.not_true, Bool.and_false]
  | cons y rest =>
    have hy : y ≠ o := fun hy => h (congrArg some hy)
    rw [balanced, if_pos rfl, if_neg hy]
    cases isOpen <;> rfl

theorem balanced_closing_of_open (hne : c ≠ o) (rest : List α) :
    balanced o c true (c :: rest) = balanced o c false rest := by
  cases rest with
  | nil => rw [balanced_nil, balanced, if_neg hne, if_pos rfl, Bool.not_false]
  | cons y rest => rw [balanced, if_neg hne, if_pos rfl, if_pos rfl]

theorem balanced_doubled_closing (hne : c ≠ o) (rest : List α) :
    balanced o c false (c :: c :: rest) = balanced o c false rest := by
  rw [balanced, if_neg hne, if_pos rfl, if_neg Bool.false_ne_true, if_pos rfl]

theorem balanced_closing (hne : c ≠ o) {rest : List α} (h : rest.head? ≠ some c) :
    balanced o c false (c :: rest) = false := by
  cases rest with
  | nil => rw [balanced, if_neg hne, if_pos rfl]
  | cons y rest =>
    have hy : y ≠ c := fun hy => h (congrArg some hy)
    rw [balanced, if_neg hne, if_pos rfl, if_neg Bool.false_ne_true, if_neg hy]

theorem balanced_append_plain {xs : List α} (ho : o ∉ xs) (hc : c ∉ xs) (isOpen : Bool)
    (rest : List α) : balanced o c isOpen (xs ++ rest) = balanced o c isOpen rest := by
  induction xs with
  | nil => rfl
  | cons x xs ih =>
    rw [List.mem_cons, not_or] at ho hc
    rw [List.cons_append, balanced_plain (Ne.symm ho.1) (Ne.symm hc.1), ih ho.2 hc.2]

end Steps

theorem encode_opening (cs : List Char) :
    Text.encode ('{' :: cs) = openingByte :: Text.encode cs :=
  Text.encode_cons_of_lt (by decide) cs

theorem encode_closing (cs : List Char) :
    Text.encode ('}' :: cs) = closingByte :: Text.encode cs :=
  Text.encode_cons_of_lt (by decide) cs

theorem ne_of_mem_utf8EncodeChar {x c : Char} (hx : x.toNat < 128) (h : c ≠ x)
    {b : UInt8} (hmem : b ∈ String.utf8EncodeChar c) : b ≠ UInt8.ofNat x.toNat := by
  rintro rfl
  by_cases hc : c.toNat < 128
  · rw [Text.utf8EncodeChar_of_lt hc, List.mem_singleton] at hmem
    have hn := congrArg UInt8.toNat hmem
    simp only [UInt8.toNat_ofNat'] at hn
    exact h (Char.toNat_inj.1 (by omega))
  · have hle := Text.le_of_mem_utf8EncodeChar hc hmem
    simp only [UInt8.toNat_ofNat'] at hle
    omega

theorem not_mem_encode {x : Char} (hx : x.toNat < 128) {cs : List Char} (h : x ∉ cs) :
    UInt8.ofNat x.toNat ∉ Text.encode cs := by
  intro hmem
  obtain ⟨c, hc, hbyte⟩ := List.mem_flatMap.1 hmem
  exact ne_of_mem_utf8EncodeChar hx (fun heq => h (heq ▸ hc)) hbyte rfl

theorem openingByte_not_mem_encode {cs : List Char} (h : '{' ∉ cs) :
    openingByte ∉ Text.encode cs :=
  not_mem_encode (x := '{') (by decide) h

theorem closingByte_not_mem_encode {cs : List Char} (h : '}' ∉ cs) :
    closingByte ∉ Text.encode cs :=
  not_mem_encode (x := '}') (by decide) h

theorem head?_eq_of_head?_encode {x : Char} (hx : x.toNat < 128) {cs : List Char}
    (h : (Text.encode cs).head? = some (UInt8.ofNat x.toNat)) : cs.head? = some x := by
  cases cs with
  | nil => simp at h
  | cons c cs =>
    obtain ⟨b, bs, hbs⟩ := List.exists_cons_of_ne_nil (String.utf8EncodeChar_ne_nil (c := c))
    rw [Text.encode_cons, hbs, List.cons_append, List.head?_cons, Option.some_inj] at h
    by_cases heq : c = x
    · rw [heq, List.head?_cons]
    · exact absurd h (ne_of_mem_utf8EncodeChar hx heq (by simp [hbs]))

theorem balanced_encode (isOpen : Bool) (cs : List Char) :
    balanced openingByte closingByte isOpen (Text.encode cs) = balanced '{' '}' isOpen cs := by
  induction hn : cs.length using Nat.strongRecOn generalizing isOpen cs with
  | _ n ih =>
    have byteNe : closingByte ≠ openingByte := by decide
    have charNe : '}' ≠ '{' := by decide
    cases cs with
    | nil => rfl
    | cons c rest =>
      have ihRest (b : Bool) := ih rest.length (by rw [← hn]; simp) b rest rfl
      by_cases ho : c = '{'
      · subst ho
        rw [encode_opening]
        by_cases hd : rest.head? = some '{'
        · obtain ⟨rest, rfl⟩ := List.head?_eq_some_iff.1 hd
          rw [encode_opening, balanced_doubled_opening, balanced_doubled_opening]
          exact ih rest.length (by rw [← hn]; simp only [List.length_cons]; omega) isOpen rest rfl
        · have hbyte : (Text.encode rest).head? ≠ some openingByte :=
            mt (head?_eq_of_head?_encode (x := '{') (by decide)) hd
          rw [balanced_opening hd, balanced_opening hbyte, ihRest]
      · by_cases hc : c = '}'
        · subst hc
          rw [encode_closing]
          cases isOpen with
          | true => rw [balanced_closing_of_open byteNe, balanced_closing_of_open charNe, ihRest]
          | false =>
            by_cases hd : rest.head? = some '}'
            · obtain ⟨rest, rfl⟩ := List.head?_eq_some_iff.1 hd
              rw [encode_closing, balanced_doubled_closing byteNe, balanced_doubled_closing charNe]
              exact ih rest.length (by rw [← hn]; simp only [List.length_cons]; omega) false rest rfl
            · have hbyte : (Text.encode rest).head? ≠ some closingByte :=
                mt (head?_eq_of_head?_encode (x := '}') (by decide)) hd
              rw [balanced_closing charNe hd, balanced_closing byteNe hbyte]
        · have hopening : openingByte ∉ Text.encode [c] :=
            openingByte_not_mem_encode (by simpa using Ne.symm ho)
          have hclosing : closingByte ∉ Text.encode [c] :=
            closingByte_not_mem_encode (by simpa using Ne.symm hc)
          rw [balanced_plain ho hc, ← List.singleton_append, Text.encode_append,
            balanced_append_plain hopening hclosing, ihRest]

theorem isValid_eq_balanced (s : String) : isValid s = balanced '{' '}' false s.toList := by
  rw [isValid, Text.bytes_eq_encode, balanced_encode]

end LogTemplate.Template
