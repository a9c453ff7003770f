import Mathlib.Logic.Function.Basic
import LogTemplate.Proofs.Text.Encoding
import LogTemplate.Text.Raw

/-! Texts among the raw ones. A text is shown as itself, so two of them are never shown alike; only
bytes that are no text can be taken for something else. -/

namespace LogTemplate

namespace Text

theorem firstChar?_append (c : Char) (rest : List UInt8) :
    firstChar? (String.utf8EncodeChar c ++ rest) = some c := by
  have hsize : (String.utf8EncodeChar c).length ≤ 4 := by
    rw [String.length_utf8EncodeChar]
    exact c.utf8Size_le_four
  unfold firstChar?
  rw [List.take_append, List.take_of_length_le hsize, List.toByteArray_append]
  exact ByteArray.utf8DecodeChar?_utf8EncodeChar_append

theorem charsAfter_length_append (skipped rest : List UInt8) :
    charsAfter skipped.length (skipped ++ rest) = charsAfter 0 rest := by
  induction skipped with
  | nil => rfl
  | cons b skipped ih => exact ih

theorem charsAfter_encode (cs : List Char) : charsAfter 0 (encode cs) = cs := by
  induction cs with
  | nil => rfl
  | cons c cs ih =>
    have hfirst := firstChar?_append c (encode cs)
    obtain ⟨b, rest, hbytes⟩ : ∃ b rest, String.utf8EncodeChar c = b :: rest :=
      List.exists_cons_of_ne_nil String.utf8EncodeChar_ne_nil
    have hlength : rest.length = c.utf8Size - 1 := by
      rw [← String.length_utf8EncodeChar, hbytes, List.length_cons, Nat.add_sub_cancel]
    rw [encode_cons, hbytes, List.cons_append]
    rw [hbytes, List.cons_append] at hfirst
    rw [charsAfter, hfirst]
    dsimp only
    rw [← hlength, charsAfter_length_append, ih]

theorem encode_injective : Function.Injective encode :=
  Function.LeftInverse.injective charsAfter_encode

theorem exists_eq_append_of_encode {as bs : List Char} {rest : List UInt8}
    (h : encode as ++ rest = encode bs) : ∃ cs, bs = as ++ cs := by
  induction as generalizing bs with
  | nil => exact ⟨bs, rfl⟩
  | cons a as ih =>
    rw [encode_cons, List.append_assoc] at h
    have hfirst := firstChar?_append a (encode as ++ rest)
    cases bs with
    | nil =>
      rw [h] at hfirst
      cases hfirst
    | cons b bs =>
      rw [h, encode_cons, firstChar?_append] at hfirst
      obtain rfl := Option.some.inj hfirst
      rw [encode_cons] at h
      obtain ⟨cs, rfl⟩ := ih (List.append_cancel_left h)
      exact ⟨cs, rfl⟩

theorem ofBytes?_eq_some_iff {bs : List UInt8} {s : String} : ofBytes? bs = some s ↔ bs = bytes s := by
  refine ⟨fun h => ?_, fun h => h ▸ ofBytes?_bytes s⟩
  unfold ofBytes? String.fromUTF8? at h
  split at h
  · cases h
    rfl
  · cases h

end Text

namespace RawText

theorem display_ofText (s : String) : (ofText s).display = s := by
  unfold display ofText
  rw [Text.bytes_eq_encode, Text.charsAfter_encode, String.ofList_toList]

theorem toText?_ofText (s : String) : (ofText s).toText? = some s := Text.ofBytes?_bytes s

theorem toText?_eq_some_iff {r : RawText} {s : String} : r.toText? = some s ↔ r = ofText s :=
  Text.ofBytes?_eq_some_iff.trans (bytes_inj (s := ofText s))

theorem ofText_append (a b : String) : ofText (a ++ b) = ofText a ++ ofText b := by
  rw [← bytes_inj, bytes_append]
  unfold ofText
  rw [Text.bytes_eq_encode, Text.bytes_eq_encode, Text.bytes_eq_encode, String.toList_append,
    Text.encode_append]

/-- A small character is not in the midst of another, so bytes that end in a text which begins with one
are cut there as characters are. -/
theorem exists_eq_append_of_ofText {text : String} {before : RawText} (rest : String) {c : Char}
    {cs : List Char} (hrest : rest.toList = c :: cs) (hc : c.toNat < 128)
    (h : ofText text = before ++ ofText rest) :
    ∃ left : String, text = left ++ rest := by
  have hbytes : Text.encode text.toList
      = before.bytes ++ UInt8.ofNat c.toNat :: Text.encode cs := by
    rw [← Text.encode_cons_of_lt hc, ← hrest, ← Text.bytes_eq_encode, ← Text.bytes_eq_encode]
    exact bytes_inj.mpr h
  have hbyte : (UInt8.ofNat c.toNat).toNat = c.toNat := by
    rw [UInt8.toNat_ofNat']
    omega
  obtain ⟨left, d, right, htext, hd, -, hright⟩ :=
    Text.exists_of_encode_eq_append_cons (by rwa [hbyte]) hbytes
  obtain rfl := Char.toNat_inj.mp (hd.trans hbyte)
  obtain rfl := Text.encode_injective hright
  refine ⟨String.ofList left, String.toList_inj.mp ?_⟩
  rw [String.toList_append, String.toList_ofList, hrest, htext]

end RawText

end LogTemplate
