import Mathlib.Data.String.Basic
import Mathlib.Order.Monotone.Basic
import LogTemplate.Proofs.Text.Encoding

/-! Texts are in the order of their bytes. Of two characters the one with the greater number has the
greater bytes: more of them and with a greater first one, or as many and greater where they first
differ. -/

namespace LogTemplate.Text

def byteNumbers (v : Nat) : List Nat :=
  if v ≤ 0x7f then [v]
  else if v ≤ 0x7ff then [v / 64 + 192, v % 64 + 128]
  else if v ≤ 0xffff then [v / 4096 + 224, v / 64 % 64 + 128, v % 64 + 128]
  else [v / 262144 + 240, v / 4096 % 64 + 128, v / 64 % 64 + 128, v % 64 + 128]

theorem toNat_lt (c : Char) : c.toNat < 1114112 := by
  rcases c.valid with h | ⟨-, h⟩
  · exact Nat.lt_trans h (by decide)
  · exact h

theorem map_toNat_utf8EncodeChar (c : Char) :
    (String.utf8EncodeChar c).map UInt8.toNat = byteNumbers c.toNat := by
  have hmax := toNat_lt c
  have hvalue : c.val.toNat = c.toNat := rfl
  unfold String.utf8EncodeChar byteNumbers
  dsimp only
  rw [hvalue]
  split_ifs <;> simp only [List.map_cons, List.map_nil, UInt8.toNat_ofNat', List.cons.injEq, and_true]
    <;> omega

section

variable {v w : Nat} {xs ys : List Nat}

theorem cons_lt_cons {a b : Nat} (hle : a ≤ b) (hrest : a = b → xs < ys) : a :: xs < b :: ys := by
  rw [List.cons_lt_cons_iff]
  rcases Nat.lt_or_eq_of_le hle with h | h
  · exact .inl h
  · exact .inr ⟨h, hrest h⟩

theorem byteNumbers_append_lt (h : v < w) (hw : w < 1114112) :
    byteNumbers v ++ xs < byteNumbers w ++ ys := by
  unfold byteNumbers
  split_ifs <;> simp only [List.cons_append, List.nil_append]
  -- characters of different ranges differ in the first byte
  all_goals try exact cons_lt_cons (by omega) (by omega)
  · exact cons_lt_cons (by omega) fun _ => cons_lt_cons (by omega) (by omega)
  · exact cons_lt_cons (by omega) fun _ => cons_lt_cons (by omega) fun _ =>
      cons_lt_cons (by omega) (by omega)
  · exact cons_lt_cons (by omega) fun _ => cons_lt_cons (by omega) fun _ =>
      cons_lt_cons (by omega) fun _ => cons_lt_cons (by omega) (by omega)

end

def numbers (s : String) : List Nat := (bytes s).map UInt8.toNat

theorem map_toNat_encode_cons (c : Char) (cs : List Char) :
    (encode (c :: cs)).map UInt8.toNat = byteNumbers c.toNat ++ (encode cs).map UInt8.toNat := by
  rw [encode_cons, List.map_append, map_toNat_utf8EncodeChar]

theorem byteNumbers_ne_nil (v : Nat) : byteNumbers v ≠ [] := by
  unfold byteNumbers
  split_ifs <;> exact List.cons_ne_nil _ _

theorem map_toNat_encode_lt {as bs : List Char} (h : as < bs) :
    (encode as).map UInt8.toNat < (encode bs).map UInt8.toNat := by
  induction h with
  | @nil b bs =>
    rw [map_toNat_encode_cons]
    obtain ⟨x, xs, hx⟩ := List.exists_cons_of_ne_nil (byteNumbers_ne_nil b.toNat)
    rw [hx, List.cons_append]
    exact List.nil_lt_cons x _
  | rel h =>
    rw [map_toNat_encode_cons, map_toNat_encode_cons]
    exact byteNumbers_append_lt h (toNat_lt _)
  | cons _ ih =>
    rw [map_toNat_encode_cons, map_toNat_encode_cons]
    exact List.append_left_lt ih

theorem numbers_strictMono : StrictMono numbers := by
  intro a b h
  unfold numbers
  rw [bytes_eq_encode, bytes_eq_encode]
  exact map_toNat_encode_lt (String.lt_iff.mp h)

theorem numbers_lt_iff {a b : String} : numbers a < numbers b ↔ a < b := numbers_strictMono.lt_iff_lt

theorem numbers_inj {a b : String} : numbers a = numbers b ↔ a = b := numbers_strictMono.injective.eq_iff

end LogTemplate.Text
