/-! Natural numbers in decimal digits. -/

namespace LogTemplate.Decimal

def digits (n : Nat) : List Char :=
  if n < 10 then [Nat.digitChar n] else digits (n / 10) ++ [Nat.digitChar (n % 10)]

def value (ds : List Char) : Nat := ds.foldl (fun n d => n * 10 + (d.toNat - '0'.toNat)) 0

theorem toNat_digitChar {n : Nat} (h : n < 10) : (Nat.digitChar n).toNat - '0'.toNat = n := by
  match n, h with
  | 0, _ | 1, _ | 2, _ | 3, _ | 4, _ | 5, _ | 6, _ | 7, _ | 8, _ | 9, _ => rfl

theorem value_digits (n : Nat) : value (digits n) = n := by
  induction n using Nat.strongRecOn with
  | _ n ih =>
    rw [digits]
    split
    · next h => simpa [value] using toNat_digitChar h
    · next h =>
      have hv := ih (n / 10) (by omega)
      have hd := toNat_digitChar (n := n % 10) (by omega)
      simp only [value, List.foldl_append, List.foldl_cons, List.foldl_nil] at hv ⊢
      rw [hv, hd]
      omega

def integerDigits : Int → List Char
  | .ofNat n => digits n
  | .negSucc n => '-' :: digits (n + 1)

end LogTemplate.Decimal
