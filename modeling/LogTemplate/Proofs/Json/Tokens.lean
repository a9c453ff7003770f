import LogTemplate.Proofs.Json.Acceptance
import Mathlib.Tactic.SplitIfs

/-! Strings and natural numbers are read as they were written. -/

namespace LogTemplate

theorem Decimal.isDigit_of_mem_digits {n : Nat} {c : Char} (hc : c ∈ digits n) :
    c.isDigit = true := by
  have hdigit : ∀ d, d < 10 → (Nat.digitChar d).isDigit = true := by decide
  induction n using Nat.strongRecOn with
  | _ n ih =>
    rw [digits] at hc
    split at hc
    · next hn =>
      rw [List.mem_singleton.mp hc]
      exact hdigit n hn
    · next hn =>
      rcases List.mem_append.mp hc with hc | hc
      · exact ih (n / 10) (by omega) hc
      · rw [List.mem_singleton.mp hc]
        exact hdigit (n % 10) (by omega)

theorem Decimal.exists_digits_eq_cons (n : Nat) :
    ∃ c tail, digits n = c :: tail ∧ (c = '0' → tail = []) := by
  have hzero : ∀ d, d < 10 → Nat.digitChar d = '0' → d = 0 := by decide
  induction n using Nat.strongRecOn with
  | _ n ih =>
    rw [digits]
    split
    · exact ⟨_, [], rfl, fun _ => rfl⟩
    · next hn =>
      obtain ⟨c, tail, heq, hc⟩ := ih (n / 10) (by omega)
      refine ⟨c, tail ++ [Nat.digitChar (n % 10)], by rw [heq]; rfl, ?_⟩
      intro h
      rw [hc h, h] at heq
      have hvalue := value_digits (n / 10)
      rw [heq] at hvalue
      have : n / 10 = 0 := hvalue.symm
      omega

namespace Json

/-! ### Strings -/

theorem scanString_quote (strict : Bool) (done rest : List Char) (p : Position) :
    scanString strict done ('"' :: rest) p = .ok (done.reverse, rest, p.after '"') := by
  rw [scanString]

theorem scanString_backslash {strict : Bool} {done text rest cs : List Char} {p q : Position}
    (h : scanEscape strict text (p.after '\\') = .ok (cs, rest, q)) :
    scanString strict done ('\\' :: text) p = scanString strict (cs ++ done) rest q := by
  rw [scanString]
  split
  · next hx => 
    rw [h] at hx
    cases hx
    rfl
  · next hx => rw [h] at hx; cases hx

theorem scanString_plain {done rest : List Char} {c : Char} (hquote : c ≠ '"')
    (hbackslash : c ≠ '\\') (hc : ¬ c.toNat < 32) (strict : Bool) (p : Position) :
    scanString strict done (c :: rest) p = scanString strict (c :: done) rest (p.after c) := by
  rw [scanString]
  · rw [if_neg hc]
  · exact fun h => hquote h
  · exact fun h => hbackslash h

theorem hexValue_hexDigit : ∀ n, n < 16 → hexValue (hexDigit n) = some n := by decide

theorem scanHex_control {n : Nat} (hn : n < 32) (rest : List Char) (p : Position) :
    scanHex ('0' :: '0' :: hexDigit (n / 16) :: hexDigit (n % 16) :: rest) p
      = .ok (n, rest, ⟨p.line, p.column + 4⟩) := by
  have hsize : ¬ byteCount (('0' :: '0' :: hexDigit (n / 16) :: hexDigit (n % 16) :: rest).take 4) < 4 := by
    have h1 := (hexDigit (n / 16)).utf8Size_pos
    have h2 := (hexDigit (n % 16)).utf8Size_pos
    have h3 := ('0').utf8Size_pos
    simp only [byteCount, List.take_succ_cons, List.take_zero, total_cons, total_nil]
    omega
  have h0 : hexValue '0' = some 0 := rfl
  have hhigh := hexValue_hexDigit (n / 16) (by omega)
  have hlow := hexValue_hexDigit (n % 16) (by omega)
  have hvalue : ((0 * 16 + 0) * 16 + n / 16) * 16 + n % 16 = n := by omega
  rw [scanHex, if_neg hsize]
  dsimp only
  rw [h0, hhigh, hlow]
  dsimp only
  rw [hvalue]

theorem scanEscape_short {c x : Char} (hc : shortEscape c = some x) (strict : Bool)
    (rest : List Char) (p : Position) :
    scanEscape strict (c :: rest) p = .ok ([x], rest, p.after c) := by
  rw [scanEscape]
  · rw [hc]
  · rintro rfl
    cases hc

theorem scanEscape_control {n : Nat} (hn : n < 32) (rest : List Char) (p : Position) :
    scanEscape true ('u' :: '0' :: '0' :: hexDigit (n / 16) :: hexDigit (n % 16) :: rest) p
      = .ok ([Char.ofNat n], rest, ⟨p.line, p.column + 1 + 4⟩) := by
  have hlow : isLowSurrogate n = false := by
    simp only [isLowSurrogate, Bool.and_eq_false_iff, decide_eq_false_iff_not]
    left; omega
  have hhigh : isHighSurrogate n = false := by
    simp only [isHighSurrogate, Bool.and_eq_false_iff, decide_eq_false_iff_not]
    left; omega
  rw [scanEscape, scanCodePoint, scanHex_control hn]
  simp only [hlow, hhigh]
  rfl

theorem scanString_escapeChar (c : Char) (done rest : List Char) (p : Position) :
    ∃ q, scanString true done (escapeChar c ++ rest) p = scanString true (c :: done) rest q := by
  have short {mark : Char} (hmark : shortEscape mark = some c) :
      ∃ q, scanString true done (['\\', mark] ++ rest) p = scanString true (c :: done) rest q :=
    ⟨_, scanString_backslash (scanEscape_short hmark true rest (p.after '\\'))⟩
  unfold escapeChar
  split_ifs with hquote hbackslash hnewline hreturn htab hback hfeed hcontrol
  · subst hquote; exact short rfl
  · subst hbackslash; exact short rfl
  · subst hnewline; exact short rfl
  · subst hreturn; exact short rfl
  · subst htab; exact short rfl
  · have hc : c = '\x08' := by rw [← Char.ofNat_toNat c, hback]
    subst hc; exact short rfl
  · have hc : c = '\x0c' := by rw [← Char.ofNat_toNat c, hfeed]
    subst hc; exact short rfl
  · have h := scanEscape_control hcontrol rest (p.after '\\')
    rw [Char.ofNat_toNat] at h
    exact ⟨_, scanString_backslash h⟩
  · exact ⟨_, scanString_plain hquote hbackslash hcontrol true p⟩

theorem scanString_flatMap_escapeChar (text done rest : List Char) (p : Position) :
    ∃ q, scanString true done (text.flatMap escapeChar ++ '"' :: rest) p
      = .ok (done.reverse ++ text, rest, q) := by
  induction text generalizing done p with
  | nil =>
    refine ⟨p.after '"', ?_⟩
    rw [List.flatMap_nil, List.nil_append, scanString_quote, List.append_nil]
  | cons c text ih =>
    obtain ⟨q, hq⟩ := scanString_escapeChar c done (text.flatMap escapeChar ++ '"' :: rest) p
    obtain ⟨q', hq'⟩ := ih (c :: done) q
    refine ⟨q', ?_⟩
    rw [List.flatMap_cons, List.append_assoc, hq, hq', List.reverse_cons, List.append_assoc]
    rfl

theorem Reader.accepts_string (s : String) (rest : List Char) :
    Reader.string.Accepts (quote s) rest s := by
  have hscan : (Reader.scan (scanString true [])).Accepts (s.toList.flatMap escapeChar ++ ['"']) rest
      s.toList := by
    intro p size _
    obtain ⟨q, hq⟩ := scanString_flatMap_escapeChar s.toList [] rest p
    refine ⟨q, ?_⟩
    rw [List.append_assoc, List.singleton_append]
    simp only [Reader.scan, hq, List.reverse_nil, List.nil_append]
  have hread := hscan.bind_pure (f := String.ofList)
  rw [String.ofList_toList] at hread
  have hquote : quote s = ['"'] ++ (s.toList.flatMap escapeChar ++ ['"']) := rfl
  rw [hquote]
  exact (accepts_advance '"' _).bind hread

/-! ### Numbers -/

/-- What may follow a number without being read as part of it. -/
def Delimited (rest : List Char) : Prop :=
  ∀ c, rest.head? = some c → c.isDigit = false ∧ c ≠ '.' ∧ c ≠ 'e' ∧ c ≠ 'E'

namespace Reader

theorem accepts_digits {ds rest : List Char} (hds : ∀ c ∈ ds, c.isDigit = true)
    (hrest : Delimited rest) : digits.Accepts ds rest ds := by
  have hstop : rest.takeWhile Char.isDigit = [] ∧ rest.dropWhile Char.isDigit = rest := by
    cases rest with
    | nil => exact ⟨rfl, rfl⟩
    | cons c rest =>
      have hc := (hrest c rfl).1
      exact ⟨List.takeWhile_cons_of_neg (by simp [hc]), List.dropWhile_cons_of_neg (by simp [hc])⟩
  intro p size _
  refine ⟨p.afterAll ds, ?_⟩
  simp only [digits, List.takeWhile_append_of_pos hds, List.dropWhile_append_of_pos hds, hstop,
    List.append_nil]

theorem accepts_wholeDigits (n : Nat) {rest : List Char} (hrest : Delimited rest) :
    (wholeDigits true).Accepts (Decimal.digits n) rest (Decimal.digits n) := by
  obtain ⟨c, tail, heq, hzero⟩ := Decimal.exists_digits_eq_cons n
  have hds : ∀ d ∈ Decimal.digits n, d.isDigit = true := fun d => Decimal.isDigit_of_mem_digits
  have hdigits := accepts_digits hds hrest
  rw [heq] at hds hdigits ⊢
  have hpeek : peek.Accepts [] (c :: tail ++ rest) (some c) := accepts_peek (c :: tail ++ rest)
  refine hpeek.bind_nil ?_
  by_cases hc : c = '0'
  · obtain rfl := hzero hc
    subst hc
    refine (accepts_advance '0' rest).bind (t := []) ?_
    refine (accepts_peek rest).bind_nil ?_
    cases rest with
    | nil => exact accepts_pure [] ['0']
    | cons d rest =>
      have hd := (hrest d rfl).1
      simp only [List.head?_cons, hd]
      exact accepts_pure (d :: rest) ['0']
  · split
    · next h => cases h
    · next h => exact absurd (Option.some.inj h) hc
    · next d _ h =>
      obtain rfl := Option.some.inj h
      rw [if_pos (hds c (List.mem_cons_self ..))]
      exact hdigits

theorem accepts_numeral (n : Nat) {rest : List Char} (hrest : Delimited rest) :
    (numeral true).Accepts (Decimal.digits n) rest ⟨false, Decimal.digits n, none, none⟩ := by
  have hfraction : (fractionDigits true).Accepts [] rest none := by
    refine (accepts_peek rest).bind_nil ?_
    rw [if_neg fun h => (hrest '.' h).2.1 rfl]
    exact accepts_pure rest none
  have hexponent : (exponentDigits true).Accepts [] rest none := by
    refine (accepts_peek rest).bind_nil ?_
    split
    · next h => exact absurd rfl (hrest 'e' h).2.2.1
    · next h => exact absurd rfl (hrest 'E' h).2.2.2
    · exact accepts_pure rest none
  have hsign : (Decimal.digits n ++ rest).head? ≠ some '-' := by
    obtain ⟨c, tail, heq, -⟩ := Decimal.exists_digits_eq_cons n
    rw [heq]
    rintro h
    have hc := Decimal.isDigit_of_mem_digits (heq ▸ List.mem_cons_self ..)
    rw [Option.some.inj h] at hc
    cases hc
  refine (accepts_peek _).bind_nil ?_
  simp only [hsign, decide_false]
  refine (accepts_wholeDigits n hrest).bind_last ?_
  refine hfraction.bind_nil ?_
  exact hexponent.bind_pure (f := Numeral.mk false (Decimal.digits n) none)

theorem accepts_number {n : Nat} (hn : n < UInt64.size) {rest : List Char} (hrest : Delimited rest) :
    number.Accepts (Decimal.digits n) rest (.integer n) := by
  have hvalue : Numeral.value? ⟨false, Decimal.digits n, none, none⟩ = some (.integer n) := by
    unfold Numeral.value?
    rw [Decimal.value_digits]
    simp [Numeral.isWhole, hn]
  refine (accepts_numeral n hrest).bind_last ?_
  rw [hvalue]
  exact accepts_pure rest (Json.integer n)

end Reader
end Json

end LogTemplate
