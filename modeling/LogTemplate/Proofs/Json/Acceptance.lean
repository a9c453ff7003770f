import LogTemplate.Json.Reader

/-! What a reader takes off a text. A reader accepts a beginning of a text with an answer, whatever
place it starts at, and leaves what follows; sequences of readers accept what their parts accept one
after the other. -/

namespace LogTemplate.Json

namespace Reader

variable {α β : Type}

/-- The reader takes `text` off what is left, answers `a`, and leaves `rest`. -/
def Accepts (r : Reader α) (text rest : List Char) (a : α) : Prop :=
  ∀ p size, (text ++ rest).length ≤ size →
    ∃ q, r ⟨text ++ rest, p, size⟩ = (.ok a, ⟨rest, q, size⟩)

def Blank (text : List Char) : Prop := ∀ c ∈ text, isBlank c = true

theorem accepts_pure (rest : List Char) (a : α) : (pure a : Reader α).Accepts [] rest a := by
  intro p size _
  exact ⟨p, rfl⟩

theorem Accepts.bind {r : Reader α} {f : α → Reader β} {s t rest : List Char} {a : α} {b : β}
    (hr : r.Accepts s (t ++ rest) a) (hf : (f a).Accepts t rest b) :
    (r >>= f).Accepts (s ++ t) rest b := by
  intro p size hsize
  rw [List.append_assoc] at hsize ⊢
  obtain ⟨q, hq⟩ := hr p size hsize
  rw [List.length_append] at hsize
  obtain ⟨q', hq'⟩ := hf q size (Nat.le_trans (Nat.le_add_left _ _) hsize)
  exact ⟨q', by rw [bind_of_ok hq, hq']⟩

theorem Accepts.bind_nil {r : Reader α} {f : α → Reader β} {text rest : List Char} {a : α} {b : β}
    (hr : r.Accepts [] (text ++ rest) a) (hf : (f a).Accepts text rest b) :
    (r >>= f).Accepts text rest b := hr.bind hf

theorem Accepts.bind_last {r : Reader α} {f : α → Reader β} {text rest : List Char} {a : α} {b : β}
    (hr : r.Accepts text rest a) (hf : (f a).Accepts [] rest b) :
    (r >>= f).Accepts text rest b := by
  have h := Accepts.bind (t := []) hr hf
  rwa [List.append_nil] at h

theorem Accepts.bind_pure {r : Reader α} {f : α → β} {text rest : List Char} {a : α}
    (hr : r.Accepts text rest a) : (r >>= fun a => pure (f a)).Accepts text rest (f a) :=
  hr.bind_last (accepts_pure rest (f a))

theorem Accepts.located {r : Reader α} {text rest : List Char} {a : α}
    (hr : r.Accepts text rest a) : r.located.Accepts text rest a := by
  intro p size hsize
  obtain ⟨q, hq⟩ := hr p size hsize
  exact ⟨q, by simp only [Reader.located, hq]⟩

theorem accepts_ofExcept {e : Except Fault α} {a : α} (he : e = .ok a) (rest : List Char) :
    (ofExcept e).Accepts [] rest a := by
  rw [he]
  exact accepts_pure rest a

theorem accepts_advance (c : Char) (rest : List Char) : advance.Accepts [c] rest () := by
  intro p size _
  exact ⟨p.after c, rfl⟩

theorem accepts_size_bind {f : Nat → Reader α} {text rest : List Char} {a : α}
    (hf : ∀ n, (text ++ rest).length ≤ n → (f n).Accepts text rest a) :
    (size >>= f).Accepts text rest a := by
  intro p n hn
  have hsize : size ⟨text ++ rest, p, n⟩ = (.ok n, ⟨text ++ rest, p, n⟩) := rfl
  rw [bind_of_ok hsize]
  exact hf n hn p n hn

theorem accepts_peek (rest : List Char) : peek.Accepts [] rest rest.head? := by
  intro p size _
  exact ⟨p, rfl⟩

theorem accepts_next {blank : List Char} {c : Char} (hblank : Blank blank)
    (hc : isBlank c = false) (rest : List Char) : next.Accepts blank (c :: rest) (some c) := by
  have hdrop : (blank ++ c :: rest).dropWhile isBlank = c :: rest := by
    rw [List.dropWhile_append_of_pos hblank, List.dropWhile_cons_of_neg (by simp [hc])]
  have hblanks : blanks.Accepts blank (c :: rest) () := by
    intro p size _
    refine ⟨p.afterAll ((blank ++ c :: rest).takeWhile isBlank), ?_⟩
    simp only [blanks, hdrop]
  exact hblanks.bind_last (accepts_peek (c :: rest))

theorem Accepts.of_next {f : Option Char → Reader α} {blank text rest : List Char} {c : Char}
    {a : α} (hblank : Blank blank) (hc : isBlank c = false) (hhead : (text ++ rest).head? = some c)
    (hf : (f (some c)).Accepts text rest a) : (next >>= f).Accepts (blank ++ text) rest a := by
  obtain ⟨tail, htail⟩ := List.head?_eq_some_iff.mp hhead
  have hnext := accepts_next hblank hc tail
  rw [← htail] at hnext
  exact hnext.bind hf

theorem Accepts.of_begin {f : Char → Reader α} {blank text rest : List Char} {c : Char} {a : α}
    (hblank : Blank blank) (hc : isBlank c = false) (hhead : (text ++ rest).head? = some c)
    (hf : (f c).Accepts text rest a) : (begin >>= f).Accepts (blank ++ text) rest a := by
  unfold begin
  rw [bind_assoc]
  exact .of_next hblank hc hhead hf

theorem Accepts.enclosed {close : Reader Unit} {body : Reader α} {s t rest : List Char} {a : α}
    (hbody : body.Accepts s (t ++ rest) a) (hclose : close.Accepts t rest ()) (c : Char) :
    (enclosed close body).Accepts (c :: s ++ t) rest a := by
  have hopened : (do advance; body : Reader α).Accepts ([c] ++ s) (t ++ rest) a :=
    (accepts_advance c (s ++ (t ++ rest))).bind hbody
  intro p size hsize
  rw [List.append_assoc] at hsize ⊢
  obtain ⟨q, hq⟩ := hopened p size hsize
  have hrest : (t ++ rest).length ≤ size := by
    rw [List.length_append] at hsize
    exact Nat.le_trans (Nat.le_add_left _ _) hsize
  obtain ⟨q', hq'⟩ := hclose q size hrest
  refine ⟨q', ?_⟩
  rw [List.singleton_append] at hq
  simp only [Reader.enclosed, hq, hq']

end Reader

end LogTemplate.Json
