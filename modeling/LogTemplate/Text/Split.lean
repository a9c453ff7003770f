/-! Cutting a text, of characters or of bytes, at a separator and joining the pieces again. -/

namespace LogTemplate.Text

variable {α : Type} [DecidableEq α]

def splitOn (separator : α) : List α → List (List α)
  | [] => [[]]
  | c :: rest =>
    if c = separator then [] :: splitOn separator rest
    else match splitOn separator rest with
      | [] => [[c]]
      | piece :: pieces => (c :: piece) :: pieces

def joinWith (separator : α) : List (List α) → List α
  | [] => []
  | [piece] => piece
  | piece :: next :: rest => piece ++ separator :: joinWith separator (next :: rest)

def joined (separator : Char) (pieces : List String) : String :=
  String.ofList (joinWith separator (pieces.map String.toList))

theorem splitOn_ne_nil (separator : α) (text : List α) : splitOn separator text ≠ [] := by
  cases text with
  | nil => simp [splitOn]
  | cons c rest =>
    simp only [splitOn]
    split
    · simp
    · split <;> simp

theorem splitOn_of_not_mem {separator : α} {text : List α} (h : separator ∉ text) :
    splitOn separator text = [text] := by
  induction text with
  | nil => rfl
  | cons c rest ih =>
    simp only [List.mem_cons, not_or] at h
    simp [splitOn, ih h.2, Ne.symm h.1]

theorem splitOn_append_separator (separator : α) (text rest : List α) :
    splitOn separator (text ++ separator :: rest)
      = splitOn separator text ++ splitOn separator rest := by
  induction text with
  | nil =>
    rw [List.nil_append, splitOn]
    exact if_pos rfl
  | cons c text ih =>
    obtain ⟨piece, pieces, hpieces⟩ := List.exists_cons_of_ne_nil (splitOn_ne_nil separator text)
    rw [List.cons_append, splitOn, splitOn, ih, hpieces]
    split <;> rfl

theorem splitOn_append {separator : α} {piece : List α} (h : separator ∉ piece)
    (text : List α) :
    splitOn separator (piece ++ separator :: text) = piece :: splitOn separator text := by
  rw [splitOn_append_separator, splitOn_of_not_mem h]
  rfl

theorem length_splitOn (separator : α) (text : List α) :
    (splitOn separator text).length = text.count separator + 1 := by
  induction text with
  | nil => rfl
  | cons c rest ih =>
    obtain ⟨piece, pieces, hpieces⟩ := List.exists_cons_of_ne_nil (splitOn_ne_nil separator rest)
    rw [hpieces, List.length_cons] at ih
    rw [splitOn, hpieces, List.count_cons]
    by_cases h : c = separator
    · rw [if_pos h, if_pos (beq_iff_eq.mpr h), List.length_cons, List.length_cons, ih]
    · rw [if_neg h, if_neg (mt beq_iff_eq.mp h), Nat.add_zero]
      exact ih

theorem splitOn_joinWith {separator : α} {pieces : List (List α)} (hne : pieces ≠ [])
    (h : ∀ piece ∈ pieces, separator ∉ piece) :
    splitOn separator (joinWith separator pieces) = pieces := by
  induction pieces with
  | nil => exact absurd rfl hne
  | cons piece rest ih =>
    cases rest with
    | nil => exact splitOn_of_not_mem (h piece (by simp))
    | cons next rest =>
      rw [joinWith, splitOn_append (h piece (by simp)), ih (by simp) fun p hp => h p (by simp_all)]

end LogTemplate.Text
