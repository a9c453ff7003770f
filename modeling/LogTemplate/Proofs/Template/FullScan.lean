import LogTemplate.Proofs.Template.Balance

/-! The scan that never stops early: a machine over characters that reads every text to its end and
stays in a third state once a brace has stood where none can. It comes to the verdict of the scan over
bytes, which stops at that brace. -/

namespace LogTemplate.Template

inductive ScanState where
  | closed
  | opened
  | failed
  deriving DecidableEq, Repr

namespace ScanState

/-- The state behind a character, with the character after it in view, and how many more characters are
taken with it. -/
def step : ScanState → Char → Option Char → ScanState × Nat
  | failed, _, _ => (failed, 0)
  | s, '{', some '{' => (s, 1)
  | opened, '{', _ => (failed, 0)
  | closed, '{', _ => (opened, 0)
  | opened, '}', _ => (closed, 0)
  | closed, '}', some '}' => (closed, 1)
  | closed, '}', _ => (failed, 0)
  | s, _, _ => (s, 0)

def scan (s : ScanState) : List Char → ScanState
  | [] => s
  | c :: rest => (s.step c rest.head?).1.scan (rest.drop (s.step c rest.head?).2)
termination_by cs => cs.length
decreasing_by
  simp only [List.length_drop, List.length_cons]
  omega

def accepts : ScanState → List Char → Bool
  | closed, cs => balanced '{' '}' false cs
  | opened, cs => balanced '{' '}' true cs
  | failed, _ => false

theorem step_plain {c : Char} (ho : c ≠ '{') (hc : c ≠ '}') (s : ScanState) (next : Option Char) :
    s.step c next = (s, 0) := by
  cases s <;> simp [step, ho, hc]

theorem step_closed_opening {next : Option Char} (h : next ≠ some '{') :
    closed.step '{' next = (opened, 0) := by
  simp [step]

theorem step_opened_opening {next : Option Char} (h : next ≠ some '{') :
    opened.step '{' next = (failed, 0) := by
  simp [step]

theorem step_closed_closing {next : Option Char} (h : next ≠ some '}') :
    closed.step '}' next = (failed, 0) := by
  simp [step]

theorem accepts_cons (s : ScanState) (c : Char) (rest : List Char) :
    s.accepts (c :: rest) =
      (s.step c rest.head?).1.accepts (rest.drop (s.step c rest.head?).2) := by
  have hne : '}' ≠ '{' := by decide
  by_cases ho : c = '{'
  · subst ho
    by_cases hd : rest.head? = some '{'
    · obtain ⟨rest, rfl⟩ := List.head?_eq_some_iff.1 hd
      cases s with
      | closed => exact balanced_doubled_opening false rest
      | opened => exact balanced_doubled_opening true rest
      | failed => rfl
    · cases s with
      | closed =>
        rw [step_closed_opening hd]
        exact balanced_opening hd false
      | opened =>
        rw [step_opened_opening hd]
        exact balanced_opening hd true
      | failed => rfl
  · by_cases hc : c = '}'
    · subst hc
      cases s with
      | closed =>
        by_cases hd : rest.head? = some '}'
        · obtain ⟨rest, rfl⟩ := List.head?_eq_some_iff.1 hd
          exact balanced_doubled_closing hne rest
        · rw [step_closed_closing hd]
          exact balanced_closing hne hd
      | opened => exact balanced_closing_of_open hne rest
      | failed => rfl
    · rw [step_plain ho hc, List.drop_zero]
      cases s with
      | closed | opened => exact balanced_plain ho hc _ rest
      | failed => rfl

theorem accepts_eq_scan (s : ScanState) (cs : List Char) :
    s.accepts cs = decide (s.scan cs = closed) := by
  induction s, cs using scan.induct with
  | case1 s =>
    rw [scan]
    cases s <;> rfl
  | case2 s c rest ih => rw [accepts_cons, ih, scan]

end ScanState

/-- Whether no placeholder is open and no brace stood wrong once all characters are read. -/
def fullScan (template : String) : Bool := ScanState.closed.scan template.toList = .closed

/-- The scan over bytes, which stops at the first wrong brace, and the one over characters, which does
not, come to the same verdict on every text. -/
theorem isValid?_eq_fullScan (s : String) : isValid? (some s) = fullScan s := by
  have hverdict : ScanState.closed.accepts s.toList = fullScan s :=
    ScanState.accepts_eq_scan .closed s.toList
  rw [isValid?, isValid_eq_balanced]
  exact hverdict

end LogTemplate.Template
