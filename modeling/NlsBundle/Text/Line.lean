import NlsBundle.Text.Basic

/-!
# Lines

A line ends after a line feed, a carriage return, or the two of them in this order, and keeps its
end. The lines of a text, put together again, are the text.
-/

namespace NlsBundle.Text

/-- The lines of a text, each with its line end; the last one may have none. -/
def lines : Text → List Text
  | [] => []
  | '\r' :: '\n' :: t => ['\r', '\n'] :: lines t
  | c :: t =>
    if c = '\n' ∨ c = '\r' then [c] :: lines t
    else match lines t with
      | [] => [[c]]
      | line :: rest => (c :: line) :: rest

/-- Writes every line end as a single line feed. -/
def unifyLineEnds : Text → Text
  | [] => []
  | '\r' :: '\n' :: t => '\n' :: unifyLineEnds t
  | c :: t => (if c = '\r' then '\n' else c) :: unifyLineEnds t

/-- Nothing is lost or added by the division into lines. -/
theorem flatten_lines (t : Text) : (lines t).flatten = t := by
  fun_induction lines t with
  | case1 => rfl
  | case2 t ih => simp [ih]
  | case3 c t _ h ih => simp [ih]
  | case4 c t _ h hl ih => simp [hl] at ih; simp [← ih]
  | case5 c t _ h line rest hl ih => simp [hl] at ih; simp [← ih]

end NlsBundle.Text
