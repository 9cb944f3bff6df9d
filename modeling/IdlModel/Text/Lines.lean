/-!
# Lines of a text

A text is cut at its newlines in two ways. `pieces` cuts at every newline and keeps what stands
between, so a text with `n` newlines has `n + 1` pieces and `joinLines` puts them together again.
`lines` counts a newline as the end of a line: there is no empty last line after a final newline,
and one carriage return directly before a newline belongs to the line end.
-/

namespace IdlModel.Text

/-- The parts of a text between its newlines. -/
def pieces : List Char → List (List Char)
  | [] => [[]]
  | c :: cs => if c = '\n' then [] :: pieces cs else (pieces cs).modifyHead (c :: ·)

/-- Lines put together with a newline between each two. -/
def joinLines (ls : List (List Char)) : List Char :=
  ['\n'].intercalate ls

/-- The text without one carriage return at its end. -/
def dropReturn (cs : List Char) : List Char :=
  if cs.getLast? = some '\r' then cs.dropLast else cs

/-- The lines that pieces stand for: each piece but the last was ended by a newline and gives up a
carriage return before it; the last one counts only if it holds something. -/
def closeLines : List (List Char) → List (List Char)
  | [] => []
  | [last] => if last = [] then [] else [last]
  | piece :: next :: rest => dropReturn piece :: closeLines (next :: rest)

/-- The lines of a text. -/
def lines (cs : List Char) : List (List Char) :=
  closeLines (pieces cs)

theorem pieces_ne_nil (cs : List Char) : pieces cs ≠ [] := by
  cases cs with
  | nil => simp [pieces]
  | cons c cs =>
    rw [pieces]
    split
    · simp
    · cases h : pieces cs <;> simp_all [List.modifyHead, pieces_ne_nil cs]

/-- Cutting loses nothing. -/
theorem joinLines_pieces (cs : List Char) : joinLines (pieces cs) = cs := by
  induction cs with
  | nil => rfl
  | cons c cs ih =>
    rw [pieces]
    have hne := pieces_ne_nil cs
    cases hp : pieces cs with
    | nil => exact absurd hp hne
    | cons p ps =>
      rw [hp] at ih
      split
      · next h =>
        subst h
        rw [joinLines, List.intercalate_cons_cons, ← joinLines, ih]
        rfl
      · cases ps with
        | nil => simpa [joinLines, List.modifyHead] using ih
        | cons q qs => simpa [joinLines, List.modifyHead, List.intercalate_cons_cons] using ih

end IdlModel.Text
